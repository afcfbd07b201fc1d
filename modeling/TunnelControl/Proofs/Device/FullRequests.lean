import TunnelControl.Proofs.Device.Packing

/-!
Requests are cut only where they must be. A change that fits is one request. Otherwise each request
but the last is so full that the next record of a peer, or the next allowed address of the peer that
goes on, has no room in it.
-/

namespace TunnelControl

namespace PeerChange

def totalCost (records : List PeerChange) : Nat :=
  (records.map cost).sum

/-- Peers in requests that are filled one after another. A request ends before a peer whose record
alone has no room, or within a peer whose next allowed address has none. Such a peer goes on in the
next request under its key, with that address and perhaps more, and with nothing else. -/
inductive Packed : List PeerChange → List (List PeerChange) → Prop
  | last {peers : List PeerChange} (fits : totalCost peers ≤ DeviceChange.budget) :
      Packed peers [peers]
  | between {front back : List PeerChange} {peer : PeerChange} {parts : List (List PeerChange)}
      (fits : totalCost front ≤ DeviceChange.budget)
      (full : DeviceChange.budget < totalCost front + peer.baseCost)
      (rest : Packed (peer :: back) parts) : Packed (front ++ peer :: back) (front :: parts)
  | within {front back others : List PeerChange} {record : PeerChange} {range : Subnet}
      {ranges early : List Subnet} {parts : List (List PeerChange)}
      (fits : totalCost (front ++ [record]) ≤ DeviceChange.budget)
      (full : DeviceChange.budget < totalCost (front ++ [record]) + range.cost)
      (rest : Packed ({ record.continuation with allowedIps := range :: ranges } :: back)
        (({ record.continuation with allowedIps := range :: early } :: others) :: parts)) :
      Packed (front ++ { record with allowedIps := record.allowedIps ++ range :: ranges } :: back)
        ((front ++ [record]) :: ({ record.continuation with allowedIps := range :: early } ::
          others) :: parts)

theorem totalCost_append (front back : List PeerChange) :
    totalCost (front ++ back) = totalCost front + totalCost back := by
  rw [totalCost, List.map_append, List.sum_append]
  rfl

theorem totalCost_cons (record : PeerChange) (records : List PeerChange) :
    totalCost (record :: records) = record.cost + totalCost records := rfl

theorem baseCost_le_cost (record : PeerChange) : record.baseCost ≤ record.cost :=
  Nat.le_add_right _ _

theorem not_full_of_nil (peer : PeerChange) :
    ¬ DeviceChange.budget < totalCost [] + peer.baseCost := by
  have hbase := peer.baseCost_bounds
  have hlarge : 96 ≤ DeviceChange.budget := by decide
  have hnothing : totalCost [] = 0 := rfl
  omega

theorem not_full_of_bare {record : PeerChange} (h : record.allowedIps = []) (range : Subnet) :
    ¬ DeviceChange.budget < totalCost [record] + range.cost := by
  have hbase := record.baseCost_bounds
  have hrange := range.cost_bounds
  have hlarge : 136 ≤ DeviceChange.budget := by decide
  have hcost : totalCost [record] = record.baseCost := by
    rw [totalCost, List.map_singleton, List.sum_singleton, cost, h]
    rfl
  omega

theorem Packed.opens {record : PeerChange} {range : Subnet} {ranges : List Subnet}
    {back : List PeerChange} {parts : List (List PeerChange)}
    (h : Packed ({ record.continuation with allowedIps := range :: ranges } :: back) parts) :
    ∃ early others later, parts =
      ({ record.continuation with allowedIps := range :: early } :: others) :: later := by
  generalize hpeers : { record.continuation with allowedIps := range :: ranges } :: back = peers at h
  cases h with
  | last fits =>
      subst hpeers
      exact ⟨ranges, back, [], rfl⟩
  | @between front _ peer parts fits full rest =>
      cases front with
      | nil =>
          obtain ⟨rfl, -⟩ := List.cons.inj hpeers
          exact absurd full (not_full_of_nil _)
      | cons first front =>
          obtain ⟨rfl, -⟩ := List.cons.inj hpeers
          exact ⟨ranges, front, parts, rfl⟩
  | @within front _ others cut next _ early parts fits full rest =>
      cases front with
      | nil =>
          obtain ⟨hrecord, -⟩ := List.cons.inj hpeers
          obtain ⟨key, shared, keepalive, first, remove⟩ := cut
          cases first with
          | nil => exact absurd full (not_full_of_bare rfl next)
          | cons first earlier =>
              cases hrecord
              exact ⟨earlier, [], _, rfl⟩
      | cons first front =>
          obtain ⟨rfl, -⟩ := List.cons.inj hpeers
          exact ⟨ranges, front ++ [cut], _, rfl⟩

theorem Packed.ne_nil {peers : List PeerChange} {parts : List (List PeerChange)}
    (h : Packed peers parts) (hpeers : peers ≠ []) : ∀ part ∈ parts, part ≠ [] := by
  induction h with
  | last fits => exact List.forall_mem_singleton.mpr hpeers
  | between fits full rest ih =>
      refine List.forall_mem_cons.mpr ⟨?_, ih (List.cons_ne_nil _ _)⟩
      rintro rfl
      exact not_full_of_nil _ full
  | within fits full rest ih =>
      exact List.forall_mem_cons.mpr ⟨List.append_ne_nil_of_right_ne_nil _ (List.cons_ne_nil _ _),
        ih (List.cons_ne_nil _ _)⟩

/-- Peers that fit together are not spread at all. -/
theorem Packed.eq_singleton {peers : List PeerChange} {parts : List (List PeerChange)}
    (h : Packed peers parts) (hpeers : totalCost peers ≤ DeviceChange.budget) :
    parts = [peers] := by
  cases h with
  | last fits => rfl
  | @between front back peer parts fits full rest =>
      have hbase := peer.baseCost_le_cost
      rw [totalCost_append, totalCost_cons] at hpeers
      omega
  | @within front back others record range ranges early parts fits full rest =>
      have hcost := record.cost_append (range :: ranges)
      have hrange : Subnet.totalCost (range :: ranges) =
          range.cost + Subnet.totalCost ranges := List.sum_cons
      rw [totalCost_append, totalCost_cons] at hpeers full
      have hnothing : totalCost [] = 0 := rfl
      omega

end PeerChange

namespace DeviceChange

open PeerChange

namespace Packing

/-- Peers that are added to a packing end in requests that are filled, behind those that are full
already. -/
def Fills (packing finished : Packing) (left : List PeerChange) : Prop :=
  ∃ parts, finished.parts = packing.full ++ parts ∧
    Packed (packing.current.peers ++ left) (parts.map (·.peers))

theorem Holds.totalCost_eq {packing : Packing} (h : packing.Holds 0) :
    totalCost packing.current.peers = packing.used :=
  h.used_eq.symm

theorem Holds.totalCost_le {packing : Packing} (h : packing.Holds 0) :
    totalCost packing.current.peers ≤ budget := by
  rw [h.totalCost_eq]
  exact h.used_le

theorem fills_fill {back : List PeerChange}
    (hback : ∀ packing : Packing, packing.Holds 0 →
      packing.Fills (back.foldl add packing) back)
    {packing : Packing} {record : PeerChange} (ranges : List Subnet)
    (h : packing.Holds record.cost) :
    packing.Fills (back.foldl add (packing.fill record ranges))
      ({ record with allowedIps := record.allowedIps ++ ranges } :: back) := by
  induction ranges generalizing packing record with
  | nil =>
      obtain ⟨parts, hparts, hpacked⟩ := hback (packing.place record) h.place
      refine ⟨parts, hparts, ?_⟩
      rw [List.append_nil, List.append_cons]
      exact hpacked
  | cons range ranges ih =>
      rw [fill]
      split
      case isTrue hroom =>
          obtain ⟨parts, hparts, hpacked⟩ := ih (h.grow hroom)
          refine ⟨parts, hparts, ?_⟩
          rw [List.append_cons record.allowedIps]
          exact hpacked
      case isFalse hroom =>
          obtain ⟨parts, hparts, hpacked⟩ := ih (h.goOn range)
          obtain ⟨early, others, later, hopens⟩ := Packed.opens hpacked
          refine ⟨(packing.place record).current :: parts, ?_, ?_⟩
          · rw [List.append_cons]
            exact hparts
          · have hfull : budget < totalCost (packing.current.peers ++ [record]) + range.cost := by
              have hused : totalCost (packing.current.peers ++ [record]) = packing.used :=
                h.place.totalCost_eq
              omega
            rw [hopens] at hpacked
            rw [List.map_cons, hopens]
            exact .within h.place.totalCost_le hfull hpacked

theorem fills_foldl {packing : Packing} (h : packing.Holds 0) (peers : List PeerChange) :
    packing.Fills (peers.foldl add packing) peers := by
  induction peers generalizing packing with
  | nil =>
      refine ⟨[packing.current], rfl, ?_⟩
      rw [List.append_nil]
      exact .last h.totalCost_le
  | cons peer peers ih =>
      have hroom := (h.before peer).2
      rw [List.foldl_cons, add_eq_fill]
      unfold before at hroom ⊢
      split
      case isTrue hfull =>
          rw [if_pos hfull] at hroom
          obtain ⟨parts, hparts, hpacked⟩ :=
            fills_fill (fun packing h => ih h) peer.allowedIps (h.advance.begin hroom)
          refine ⟨packing.current :: parts, ?_, ?_⟩
          · rw [List.append_cons]
            exact hparts
          · refine .between h.totalCost_le ?_ hpacked
            rw [h.totalCost_eq]
            exact hfull.1
      case isFalse hsome =>
          rw [if_neg hsome] at hroom
          exact fills_fill (fun packing h => ih h) peer.allowedIps (h.begin hroom)

end Packing

theorem packed_requests (change : DeviceChange) :
    Packed change.peers (change.requests.map (·.peers)) := by
  obtain ⟨parts, hparts, hpacked⟩ :=
    Packing.fills_foldl (Packing.holds_start change) change.peers
  have hrequests : change.requests = parts := hparts
  rw [hrequests]
  exact hpacked

theorem requests_eq_singleton {change : DeviceChange} (h : totalCost change.peers ≤ budget) :
    change.requests = [change] := by
  obtain ⟨first, rest, hrequests, hsettings, -⟩ := change.requests_eq_cons
  have hpeers := change.packed_requests.eq_singleton h
  rw [hrequests, List.map_cons] at hpeers
  obtain ⟨hfirst, hrest⟩ := List.cons.inj hpeers
  rw [List.map_eq_nil_iff] at hrest
  obtain ⟨hkey, hport, -⟩ := DeviceChange.mk.inj hsettings
  have heq : first = change := by
    cases first
    cases change
    cases hkey
    cases hport
    cases hfirst
    rfl
  rw [hrequests, hrest, heq]

/-- A change is one request, namely itself, if and only if its records fit together. Otherwise every
cut is forced, as `Packed` says. The first request alone has settings, and none is without a peer
unless the change is. -/
theorem requests_cut_only_when_full (change : DeviceChange) :
    (change.requests = [change] ↔ totalCost change.peers ≤ budget) ∧
      Packed change.peers (change.requests.map (·.peers)) ∧
      (∃ first rest, change.requests = first :: rest ∧ first.settings = change.settings ∧
        ∀ part ∈ rest, part.settings = noSettings) ∧
      (change.peers ≠ [] → ∀ part ∈ change.requests, part.peers ≠ []) := by
  refine ⟨⟨fun hsingle => ?_, requests_eq_singleton⟩, change.packed_requests,
    change.requests_eq_cons, fun hpeers part hmem => ?_⟩
  · exact change.requests_cost_le change (by rw [hsingle]; exact List.mem_singleton_self change)
  · exact change.packed_requests.ne_nil hpeers part.peers (List.mem_map_of_mem hmem)

end DeviceChange

end TunnelControl
