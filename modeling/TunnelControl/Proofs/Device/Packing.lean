import Mathlib.Algebra.Ring.Nat
import TunnelControl.Device.Change

/-!
How the peers of a change are spread over its requests. Each request stays within the room for
peers, the settings of the device are in the first alone, and the records of all requests in order
are those of the change, where a record may be cut within its allowed addresses.
-/

namespace TunnelControl

namespace PeerChange

/-- The pieces of a record. Each goes on where the one before it ends, under the key alone, as long
as allowed addresses are left. -/
inductive Pieces : PeerChange → List PeerChange → Prop
  | whole (record : PeerChange) : Pieces record [record]
  | cut {record : PeerChange} {later : List Subnet} {pieces : List PeerChange}
      (nonempty : later ≠ [])
      (rest : Pieces { record.continuation with allowedIps := later } pieces) :
      Pieces { record with allowedIps := record.allowedIps ++ later } (record :: pieces)

/-- The records of several peers, each of them in pieces. -/
inductive Spread : List PeerChange → List PeerChange → Prop
  | nil : Spread [] []
  | cons {peer : PeerChange} {peers pieces records : List PeerChange}
      (first : Pieces peer pieces) (rest : Spread peers records) :
      Spread (peer :: peers) (pieces ++ records)

theorem Pieces.ne_nil {record : PeerChange} {pieces : List PeerChange}
    (h : Pieces record pieces) : pieces ≠ [] := by
  cases h <;> exact List.cons_ne_nil _ _

theorem Pieces.eq_singleton {record : PeerChange} {pieces : List PeerChange}
    (h : Pieces record pieces) (hlength : pieces.length = 1) : pieces = [record] := by
  cases h with
  | whole => rfl
  | cut nonempty rest =>
      have hrest := List.length_pos_iff.mpr rest.ne_nil
      rw [List.length_cons] at hlength
      omega

/-! The room that records take. -/

end PeerChange

def Subnet.totalCost (ranges : List Subnet) : Nat :=
  (ranges.map Subnet.cost).sum

theorem Subnet.cost_bounds (subnet : Subnet) : 28 ≤ subnet.cost ∧ subnet.cost ≤ 40 := by
  unfold Subnet.cost
  cases subnet.address.family <;> decide

namespace PeerChange

def cost (record : PeerChange) : Nat :=
  record.baseCost + Subnet.totalCost record.allowedIps

theorem baseCost_bounds (record : PeerChange) :
    44 ≤ record.baseCost ∧ record.baseCost ≤ 96 := by
  unfold baseCost
  cases record.remove <;> cases record.presharedKey.isSome <;>
    cases record.keepalive.isSome <;> decide

theorem baseCost_continuation (record : PeerChange) : record.continuation.baseCost = 44 := rfl

theorem cost_append (record : PeerChange) (ranges : List Subnet) :
    cost { record with allowedIps := record.allowedIps ++ ranges } =
      record.cost + Subnet.totalCost ranges := by
  have hbase : baseCost { record with allowedIps := record.allowedIps ++ ranges } =
      record.baseCost := rfl
  simp only [cost, hbase, Subnet.totalCost, List.map_append, List.sum_append]
  omega

end PeerChange

namespace DeviceChange

def settings (change : DeviceChange) : DeviceChange :=
  { change with peers := [] }

def noSettings : DeviceChange := {}

def cost (change : DeviceChange) : Nat :=
  (change.peers.map PeerChange.cost).sum

def start (change : DeviceChange) : Packing :=
  { current := change.settings }

theorem continuation_le (record : PeerChange) (subnet : Subnet) :
    record.continuation.baseCost + subnet.cost ≤ budget := by
  have hsubnet := subnet.cost_bounds
  simp only [PeerChange.baseCost_continuation, budget, Netlink.attributeLimit,
    Netlink.attributeHeader]
  omega

namespace Packing

def parts (packing : Packing) : List DeviceChange :=
  packing.full ++ [packing.current]

def records (packing : Packing) : List PeerChange :=
  packing.parts.flatMap (·.peers)

def before (packing : Packing) (peer : PeerChange) : Packing :=
  if budget < packing.used + peer.baseCost ∧ packing.current.peers ≠ [] then packing.advance
  else packing

/-- The record of the peer does not fit into the request in which it starts. -/
def Cuts (packing : Packing) (peer : PeerChange) : Prop :=
  budget < (packing.before peer).used + peer.cost

theorem add_eq_fill (packing : Packing) (peer : PeerChange) :
    packing.add peer =
      fill { packing.before peer with used := (packing.before peer).used + peer.baseCost }
        { peer with allowedIps := [] } peer.allowedIps := rfl

/-! Placing a record and starting a request. -/

@[simp] theorem records_place (packing : Packing) (record : PeerChange) :
    (packing.place record).records = packing.records ++ [record] := by
  simp [records, parts, place]

@[simp] theorem records_advance (packing : Packing) :
    packing.advance.records = packing.records := by
  simp [records, parts, advance]

@[simp] theorem records_before (packing : Packing) (peer : PeerChange) :
    (packing.before peer).records = packing.records := by
  unfold before
  split
  · exact records_advance packing
  · rfl

theorem settings_place (packing : Packing) (record : PeerChange) :
    (packing.place record).parts.map settings = packing.parts.map settings := by
  simp [parts, place, settings]

theorem settings_advance (packing : Packing) :
    packing.advance.parts.map settings = packing.parts.map settings ++ [noSettings] := by
  simp [parts, advance, settings, noSettings]

/-! The room in use. While a record is being filled its room is counted beside that of the records
placed before it. -/

/-- Every request is within the room for peers, and so is the record that is to be placed next. -/
structure Holds (packing : Packing) (pending : Nat) : Prop where
  used_eq : packing.used = packing.current.cost + pending
  used_le : packing.used ≤ budget
  full_le : ∀ part ∈ packing.full, part.cost ≤ budget

theorem Holds.parts_le {packing : Packing} (h : packing.Holds 0) :
    ∀ part ∈ packing.parts, part.cost ≤ budget := by
  intro part hmem
  rcases List.mem_append.mp hmem with hfull | hcurrent
  · exact h.full_le part hfull
  · have hpart := List.mem_singleton.mp hcurrent
    have hused := h.used_eq
    have hbudget := h.used_le
    subst hpart
    omega

theorem Holds.place {packing : Packing} {record : PeerChange} (h : packing.Holds record.cost) :
    (packing.place record).Holds 0 where
  used_eq := by
    have hused := h.used_eq
    simp only [Packing.place, cost, List.map_append, List.map_cons, List.map_nil,
      List.sum_append, List.sum_singleton] at hused ⊢
    omega
  used_le := h.used_le
  full_le := h.full_le

theorem Holds.advance {packing : Packing} (h : packing.Holds 0) : packing.advance.Holds 0 where
  used_eq := rfl
  used_le := Nat.zero_le _
  full_le := h.parts_le

theorem Holds.grow {packing : Packing} {record : PeerChange} (h : packing.Holds record.cost)
    {subnet : Subnet} (hroom : packing.used + subnet.cost ≤ budget) :
    Holds { packing with used := packing.used + subnet.cost }
      (PeerChange.cost { record with allowedIps := record.allowedIps ++ [subnet] }) where
  used_eq := by
    have hcost := PeerChange.cost_append record [subnet]
    have hused := h.used_eq
    simp only [Subnet.totalCost, List.map_cons, List.map_nil, List.sum_singleton] at hcost
    dsimp only
    omega
  used_le := hroom
  full_le := h.full_le

theorem Holds.goOn {packing : Packing} {record : PeerChange} (h : packing.Holds record.cost)
    (subnet : Subnet) :
    Holds { (packing.place record).advance with
        used := record.continuation.baseCost + subnet.cost }
      (PeerChange.cost { record.continuation with allowedIps := [subnet] }) where
  used_eq := by
    simp only [PeerChange.cost, Subnet.totalCost, List.map_cons, List.map_nil,
      List.sum_singleton]
    exact Eq.symm (Nat.zero_add _)
  used_le := continuation_le record subnet
  full_le := h.place.advance.full_le

theorem Holds.fill {packing : Packing} {record : PeerChange} (ranges : List Subnet)
    (h : packing.Holds record.cost) : (packing.fill record ranges).Holds 0 := by
  induction ranges generalizing packing record with
  | nil => exact h.place
  | cons subnet ranges ih =>
      rw [Packing.fill]
      split
      case isTrue hroom => exact ih (h.grow hroom)
      case isFalse => exact ih (h.goOn subnet)

theorem Holds.before {packing : Packing} (h : packing.Holds 0) (peer : PeerChange) :
    (packing.before peer).Holds 0 ∧ (packing.before peer).used + peer.baseCost ≤ budget := by
  have hbase := peer.baseCost_bounds
  have hlarge : 96 ≤ budget := by decide
  unfold Packing.before
  split
  · exact ⟨h.advance, by simp only [Packing.advance]; omega⟩
  · rename_i hroom
    refine ⟨h, ?_⟩
    -- a request without peers has used no room
    by_cases hempty : packing.current.peers = []
    · have hused := h.used_eq
      simp only [cost, hempty, List.map_nil, List.sum_nil] at hused
      omega
    · exact Nat.le_of_not_lt fun hfull => hroom ⟨hfull, hempty⟩

theorem Holds.begin {packing : Packing} (h : packing.Holds 0) {peer : PeerChange}
    (hroom : packing.used + peer.baseCost ≤ budget) :
    Holds { packing with used := packing.used + peer.baseCost }
      (PeerChange.cost { peer with allowedIps := [] }) where
  used_eq := by
    have hused := h.used_eq
    have hcost : PeerChange.cost { peer with allowedIps := [] } = peer.baseCost := Nat.add_zero _
    dsimp only
    omega
  used_le := hroom
  full_le := h.full_le

theorem Holds.add {packing : Packing} (h : packing.Holds 0) (peer : PeerChange) :
    (packing.add peer).Holds 0 := by
  obtain ⟨hbefore, hroom⟩ := h.before peer
  rw [add_eq_fill]
  exact (hbefore.begin hroom).fill peer.allowedIps

theorem holds_start (change : DeviceChange) : change.start.Holds 0 where
  used_eq := rfl
  used_le := Nat.zero_le _
  full_le := fun _ hmem => absurd hmem List.not_mem_nil

theorem Holds.foldl {packing : Packing} (h : packing.Holds 0) (peers : List PeerChange) :
    (peers.foldl Packing.add packing).Holds 0 := by
  induction peers generalizing packing with
  | nil => exact h
  | cons peer peers ih => exact ih (h.add peer)

/-! The records. -/

theorem records_fill (packing : Packing) (record : PeerChange) (ranges : List Subnet)
    (hused : packing.used ≤ budget) :
    ∃ pieces, (packing.fill record ranges).records = packing.records ++ pieces ∧
      PeerChange.Pieces { record with allowedIps := record.allowedIps ++ ranges } pieces ∧
      (pieces.length = 1 ↔ packing.used + Subnet.totalCost ranges ≤ budget) := by
  induction ranges generalizing packing record with
  | nil =>
      refine ⟨[record], records_place packing record, ?_, ?_⟩
      · rw [List.append_nil]
        exact .whole record
      · simpa [Subnet.totalCost] using hused
  | cons subnet ranges ih =>
      have htotal : Subnet.totalCost (subnet :: ranges) =
          subnet.cost + Subnet.totalCost ranges := List.sum_cons
      rw [fill]
      split
      case isTrue hroom =>
          obtain ⟨pieces, hrecords, hpieces, hlength⟩ :=
            ih { packing with used := packing.used + subnet.cost }
              { record with allowedIps := record.allowedIps ++ [subnet] } hroom
          refine ⟨pieces, hrecords, ?_, ?_⟩
          · simpa using hpieces
          · rw [hlength, htotal]
            dsimp only
            omega
      case isFalse hroom =>
          have hnext := continuation_le record subnet
          obtain ⟨pieces, hrecords, hpieces, -⟩ :=
            ih { (packing.place record).advance with
                used := record.continuation.baseCost + subnet.cost }
              { record.continuation with allowedIps := [subnet] } hnext
          refine ⟨record :: pieces, ?_, ?_, ?_⟩
          · refine hrecords.trans ?_
            have hplaced : ((packing.place record).advance).records =
                packing.records ++ [record] := by
              rw [records_advance, records_place]
            rw [List.append_cons, ← hplaced]
            rfl
          · exact .cut (List.cons_ne_nil subnet ranges) hpieces
          · have hpositive := List.length_pos_iff.mpr hpieces.ne_nil
            rw [List.length_cons, htotal]
            omega

/-- The pieces in which a peer is added. -/
theorem records_add {packing : Packing} (h : packing.Holds 0) (peer : PeerChange) :
    ∃ pieces, (packing.add peer).records = packing.records ++ pieces ∧
      PeerChange.Pieces peer pieces ∧ (pieces.length = 1 ↔ ¬ packing.Cuts peer) := by
  obtain ⟨-, hroom⟩ := h.before peer
  obtain ⟨pieces, hrecords, hpieces, hlength⟩ :=
    records_fill { packing.before peer with used := (packing.before peer).used + peer.baseCost }
      { peer with allowedIps := [] } peer.allowedIps hroom
  refine ⟨pieces, ?_, hpieces, ?_⟩
  · rw [add_eq_fill, hrecords, ← records_before packing peer]
    rfl
  · rw [hlength, Cuts, PeerChange.cost]
    dsimp only
    omega

theorem records_foldl {packing : Packing} (h : packing.Holds 0) (peers : List PeerChange) :
    ∃ records, (peers.foldl add packing).records = packing.records ++ records ∧
      PeerChange.Spread peers records := by
  induction peers generalizing packing with
  | nil => exact ⟨[], (List.append_nil _).symm, .nil⟩
  | cons peer peers ih =>
      obtain ⟨pieces, hadded, hpieces, -⟩ := records_add h peer
      obtain ⟨records, hrecords, hspread⟩ := ih (h.add peer)
      refine ⟨pieces ++ records, ?_, .cons hpieces hspread⟩
      rw [List.foldl_cons, hrecords, hadded, List.append_assoc]

/-! The settings. -/

theorem settings_fill (packing : Packing) (record : PeerChange) (ranges : List Subnet) :
    ∃ count, (packing.fill record ranges).parts.map settings =
      packing.parts.map settings ++ List.replicate count noSettings := by
  induction ranges generalizing packing record with
  | nil => exact ⟨0, by rw [fill, settings_place, List.replicate_zero, List.append_nil]⟩
  | cons subnet ranges ih =>
      rw [fill]
      split
      · exact ih _ _
      · obtain ⟨count, hsettings⟩ :=
          ih { (packing.place record).advance with
              used := record.continuation.baseCost + subnet.cost }
            { record.continuation with allowedIps := [subnet] }
        refine ⟨count + 1, hsettings.trans ?_⟩
        have hplaced := settings_advance (packing.place record)
        rw [settings_place] at hplaced
        rw [List.replicate_succ, List.append_cons, ← hplaced]
        rfl

theorem settings_add (packing : Packing) (peer : PeerChange) :
    ∃ count, (packing.add peer).parts.map settings =
      packing.parts.map settings ++ List.replicate count noSettings := by
  obtain ⟨count, hfill⟩ :=
    settings_fill { packing.before peer with used := (packing.before peer).used + peer.baseCost }
      { peer with allowedIps := [] } peer.allowedIps
  have hkept : ∃ more, (packing.before peer).parts.map settings =
      packing.parts.map settings ++ List.replicate more noSettings := by
    unfold before
    split
    · exact ⟨1, settings_advance packing⟩
    · exact ⟨0, (List.append_nil _).symm⟩
  obtain ⟨more, hbefore⟩ := hkept
  refine ⟨more + count, ?_⟩
  rw [add_eq_fill, hfill, ← List.replicate_append_replicate, ← List.append_assoc, ← hbefore]
  rfl

theorem settings_foldl (packing : Packing) (peers : List PeerChange) :
    ∃ count, (peers.foldl add packing).parts.map settings =
      packing.parts.map settings ++ List.replicate count noSettings := by
  induction peers generalizing packing with
  | nil => exact ⟨0, (List.append_nil _).symm⟩
  | cons peer peers ih =>
      obtain ⟨count, hrest⟩ := ih (packing.add peer)
      obtain ⟨more, hfirst⟩ := settings_add packing peer
      refine ⟨more + count, ?_⟩
      rw [List.foldl_cons, hrest, hfirst, ← List.replicate_append_replicate, List.append_assoc]

end Packing

/-! The requests of a change. -/

theorem requests_cost_le (change : DeviceChange) :
    ∀ part ∈ change.requests, part.cost ≤ budget :=
  ((Packing.holds_start change).foldl change.peers).parts_le

theorem requests_spread (change : DeviceChange) :
    PeerChange.Spread change.peers (change.requests.flatMap (·.peers)) := by
  obtain ⟨records, hrecords, hspread⟩ :=
    Packing.records_foldl (Packing.holds_start change) change.peers
  have hall : change.requests.flatMap (·.peers) = records := hrecords
  rwa [hall]

/-- There is a first request, and it alone has settings. -/
theorem requests_eq_cons (change : DeviceChange) :
    ∃ first rest, change.requests = first :: rest ∧ first.settings = change.settings ∧
      ∀ part ∈ rest, part.settings = noSettings := by
  obtain ⟨count, hsettings⟩ := Packing.settings_foldl change.start change.peers
  have hall : change.requests.map settings =
      change.settings :: List.replicate count noSettings := hsettings
  cases hrequests : change.requests with
  | nil =>
      rw [hrequests] at hall
      cases hall
  | cons first rest =>
      rw [hrequests] at hall
      obtain ⟨hfirst, hrest⟩ := List.cons.inj hall
      refine ⟨first, rest, rfl, hfirst, fun part hmem => ?_⟩
      have hpart := List.mem_map_of_mem (f := settings) hmem
      rw [hrest] at hpart
      exact List.eq_of_mem_replicate hpart

end DeviceChange

end TunnelControl
