import Mathlib.Data.List.Chain
import TunnelControl.Device.Snapshot

/-!
Joining the records of peers. A record that goes on under the key of the one before it leaves the
same peers as if its allowed addresses had stood there at once, and peers whose neighbours have
other keys stay as they are.
-/

namespace TunnelControl.Peer

theorem join_append_singleton (front : List Peer) (last record : Peer) :
    join (front ++ [last]) record =
      front ++ if last.publicKey = record.publicKey then
        [{ last with allowedIps := last.allowedIps ++ record.allowedIps }] else [last, record] := by
  induction front with
  | nil => rfl
  | cons first front ih =>
      cases front with
      | nil => exact congrArg (first :: ·) ih
      | cons second front => exact congrArg (first :: ·) ih

theorem join_join (peers : List Peer) {first record : Peer}
    (hkey : record.publicKey = first.publicKey) :
    join (join peers first) record =
      join peers { first with allowedIps := first.allowedIps ++ record.allowedIps } := by
  rcases List.eq_nil_or_concat peers with rfl | ⟨front, last, rfl⟩
  · have hsingle := join_append_singleton [] first record
    rw [if_pos hkey.symm] at hsingle
    exact hsingle
  · rw [List.concat_eq_append, join_append_singleton, join_append_singleton]
    by_cases hlast : last.publicKey = first.publicKey
    · rw [if_pos hlast, if_pos hlast, join_append_singleton, if_pos (hlast.trans hkey.symm)]
      simp
    · rw [if_neg hlast, if_neg hlast, List.append_cons, join_append_singleton, if_pos hkey.symm]
      simp

def joined (peers records : List Peer) : List Peer :=
  records.foldl join peers

theorem joined_append (peers front back : List Peer) :
    joined peers (front ++ back) = joined (joined peers front) back :=
  List.foldl_append

theorem joined_cut (peers rest : List Peer) {first record : Peer}
    (hkey : record.publicKey = first.publicKey) :
    joined peers (first :: record :: rest) =
      joined peers ({ first with allowedIps := first.allowedIps ++ record.allowedIps } :: rest) := by
  simp only [joined, List.foldl_cons, join_join peers hkey]

/-- No peer has the key of the one before it. -/
def Apart (peers : List Peer) : Prop :=
  peers.IsChain fun first second => first.publicKey ≠ second.publicKey

theorem join_of_apart {front : List Peer} {record : Peer} (h : Apart (front ++ [record])) :
    join front record = front ++ [record] := by
  rcases List.eq_nil_or_concat front with rfl | ⟨before, last, rfl⟩
  · rfl
  · rw [List.concat_eq_append, List.append_assoc, List.singleton_append] at h
    have hne := (List.isChain_append_cons_cons.mp h).2.1
    rw [List.concat_eq_append, join_append_singleton, if_neg hne, List.append_assoc]
    rfl

theorem joined_of_apart_append {front back : List Peer} (h : Apart (front ++ back)) :
    joined front back = front ++ back := by
  induction back generalizing front with
  | nil => exact (List.append_nil front).symm
  | cons first back ih =>
      rw [List.append_cons] at h ⊢
      have hfirst : Apart (front ++ [first]) := h.left_of_append
      rw [joined, List.foldl_cons, join_of_apart hfirst]
      exact ih h

theorem joined_of_apart {peers : List Peer} (h : Apart peers) : joined [] peers = peers :=
  joined_of_apart_append h

end TunnelControl.Peer
