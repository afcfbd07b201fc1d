import Mathlib.Algebra.Ring.Nat
import TunnelControl.Proofs.Netlink.Command
import TunnelControl.Proofs.Netlink.MessageReading

namespace TunnelControl.Netlink

namespace Attribute

/-- The bytes are attributes with zero padding and nothing else, and what is marked as a nest holds
such bytes again. -/
inductive Splits : Bytes → Prop
  | nil : Splits []
  | leaf {type : UInt16} {payload rest : Bytes} (htype : type.toNat < 2 ^ 14)
      (hlength : attributeHeader + payload.length ≤ attributeLimit) (hrest : Splits rest) :
      Splits (frame type payload ++ rest)
  | nest {type : UInt16} {payload rest : Bytes} (htype : type.toNat < 2 ^ 14)
      (hlength : attributeHeader + payload.length ≤ attributeLimit) (hinside : Splits payload)
      (hrest : Splits rest) : Splits (frame (type ||| nestedFlag) payload ++ rest)

mutual

def Plain : Attribute → Prop
  | .leaf type _ => type.toNat < 2 ^ 14
  | .nest type children => type.toNat < 2 ^ 14 ∧ PlainAll children

def PlainAll : List Attribute → Prop
  | [] => True
  | first :: rest => Plain first ∧ PlainAll rest

end

theorem plainAll_iff (items : List Attribute) : PlainAll items ↔ ∀ item ∈ items, Plain item := by
  induction items with
  | nil => simp [PlainAll]
  | cons first rest ih => simp [PlainAll, ih]

theorem plainAll_append {front back : List Attribute} :
    PlainAll (front ++ back) ↔ PlainAll front ∧ PlainAll back := by
  simp only [plainAll_iff, List.mem_append, or_imp, forall_and]

theorem plainAll_toList {α : Type} {build : α → Attribute} (h : ∀ value, Plain (build value))
    (value? : Option α) : PlainAll (value?.map build).toList := by
  cases value? with
  | none => trivial
  | some value => exact ⟨h value, trivial⟩

theorem plainAll_ite {condition : Prop} [Decidable condition] {left right : List Attribute}
    (hleft : PlainAll left) (hright : PlainAll right) :
    PlainAll (if condition then left else right) := by
  split
  · exact hleft
  · exact hright

theorem plainAll_mapIdx {α : Type} {build : Nat → α → Attribute} {values : List α}
    (hlength : values.length ≤ 2 ^ 14)
    (h : ∀ value ∈ values, ∀ place < 2 ^ 14, Plain (build place value)) :
    PlainAll (values.mapIdx build) := by
  rw [plainAll_iff]
  intro item hmem
  obtain ⟨place, hplace, rfl⟩ := List.mem_mapIdx.mp hmem
  exact h _ (List.getElem_mem hplace) place (Nat.lt_of_lt_of_le hplace hlength)

mutual

theorem splits_encode_append (item : Attribute) (hplain : item.Plain) (hfits : item.Fits)
    {rest : Bytes} (hrest : Splits rest) : Splits (item.encode ++ rest) := by
  cases item with
  | leaf type payload => exact .leaf hplain hfits hrest
  | nest type children =>
      exact .nest hplain.1 hfits.2 (splits_encodeAll children hplain.2 hfits.1) hrest

theorem splits_encodeAll (items : List Attribute) (hplain : PlainAll items)
    (hfits : FitsAll items) : Splits (encodeAll items) := by
  cases items with
  | nil => exact .nil
  | cons first rest =>
      exact splits_encode_append first hplain.1 hfits.1 (splits_encodeAll rest hplain.2 hfits.2)

end

end Attribute

namespace Draft

open Attribute

variable {type flags : UInt16} {record : Bytes} {items : List Attribute}

/-- A finished frame is one message, as long as the frame, with the record and the attributes. -/
theorem ofDatagram_of_finish (hrecord : record.length % 4 = 0) {sequence port : UInt32}
    {frame : Bytes}
    (h : (((ofRecord type flags record items).setSequence sequence).setPort port).finish =
      .ok frame) :
    FitsAll items ∧ frame.length % 4 = 0 ∧ ∃ header : Header,
      header.length.toNat = frame.length ∧ header.type = type ∧ header.flags = flags ∧
      header.sequence = sequence ∧ header.port = port ∧
      Message.ofDatagram frame = [.ok ⟨header, record ++ encodeAll items⟩] := by
  have hwritable := (finish_eq_ok_iff _).mp ⟨frame, h⟩
  rw [setPort, setSequence, oversized_put, oversized_put, size_put, size_put, oversized_ofRecord,
    overflowAll?_eq_none_iff] at hwritable
  obtain ⟨hfits, hsize⟩ := hwritable
  rw [finish_numbered (contents_ofRecord type flags hrecord hfits)
    ((oversized_ofRecord type flags record items).trans ((overflowAll?_eq_none_iff items).mpr hfits))
    hsize] at h
  cases h
  have hitems := length_encodeAll_mod_four items
  rw [size_ofRecord type flags hrecord] at hsize ⊢
  have hpayload : (record ++ encodeAll items).length % 4 = 0 := by
    rw [List.length_append]
    omega
  let header : Header :=
    { length := UInt32.ofNat (Header.size + record.length + (encodeAll items).length)
      type, flags, sequence, port }
  have hframed : Message.Framed ⟨header, record ++ encodeAll items⟩ := by
    rw [Message.Framed, List.length_append, ← Nat.add_assoc, UInt32.toNat_ofNat']
    exact Nat.mod_eq_of_lt hsize
  have hlength : (header.bytes ++ (record ++ encodeAll items)).length =
      Header.size + (record ++ encodeAll items).length := by
    rw [List.length_append, Header.length_bytes]
  refine ⟨hfits, ?_, header, ?_, rfl, rfl, rfl, rfl,
    Message.ofDatagram_of_aligned hframed hpayload⟩
  · rw [hlength, Header.size]
    omega
  · rw [hlength]
    exact hframed

end Draft

end TunnelControl.Netlink
