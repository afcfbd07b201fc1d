import TunnelControl.Netlink.Family
import TunnelControl.Proofs.Netlink.Framing

namespace TunnelControl.Netlink

open Attribute

namespace Draft

variable (type flags : UInt16)

theorem contents_start : (start type flags).contents = Header.bytes ⟨16, type, flags, 0, 0⟩ := by
  simp [start, contents]

theorem size_start : (start type flags).size = Header.size := by
  rw [← length_contents, contents_start, Header.length_bytes]

theorem aligned_start : (start type flags).Aligned := by
  rw [Aligned, size_start]
  rfl

def ofRecord (record : Bytes) (items : List Attribute) : Draft :=
  ((start type flags).append record).addAll items

variable {record : Bytes} {items : List Attribute}

theorem contents_ofRecord (hrecord : record.length % 4 = 0) (hfits : FitsAll items) :
    (ofRecord type flags record items).contents =
      Header.bytes ⟨16, type, flags, 0, 0⟩ ++ (record ++ encodeAll items) := by
  have haligned := aligned_start type flags
  rw [ofRecord, contents_addAll _ (aligned_append haligned _) _ hfits, contents_append haligned,
    contents_start, Bytes.padded_of_mod_four hrecord, List.append_assoc]

theorem size_ofRecord (hrecord : record.length % 4 = 0) :
    (ofRecord type flags record items).size =
      Header.size + record.length + (encodeAll items).length := by
  have haligned := aligned_start type flags
  rw [ofRecord, size_addAll _ (aligned_append haligned _), size_append haligned, size_start,
    Bytes.align_of_mod_four hrecord]

theorem size_header_le_ofRecord (hrecord : record.length % 4 = 0) :
    Header.size ≤ (ofRecord type flags record items).size := by
  rw [size_ofRecord type flags hrecord, Nat.add_assoc]
  exact Nat.le_add_right _ _

variable (record items) in
theorem oversized_ofRecord : (ofRecord type flags record items).oversized = overflowAll? items := by
  have haligned := aligned_start type flags
  rw [ofRecord, oversized_addAll _ (aligned_append haligned _), oversized_append]
  rfl

end Draft

theorem CommandHeader.length_bytes_mod_four (header : CommandHeader) :
    header.bytes.length % 4 = 0 := by
  rw [length_bytes]
  rfl

namespace Socket

variable (type flags : UInt16) (command version : UInt8)

theorem contents_commanded {items : List Attribute} (hfits : FitsAll items) :
    (commanded (.start type flags) command version items).contents =
      Header.bytes ⟨16, type, flags, 0, 0⟩ ++
        (CommandHeader.bytes ⟨command, version, 0⟩ ++ encodeAll items) :=
  Draft.contents_ofRecord type flags (CommandHeader.length_bytes_mod_four _) hfits

theorem size_commanded (items : List Attribute) :
    (commanded (.start type flags) command version items).size =
      Header.size + CommandHeader.size + (encodeAll items).length := by
  have hsize := @Draft.size_ofRecord type flags _ items
    (CommandHeader.length_bytes_mod_four ⟨command, version, 0⟩)
  rwa [CommandHeader.length_bytes] at hsize

theorem oversized_commanded (items : List Attribute) :
    (commanded (.start type flags) command version items).oversized = overflowAll? items :=
  Draft.oversized_ofRecord type flags _ items

/-- A request can be finished exactly if each length in it, and its own, can be stated. -/
theorem finish_commanded_eq_ok_iff (items : List Attribute) :
    (∃ frame, (commanded (.start type flags) command version items).finish = .ok frame) ↔
      FitsAll items ∧
        Header.size + CommandHeader.size + (encodeAll items).length < UInt32.size := by
  rw [Draft.finish_eq_ok_iff, oversized_commanded, size_commanded, overflowAll?_eq_none_iff]

/-- Behind the header of a finished request stand the command's record and the attributes. -/
theorem finish_commanded {items : List Attribute} (hfits : FitsAll items)
    (hsize : Header.size + CommandHeader.size + (encodeAll items).length < UInt32.size) :
    ∃ frame, (commanded (.start type flags) command version items).finish = .ok frame ∧
      frame.drop Header.size =
        CommandHeader.bytes ⟨command, version, 0⟩ ++ encodeAll items := by
  have hcontents := contents_commanded type flags command version hfits
  rw [Header.bytes, List.append_assoc] at hcontents
  have hfinish := Draft.finish_of_contents hcontents (Bytes.length_word32 _)
    (by rw [oversized_commanded, overflowAll?_eq_none_iff]; exact hfits)
    (by rw [size_commanded]; exact hsize)
  refine ⟨_, hfinish, ?_⟩
  rw [← List.append_assoc]
  exact List.drop_left' (by simp [Header.size])

end Socket

end TunnelControl.Netlink
