import TunnelControl.Proofs.Netlink.CutDatagrams
import TunnelControl.Proofs.Netlink.WrittenAttributes

/-!
Taking attributes one after another. The reader that passes over what it cannot read and the one
that takes attributes until it fails find the same in any byte string. The second comes to the end
exactly if attributes in a row are all that there is, and none but the last lacks its padding.
-/

namespace TunnelControl

namespace Netlink.Attribute

def taken (data : Bytes) : List View :=
  (takeAll data).1.map (·.1)

/-- Nothing but attributes. Each has its padding; the last may lack it, and then lacks all of it. -/
inductive Row : Bytes → Prop
  | nil : Row []
  | unpadded (type : UInt16) (payload : Bytes)
      (fits : attributeHeader + payload.length ≤ attributeLimit) :
      Row ((heading type payload.length).bytes ++ payload)
  | cons (item : Written) {rest : Bytes} (row : Row rest) : Row (item.bytes ++ rest)

/-! What can be taken. -/

theorem Header.eq_append_of_take? {data rest : Bytes} {header : Header}
    (h : take? data = some (header, rest)) : data = header.bytes ++ rest := by
  simp only [take?, Option.bind_eq_bind, Option.bind_eq_some_iff, Option.pure_def,
    Option.some.injEq, Prod.mk.injEq] at h
  obtain ⟨⟨length, middle⟩, hlength, ⟨type, behind⟩, htype, rfl, rfl⟩ := h
  have hfirst := Bytes.width16.eq_append_of_read? hlength
  have hsecond := Bytes.width16.eq_append_of_read? htype
  dsimp only at hsecond ⊢
  rw [hfirst, hsecond, bytes, List.append_assoc]
  rfl

theorem Header.length_bytes (header : Header) : header.bytes.length = attributeHeader := by
  rw [bytes, List.length_append, Bytes.length_word16, Bytes.length_word16, attributeHeader]

theorem Header.take?_of_short {data : Bytes} (h : data.length < attributeHeader) :
    take? data = none := by
  cases htake : take? data with
  | none => rfl
  | some found =>
      have hlength := congrArg List.length (eq_append_of_take? htake)
      rw [List.length_append, length_bytes] at hlength
      omega

theorem heading_eq {header : Header} {size : Nat}
    (h : header.length.toNat = attributeHeader + size) : heading header.type size = header := by
  rw [heading, ← h, UInt16.ofNat_toNat]

theorem exists_heading_of_take {data rest : Bytes} {found : View}
    (h : take data = .ok (found, rest)) :
    ∃ (type : UInt16) (payload behind : Bytes),
      attributeHeader + payload.length ≤ attributeLimit ∧
        data = (heading type payload.length).bytes ++ (payload ++ behind) := by
  unfold take at h
  split at h
  · cases h
  · rename_i header after hheader
    obtain rfl := Header.eq_append_of_take? hheader
    split at h
    · cases h
    · split at h
      · cases h
      · rename_i hlong payload behind hpayload
        obtain ⟨rfl, hsize⟩ := Bytes.eq_append_of_cut? hpayload
        have hlength : header.length.toNat = attributeHeader + payload.length := by omega
        have hlimit := header.length.toNat_lt
        refine ⟨header.type, payload, behind, ?_, ?_⟩
        · unfold attributeLimit
          omega
        · rw [heading_eq hlength]

/-- An attribute is taken with its padding. Where not all of that is there, none of it is taken. -/
theorem take_eq_ok {data rest : Bytes} {found : View} (h : take data = .ok (found, rest)) :
    (∃ item : Written, found = item.view ∧ data = item.bytes ++ rest) ∨
      ∃ (type : UInt16) (payload : Bytes), attributeHeader + payload.length ≤ attributeLimit ∧
        (payload ++ rest).length < Bytes.align payload.length ∧
        found = ⟨type &&& typeMask, payload⟩ ∧
        data = (heading type payload.length).bytes ++ (payload ++ rest) := by
  obtain ⟨type, payload, behind, hfits, rfl⟩ := exists_heading_of_take h
  have hle := Bytes.le_align payload.length
  rw [take_heading type hfits] at h
  cases hfilling : Bytes.cut? (Bytes.align payload.length - payload.length) behind with
  | some parts =>
      obtain ⟨filling, later⟩ := parts
      obtain ⟨rfl, hfilled⟩ := Bytes.eq_append_of_cut? hfilling
      rw [hfilling, Option.map_some, Option.getD_some] at h
      cases h
      have hfilled' : (payload ++ filling).length = Bytes.align payload.length := by
        rw [List.length_append]
        omega
      exact .inl ⟨⟨type, payload, filling, hfits, hfilled'⟩, rfl, by
        simp only [Written.bytes, List.append_assoc]⟩
  | none =>
      have hshort := (Bytes.cut?_eq_none_iff _ _).mp hfilling
      rw [hfilling, Option.map_none, Option.getD_none] at h
      cases h
      refine .inr ⟨type, payload, hfits, ?_, rfl, rfl⟩
      rw [List.length_append]
      omega

theorem next?_eq_none_of_take {data : Bytes} {refusal : Refusal}
    (h : take data = .error refusal) : next? data = none := by
  unfold take at h
  rw [next?]
  cases hheader : Header.take? data with
  | none => rfl
  | some found =>
      obtain ⟨header, after⟩ := found
      rw [hheader] at h
      dsimp only at h
      rw [Option.bind_eq_bind, Option.bind_some]
      dsimp only
      by_cases hshort : header.length.toNat < attributeHeader
      · rw [if_pos hshort]
      · rw [if_neg hshort] at h ⊢
        cases hpayload : Bytes.cut? (header.length.toNat - attributeHeader) after with
        | none => rfl
        | some parts =>
            rw [hpayload] at h
            dsimp only at h
            split at h <;> cases h

theorem next?_unpadded (type : UInt16) {payload filling : Bytes}
    (hfits : attributeHeader + payload.length ≤ attributeLimit)
    (hshort : (payload ++ filling).length ≤ Bytes.align payload.length) :
    next? ((heading type payload.length).bytes ++ (payload ++ filling)) =
      some (⟨type &&& typeMask, payload⟩, []) := by
  rw [next?_heading type hfits, List.drop_eq_nil_of_le hshort]

theorem views_of_short {data : Bytes} (h : data.length < attributeHeader) : views data = [] := by
  rw [views_eq, next?, Header.take?_of_short h]
  rfl

/-- What is left where some of the padding is missing is too short for another attribute. -/
theorem length_lt_of_unpadded {payload rest : Bytes}
    (h : (payload ++ rest).length < Bytes.align payload.length) :
    rest.length < attributeHeader := by
  rw [List.length_append, Bytes.align] at h
  unfold attributeHeader
  omega

/-! Both readers. -/

theorem views_of_take {data rest : Bytes} {found : View} (h : take data = .ok (found, rest)) :
    views data = found :: views rest := by
  rcases take_eq_ok h with ⟨item, rfl, rfl⟩ | ⟨type, payload, hfits, hshort, rfl, rfl⟩
  · rw [views_eq, item.next?_bytes_append]
  · rw [views_eq, next?_unpadded type hfits (Nat.le_of_lt hshort),
      views_of_short (length_lt_of_unpadded hshort)]
    exact congrArg _ views_nil

theorem taken_eq_views (data : Bytes) : taken data = views data := by
  unfold taken
  fun_induction takeAll data with
  | case1 => exact views_nil.symm
  | case2 data hdata refusal htake =>
      rw [views_eq, next?_eq_none_of_take htake]
      rfl
  | case3 data hdata view rest htake _ later refusal hlater ih =>
      rw [hlater] at ih
      rw [List.map_cons, ih, views_of_take htake]

/-! Rows. -/

theorem take_unpadded (type : UInt16) {payload : Bytes}
    (hfits : attributeHeader + payload.length ≤ attributeLimit) :
    take ((heading type payload.length).bytes ++ payload) =
      .ok (⟨type &&& typeMask, payload⟩, []) := by
  have htake := take_heading type hfits []
  rw [List.append_nil] at htake
  rw [htake]
  cases hnothing : Bytes.cut? (Bytes.align payload.length - payload.length) [] with
  | none => rfl
  | some parts =>
      obtain ⟨hnil, -⟩ := Bytes.eq_append_of_cut? hnothing
      rw [Option.map_some, (List.append_eq_nil_iff.mp hnil.symm).2, Option.getD_some]

theorem row_flatMap_bytes (items : List Written) : Row (items.flatMap Written.bytes) := by
  induction items with
  | nil => exact .nil
  | cons item items ih => exact .cons item ih

theorem Row.eq_nil_of_short {data : Bytes} (h : Row data) (hshort : data.length < attributeHeader) :
    data = [] := by
  cases h with
  | nil => rfl
  | unpadded type payload fits =>
      rw [List.length_append, Header.length_bytes] at hshort
      omega
  | cons item row =>
      rw [Written.bytes, List.append_assoc, List.length_append, Header.length_bytes] at hshort
      omega

theorem Row.of_take {data rest : Bytes} {found : View} (h : take data = .ok (found, rest))
    (hrest : Row rest) : Row data := by
  rcases take_eq_ok h with ⟨item, -, rfl⟩ | ⟨type, payload, hfits, hshort, -, rfl⟩
  · exact .cons item hrest
  · rw [hrest.eq_nil_of_short (length_lt_of_unpadded hshort), List.append_nil]
    exact .unpadded type payload hfits

theorem Row.exists_take {data : Bytes} (h : Row data) (hdata : data ≠ []) :
    ∃ found rest, take data = .ok (found, rest) ∧ Row rest := by
  cases h with
  | nil => exact absurd rfl hdata
  | unpadded type payload fits => exact ⟨_, [], take_unpadded type fits, .nil⟩
  | cons item row => exact ⟨item.view, _, item.take_bytes_append _, row⟩

end Netlink.Attribute

end TunnelControl
