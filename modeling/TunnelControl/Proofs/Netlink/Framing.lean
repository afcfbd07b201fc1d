import TunnelControl.Netlink.Draft
import TunnelControl.Proofs.Netlink.AttributeReading

/-!
What a draft holds after trees of attributes were added to it, and when it can be finished. A
draft whose parts end on multiples of four grows by exactly the encoding of what is added, as long
as every length can be stated; otherwise it remembers the first length that cannot.
-/

namespace TunnelControl.Netlink

namespace Attribute

/-- The length, if it cannot be stated. -/
def excess? (length : Nat) : Option Nat :=
  if length ≤ attributeLimit then none else some length

mutual

def overflow? : Attribute → Option Nat
  | .leaf _ payload => excess? (attributeHeader + payload.length)
  | .nest _ children =>
      overflowAll? children <|> excess? (attributeHeader + (encodeAll children).length)

def overflowAll? : List Attribute → Option Nat
  | [] => none
  | first :: rest => overflow? first <|> overflowAll? rest

end

theorem excess?_eq_none_iff (length : Nat) : excess? length = none ↔ length ≤ attributeLimit := by
  unfold excess?
  split <;> simp_all

private theorem orElse_eq_none_iff {first second : Option Nat} :
    (first <|> second) = none ↔ first = none ∧ second = none := by
  cases first <;> simp

mutual

theorem overflow?_eq_none_iff (item : Attribute) : overflow? item = none ↔ item.Fits := by
  cases item with
  | leaf type payload => exact excess?_eq_none_iff _
  | nest type children =>
      rw [overflow?, orElse_eq_none_iff, overflowAll?_eq_none_iff children, excess?_eq_none_iff,
        Fits]

theorem overflowAll?_eq_none_iff (items : List Attribute) :
    overflowAll? items = none ↔ FitsAll items := by
  cases items with
  | nil => simp [overflowAll?, FitsAll]
  | cons first rest =>
      rw [overflowAll?, orElse_eq_none_iff, overflow?_eq_none_iff first,
        overflowAll?_eq_none_iff rest, FitsAll]

end

instance (item : Attribute) : Decidable item.Fits :=
  decidable_of_iff _ (overflow?_eq_none_iff item)

instance (items : List Attribute) : Decidable (FitsAll items) :=
  decidable_of_iff _ (overflowAll?_eq_none_iff items)

end Attribute

namespace Draft

def contents (draft : Draft) : Bytes :=
  draft.buffer.toList

/-- Everything added so far ends on a multiple of four. -/
def Aligned (draft : Draft) : Prop :=
  draft.size % 4 = 0

@[simp] theorem length_contents (draft : Draft) : draft.contents.length = draft.size :=
  Array.length_toList

/-! Writing over what is there. -/

theorem size_overwrite (buffer : Array UInt8) (offset : Nat) (data : Bytes) :
    (overwrite buffer offset data).size = buffer.size := by
  induction data generalizing buffer offset with
  | nil => rfl
  | cons byte data ih => rw [overwrite, ih, Array.size_setIfInBounds]

theorem toList_overwrite {buffer : Array UInt8} {front old data back : Bytes}
    (hbuffer : buffer.toList = front ++ (old ++ back)) (hlength : old.length = data.length) :
    (overwrite buffer front.length data).toList = front ++ (data ++ back) := by
  induction data generalizing buffer front old with
  | nil =>
      rw [List.length_nil, List.length_eq_zero_iff] at hlength
      rw [overwrite, hbuffer, hlength]
  | cons byte data ih =>
      cases old with
      | nil => cases hlength
      | cons first old =>
          have hset : (buffer.setIfInBounds front.length byte).toList =
              (front ++ [byte]) ++ (old ++ back) := by
            rw [Array.toList_setIfInBounds, hbuffer, List.set_append_right _ _ (Nat.le_refl _)]
            simp
          have hstep := ih hset (Nat.succ.inj hlength)
          rw [List.length_append, List.length_singleton] at hstep
          rw [overwrite, hstep, List.append_assoc]
          rfl

@[simp] theorem size_put (draft : Draft) (offset : Nat) (data : Bytes) :
    (draft.put offset data).size = draft.size :=
  size_overwrite _ _ _

@[simp] theorem oversized_put (draft : Draft) (offset : Nat) (data : Bytes) :
    (draft.put offset data).oversized = draft.oversized := rfl

theorem contents_put {draft : Draft} {front old data back : Bytes}
    (hcontents : draft.contents = front ++ (old ++ back)) (hlength : old.length = data.length) :
    (draft.put front.length data).contents = front ++ (data ++ back) :=
  toList_overwrite hcontents hlength

/-! Adding bytes. -/

@[simp] theorem oversized_append (draft : Draft) (data : Bytes) :
    (draft.append data).oversized = draft.oversized := rfl

theorem contents_append {draft : Draft} (haligned : draft.Aligned) (data : Bytes) :
    (draft.append data).contents = draft.contents ++ Bytes.padded data := by
  have hpadding : Bytes.padding (draft.size + data.length) = Bytes.padding data.length := by
    unfold Aligned at haligned
    unfold Bytes.padding Bytes.align
    congr 1
    omega
  have hsize : (draft.buffer ++ data).size = draft.size + data.length := by
    rw [← Array.length_toList, Array.toList_appendList, List.length_append, Array.length_toList]
    rfl
  simp only [append, contents, Bytes.padded, Array.toList_appendList, hsize, hpadding,
    List.append_assoc]

theorem size_append {draft : Draft} (haligned : draft.Aligned) (data : Bytes) :
    (draft.append data).size = draft.size + Bytes.align data.length := by
  rw [← length_contents, contents_append haligned, List.length_append, length_contents,
    Bytes.length_padded]

theorem aligned_append {draft : Draft} (haligned : draft.Aligned) (data : Bytes) :
    (draft.append data).Aligned := by
  have hdata := Bytes.align_mod_four data.length
  unfold Aligned at haligned ⊢
  rw [size_append haligned]
  omega

@[simp] theorem contents_noteLength (draft : Draft) (length : Nat) :
    (draft.noteLength length).contents = draft.contents := by
  unfold noteLength
  split <;> rfl

@[simp] theorem size_noteLength (draft : Draft) (length : Nat) :
    (draft.noteLength length).size = draft.size := by
  rw [← length_contents, contents_noteLength, length_contents]

theorem oversized_noteLength (draft : Draft) (length : Nat) :
    (draft.noteLength length).oversized = (draft.oversized <|> Attribute.excess? length) := by
  unfold noteLength Attribute.excess?
  split
  · cases draft.oversized <;> rfl
  · rfl

/-! Adding one attribute with a finished payload. -/

theorem stated_of_le {length : Nat} (h : length ≤ attributeLimit) :
    stated length = UInt16.ofNat length :=
  if_pos h

theorem size_leaf {draft : Draft} (haligned : draft.Aligned) (type : UInt16) (payload : Bytes) :
    (draft.leaf type payload).size =
      draft.size + Bytes.align (attributeHeader + payload.length) := by
  have hnoted : (draft.noteLength (attributeHeader + payload.length)).Aligned := by
    unfold Aligned at haligned ⊢
    rwa [size_noteLength]
  rw [leaf, size_append hnoted, size_noteLength]
  simp only [Attribute.Header.bytes, List.length_append, Bytes.length_word16]
  rfl

theorem contents_leaf {draft : Draft} (haligned : draft.Aligned) (type : UInt16)
    {payload : Bytes} (hfits : attributeHeader + payload.length ≤ attributeLimit) :
    (draft.leaf type payload).contents = draft.contents ++ Attribute.frame type payload := by
  have hnoted : (draft.noteLength (attributeHeader + payload.length)).Aligned := by
    unfold Aligned at haligned ⊢
    rwa [size_noteLength]
  rw [leaf, contents_append hnoted, contents_noteLength, stated_of_le hfits]
  rfl

/-! Opening and closing a nest. -/

def opening (type : UInt16) : Bytes :=
  Attribute.Header.bytes ⟨UInt16.ofNat attributeHeader, type ||| nestedFlag⟩

theorem contents_openNest (draft : Draft) (type : UInt16) :
    (draft.openNest type).1.contents = draft.contents ++ opening type := by
  simp [openNest, contents, opening]

theorem size_openNest (draft : Draft) (type : UInt16) :
    (draft.openNest type).1.size = draft.size + attributeHeader := by
  rw [← length_contents, contents_openNest, List.length_append, length_contents]
  simp [opening, Attribute.Header.bytes, attributeHeader]

theorem aligned_openNest {draft : Draft} (haligned : draft.Aligned) (type : UInt16) :
    (draft.openNest type).1.Aligned := by
  unfold Aligned at haligned ⊢
  rw [size_openNest, attributeHeader]
  omega

theorem size_closeNest {draft : Draft} (haligned : draft.Aligned) (mark : Mark) :
    (draft.closeNest mark).size = draft.size := by
  have hput : ∀ data, ((draft.noteLength (draft.size - mark.offset)).put mark.offset data).Aligned := by
    intro data
    unfold Aligned at haligned ⊢
    rwa [size_put, size_noteLength]
  rw [closeNest, size_append (hput _), size_put, size_noteLength]
  rfl

theorem oversized_closeNest (draft : Draft) (mark : Mark) :
    (draft.closeNest mark).oversized =
      (draft.oversized <|> Attribute.excess? (draft.size - mark.offset)) := by
  rw [closeNest, oversized_append, oversized_put, oversized_noteLength]

theorem contents_closeNest {draft : Draft} (haligned : draft.Aligned) {front body : Bytes}
    {type : UInt16} (hcontents : draft.contents = front ++ (opening type ++ body))
    (hbody : body.length % 4 = 0) (hfits : attributeHeader + body.length ≤ attributeLimit) :
    (draft.closeNest ⟨front.length⟩).contents =
      front ++ Attribute.frame (type ||| nestedFlag) body := by
  have hsize : draft.size - front.length = attributeHeader + body.length := by
    rw [← length_contents, hcontents]
    simp [opening, Attribute.Header.bytes, attributeHeader]
    omega
  have hnoted : (draft.noteLength (attributeHeader + body.length)).contents =
      front ++ (Bytes.word16 (UInt16.ofNat attributeHeader) ++
        (Bytes.word16 (type ||| nestedFlag) ++ body)) := by
    rw [contents_noteLength, hcontents, opening, Attribute.Header.bytes, List.append_assoc]
  have hstated : ([0, 0] : Bytes).length =
      (Bytes.word16 (stated (attributeHeader + body.length))).length := by
    rw [Bytes.length_word16]
    rfl
  have hput := contents_put hnoted hstated
  have hkept : ((draft.noteLength (attributeHeader + body.length)).put front.length
      (Bytes.word16 (stated (attributeHeader + body.length)))).Aligned := by
    unfold Aligned at haligned ⊢
    rwa [size_put, size_noteLength]
  rw [closeNest, hsize, contents_append hkept, hput, stated_of_le hfits,
    Attribute.frame_eq_append, Bytes.padded_of_mod_four hbody]
  exact List.append_nil _

/-! Adding trees. -/

mutual

theorem size_add (draft : Draft) (haligned : draft.Aligned) (item : Attribute) :
    (draft.add item).size = draft.size + item.encode.length := by
  cases item with
  | leaf type payload => rw [add, size_leaf haligned, Attribute.length_encode_leaf]
  | nest type children =>
      have hopened := aligned_openNest haligned type
      have hchildren := size_addAll (draft.openNest type).1 hopened children
      have haligned' : (addAll (draft.openNest type).1 children).Aligned := by
        have hencoded := Attribute.length_encodeAll_mod_four children
        unfold Aligned at hopened ⊢
        omega
      rw [add]
      dsimp only
      rw [size_closeNest haligned', hchildren, size_openNest, Attribute.length_encode_nest]
      omega

theorem size_addAll (draft : Draft) (haligned : draft.Aligned) (items : List Attribute) :
    (draft.addAll items).size = draft.size + (Attribute.encodeAll items).length := by
  cases items with
  | nil => rfl
  | cons first rest =>
      have hfirst := size_add draft haligned first
      have haligned' : (draft.add first).Aligned := by
        have hencoded := Attribute.length_encode_mod_four first
        unfold Aligned at haligned ⊢
        omega
      rw [addAll, size_addAll (draft.add first) haligned' rest, hfirst, Attribute.encodeAll,
        List.length_append]
      omega

end

theorem aligned_add {draft : Draft} (haligned : draft.Aligned) (item : Attribute) :
    (draft.add item).Aligned := by
  have hencoded := Attribute.length_encode_mod_four item
  unfold Aligned at haligned ⊢
  rw [size_add draft haligned]
  omega

theorem aligned_addAll {draft : Draft} (haligned : draft.Aligned) (items : List Attribute) :
    (draft.addAll items).Aligned := by
  have hencoded := Attribute.length_encodeAll_mod_four items
  unfold Aligned at haligned ⊢
  rw [size_addAll draft haligned]
  omega

mutual

/-- The length that cannot be stated is remembered, unless one is remembered already. -/
theorem oversized_add (draft : Draft) (haligned : draft.Aligned) (item : Attribute) :
    (draft.add item).oversized = (draft.oversized <|> item.overflow?) := by
  cases item with
  | leaf type payload => rw [add, leaf, oversized_append, oversized_noteLength, Attribute.overflow?]
  | nest type children =>
      have hopened := aligned_openNest haligned type
      have hsize : (addAll (draft.openNest type).1 children).size - draft.size =
          attributeHeader + (Attribute.encodeAll children).length := by
        rw [size_addAll _ hopened, size_openNest]
        omega
      rw [add]
      dsimp only
      rw [oversized_closeNest, oversized_addAll _ hopened children, Attribute.overflow?]
      show ((draft.oversized <|> _) <|> Attribute.excess? (_ - draft.size)) = _
      rw [hsize]
      cases draft.oversized <;> rfl

theorem oversized_addAll (draft : Draft) (haligned : draft.Aligned) (items : List Attribute) :
    (draft.addAll items).oversized = (draft.oversized <|> Attribute.overflowAll? items) := by
  cases items with
  | nil =>
      rw [addAll, Attribute.overflowAll?]
      cases draft.oversized <;> rfl
  | cons first rest =>
      rw [addAll, oversized_addAll _ (aligned_add haligned first) rest,
        oversized_add draft haligned first, Attribute.overflowAll?]
      cases draft.oversized <;> rfl

end

mutual

theorem contents_add (draft : Draft) (haligned : draft.Aligned) (item : Attribute)
    (hfits : item.Fits) :
    (draft.add item).contents = draft.contents ++ item.encode := by
  cases item with
  | leaf type payload => rw [add, contents_leaf haligned type hfits, Attribute.encode]
  | nest type children =>
      have hopened := aligned_openNest haligned type
      have hcontents : (addAll (draft.openNest type).1 children).contents =
          draft.contents ++ (opening type ++ Attribute.encodeAll children) := by
        rw [contents_addAll _ hopened children hfits.1, contents_openNest, List.append_assoc]
      have hclosed := contents_closeNest (aligned_addAll hopened children) hcontents
        (Attribute.length_encodeAll_mod_four children) hfits.2
      rw [length_contents] at hclosed
      rw [add, Attribute.encode]
      exact hclosed

theorem contents_addAll (draft : Draft) (haligned : draft.Aligned) (items : List Attribute)
    (hfits : Attribute.FitsAll items) :
    (draft.addAll items).contents = draft.contents ++ Attribute.encodeAll items := by
  cases items with
  | nil => rw [addAll, Attribute.encodeAll, List.append_nil]
  | cons first rest =>
      obtain ⟨hfirst, hrest⟩ := hfits
      rw [addAll, contents_addAll _ (aligned_add haligned first) rest hrest,
        contents_add draft haligned first hfirst, Attribute.encodeAll, List.append_assoc]

end

/-! Finishing. -/

/-- A draft can be finished unless a length in it or its own cannot be stated. -/
theorem finish_eq_ok_iff (draft : Draft) :
    (∃ frame, draft.finish = .ok frame) ↔ draft.oversized = none ∧ draft.size < UInt32.size := by
  unfold finish
  cases draft.oversized with
  | some length => simp
  | none =>
      dsimp only
      split <;> simp_all

theorem finish_of_oversized {draft : Draft} {length : Nat} (h : draft.oversized = some length) :
    draft.finish = .error (.invalidAttribute (.oversized length)) := by
  simp only [finish, h]

/-- Finishing changes nothing but the length in front. -/
theorem finish_of_contents {draft : Draft} {length back : Bytes}
    (hcontents : draft.contents = length ++ back) (hlength : length.length = 4)
    (hoversized : draft.oversized = none) (hsize : draft.size < UInt32.size) :
    draft.finish = .ok (Bytes.word32 (UInt32.ofNat draft.size) ++ back) := by
  have hsplit : draft.contents = [] ++ (length ++ back) := hcontents
  have hlengths : length.length = (Bytes.word32 (UInt32.ofNat draft.size)).length := by
    rw [hlength, Bytes.length_word32]
  have hput := contents_put hsplit hlengths
  simp only [finish, hoversized, if_pos hsize]
  exact congrArg Except.ok hput

end Draft

end TunnelControl.Netlink
