import Mathlib.Data.List.Induction
import TunnelControl.Link
import TunnelControl.Proofs.Netlink.AttributeTaking

namespace TunnelControl

open Netlink Netlink.Attribute

/-! The record in front. -/

namespace Netlink.LinkHeader

def indexIn (data : Bytes) : UInt32 :=
  UInt32.ofNat (Bytes.littleEndian ((data.drop 4).take 4))

theorem length_of_take? {data rest : Bytes} {header : LinkHeader}
    (h : take? data = some (header, rest)) : data.length = size + rest.length := by
  match data with
  | [] | [_] => cases h
  | _ :: _ :: data =>
      simp only [take?, Option.bind_eq_bind, Option.bind_eq_some_iff, Option.pure_def,
        Option.some.injEq, Prod.mk.injEq] at h
      obtain ⟨_, htype, _, hindex, _, hflags, _, hchange, -, rfl⟩ := h
      have h₁ := Bytes.width16.length_of_read? htype
      have h₂ := Bytes.width32.length_of_read? hindex
      have h₃ := Bytes.width32.length_of_read? hflags
      have h₄ := Bytes.width32.length_of_read? hchange
      rw [List.length_cons, List.length_cons, size]
      omega

theorem exists_take?_eq {data : Bytes} (h : size ≤ data.length) :
    ∃ header, take? data = some (header, data.drop size) ∧
      header.index.toUInt32 = indexIn data := by
  match data with
  | [] => cases h
  | [_] => cases Nat.le_of_succ_le_succ h
  | family :: _ :: data =>
      have hlength : 14 ≤ data.length := Nat.le_of_succ_le_succ (Nat.le_of_succ_le_succ h)
      let word (place : Nat) : UInt32 :=
        UInt32.ofNat (Bytes.littleEndian ((data.drop place).take 4))
      have hword : ∀ place, place + 4 ≤ 14 →
          Bytes.word32? (data.drop place) = some (word place, data.drop (place + 4)) := by
        intro place hplace
        have hcut : 4 ≤ (data.drop place).length := by
          rw [List.length_drop]
          omega
        rw [Bytes.word32?, Bytes.width32.read?_of_le hcut, List.drop_drop]
        rfl
      have htype : Bytes.word16? data =
          some (UInt16.ofNat (Bytes.littleEndian (data.take 2)), data.drop 2) :=
        Bytes.width16.read?_of_le (by omega)
      refine ⟨⟨family, UInt16.ofNat (Bytes.littleEndian (data.take 2)), (word 2).toInt32, word 6,
        word 10⟩, ?_, rfl⟩
      simp only [take?, htype, hword 2 (by omega), hword 6 (by omega), hword 10 (by omega),
        Option.bind_eq_bind, Option.bind_some, Option.pure_def]
      rfl

end Netlink.LinkHeader

/-! The attributes behind it. -/

namespace Netlink.Attribute

/-- The last of the attributes that has this type. -/
def last? (type : UInt16) (found : List View) : Option View :=
  (found.filter (·.type = type)).getLast?

theorem last?_append_singleton (type : UInt16) (found : List View) (view : View) :
    last? type (found ++ [view]) = if view.type = type then some view else last? type found := by
  rw [last?, List.filter_append, List.filter_cons, List.filter_nil]
  by_cases htype : view.type = type
  · rw [if_pos htype, if_pos (decide_eq_true htype), List.getLast?_concat]
  · rw [if_neg htype, if_neg fun heq => htype (of_decide_eq_true heq), List.append_nil, last?]

/-- What only attributes of one type set is as the last of them sets it. -/
theorem part_foldl {σ α : Type} {absorb : σ → View → σ} {part : σ → α} {type : UInt16}
    {set : View → α}
    (hset : ∀ state view,
      part (absorb state view) = if view.type = type then set view else part state)
    (state : σ) (found : List View) :
    part (found.foldl absorb state) = (last? type found).elim (part state) set := by
  induction found using List.reverseRecOn with
  | nil => rfl
  | append_singleton found view ih =>
      rw [List.foldl_append, List.foldl_cons, List.foldl_nil, hset, last?_append_singleton]
      split
      · rfl
      · exact ih

end Netlink.Attribute

namespace Link

def described (payload : Bytes) : Link :=
  let found := views (payload.drop LinkHeader.size)
  { index := LinkHeader.indexIn payload
    name := (last? nameAttribute found).bind fun view => (Payload.text view.payload).toOption
    kind := (last? infoAttribute found).bind fun view => kindOf view.payload }

theorem index_foldl_absorb (link : Link) (views : List View) :
    (views.foldl absorb link).index = link.index := by
  induction views generalizing link with
  | nil => rfl
  | cons view views ih =>
      rw [List.foldl_cons, ih, absorb]
      split
      · rfl
      · split <;> rfl

theorem name_absorb (link : Link) (view : View) :
    (link.absorb view).name =
      if view.type = nameAttribute then (Payload.text view.payload).toOption else link.name := by
  unfold absorb
  split
  · rfl
  · split <;> rfl

theorem kind_absorb (link : Link) (view : View) :
    (link.absorb view).kind =
      if view.type = infoAttribute then kindOf view.payload else link.kind := by
  have hne : infoAttribute ≠ nameAttribute := by decide
  unfold absorb
  split
  · rename_i hname
    rw [if_neg fun hinfo => hne (hinfo.symm.trans hname)]
  · split <;> rfl

theorem foldl_absorb_views (payload : Bytes) :
    (views (payload.drop LinkHeader.size)).foldl absorb
      { index := LinkHeader.indexIn payload } = described payload := by
  let start : Link := { index := LinkHeader.indexIn payload }
  let found := views (payload.drop LinkHeader.size)
  have hbind : ∀ {α : Type} (view : Option View) (set : View → Option α),
      view.elim none set = view.bind set := by
    intro α view set
    cases view <;> rfl
  calc
    found.foldl absorb start = ⟨(found.foldl absorb start).index,
        (found.foldl absorb start).name, (found.foldl absorb start).kind⟩ := rfl
    _ = described payload := by
      rw [index_foldl_absorb, part_foldl name_absorb, part_foldl kind_absorb, hbind, hbind]
      rfl

/-- Attributes are absorbed to the last byte exactly if nothing else is there. -/
theorem absorbAll_eq_some_iff (link result : Link) (data : Bytes) :
    absorbAll link data = some result ↔ Row data ∧ (views data).foldl absorb link = result := by
  fun_induction absorbAll link data with
  | case1 link =>
      rw [views_nil, List.foldl_nil, Option.some_inj]
      exact ⟨fun h => ⟨.nil, h⟩, And.right⟩
  | case2 link data hdata refusal htake =>
      refine ⟨nofun, fun ⟨hrow, _⟩ => ?_⟩
      obtain ⟨view, rest, htaken, -⟩ := hrow.exists_take hdata
      rw [htake] at htaken
      cases htaken
  | case3 link data hdata view rest htake _ ih =>
      rw [ih, views_of_take htake, List.foldl_cons]
      refine and_congr_left fun _ => ⟨fun hrest => hrest.of_take htake, fun hrow => ?_⟩
      obtain ⟨view', rest', htaken, hrest⟩ := hrow.exists_take hdata
      rw [htake] at htaken
      cases htaken
      exact hrest

theorem ofPayload_eq_ok_iff (payload : Bytes) (link : Link) :
    ofPayload payload = .ok link ↔ ∃ header rest, LinkHeader.take? payload = some (header, rest) ∧
      absorbAll { index := header.index.toUInt32 } rest = some link := by
  rw [ofPayload]
  split
  · rename_i found hfound
    rw [Except.ok.injEq, ← Option.some_inj, ← hfound, Option.bind_eq_bind,
      Option.bind_eq_some_iff, Prod.exists]
  · rename_i hnone
    refine ⟨nofun, ?_⟩
    rintro ⟨header, rest, htake, habsorb⟩
    rw [htake, Option.bind_eq_bind, Option.bind_some] at hnone
    exact absurd (hnone.symm.trans habsorb) nofun

/-- The two readers of attributes find the same in any bytes. A payload describes a link if and
only if it has room for the record and behind it nothing but attributes, of which the last may lack
its padding; the last name and the last information among them are those of the link. -/
theorem attribute_readers_agree :
    (∀ data, taken data = views data) ∧
      ∀ payload link, ofPayload payload = .ok link ↔
        LinkHeader.size ≤ payload.length ∧ Row (payload.drop LinkHeader.size) ∧
          link = described payload := by
  refine ⟨taken_eq_views, fun payload link => ?_⟩
  rw [ofPayload_eq_ok_iff]
  constructor
  · rintro ⟨header, rest, htake, habsorb⟩
    have hlength := LinkHeader.length_of_take? htake
    have hsize : LinkHeader.size ≤ payload.length := by omega
    obtain ⟨header', htake', hindex⟩ := LinkHeader.exists_take?_eq hsize
    rw [htake] at htake'
    cases htake'
    rw [hindex, absorbAll_eq_some_iff, foldl_absorb_views] at habsorb
    exact ⟨hsize, habsorb.1, habsorb.2.symm⟩
  · rintro ⟨hsize, hrow, rfl⟩
    obtain ⟨header, htake, hindex⟩ := LinkHeader.exists_take?_eq hsize
    refine ⟨header, _, htake, ?_⟩
    rw [hindex, absorbAll_eq_some_iff]
    exact ⟨hrow, foldl_absorb_views payload⟩

end Link

end TunnelControl
