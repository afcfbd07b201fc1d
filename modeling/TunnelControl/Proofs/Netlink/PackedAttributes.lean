import TunnelControl.Proofs.Netlink.AttributeTaking
import TunnelControl.Proofs.Netlink.PackedMessages

namespace TunnelControl.Netlink.Attribute

theorem Header.exists_bytes_append {data : Bytes} (h : attributeHeader ≤ data.length) :
    ∃ header : Header, data = header.bytes ++ data.drop attributeHeader := by
  unfold attributeHeader at h ⊢
  have hlength := Bytes.width16.eq_write_append (show 2 ≤ data.length by omega)
  have htype := Bytes.width16.eq_write_append
    (show 2 ≤ (data.drop 2).length by rw [List.length_drop]; omega)
  rw [List.drop_drop] at htype
  refine ⟨⟨UInt16.ofNat (Bytes.littleEndian (data.take 2)),
    UInt16.ofNat (Bytes.littleEndian ((data.drop 2).take 2))⟩, ?_⟩
  rw [bytes, List.append_assoc]
  exact hlength.trans (congrArg _ htype)

/-! Where reading stops. -/

def WrongLength (header : Header) (behind : Nat) : Prop :=
  header.length.toNat < attributeHeader ∨ attributeHeader + behind < header.length.toNat

/-- No attribute begins the data: it is too short for a header, or the length in the header is
wrong. -/
inductive Stops : Bytes → Prop
  | short {data : Bytes} (hshort : data.length < attributeHeader) : Stops data
  | wrong {header : Header} {rest : Bytes} (hwrong : WrongLength header rest.length) :
      Stops (header.bytes ++ rest)

theorem views_of_stops {data : Bytes} (h : Stops data) : views data = [] := by
  cases h with
  | short hshort => exact views_of_short hshort
  | @wrong header rest hwrong =>
      have hnone : next? (header.bytes ++ rest) = none := by
        rw [next?, Header.take?_bytes_append, Option.bind_eq_bind, Option.bind_some]
        dsimp only
        rcases hwrong with hsmall | hlarge
        · rw [if_pos hsmall]
        · have hcut : Bytes.cut? (header.length.toNat - attributeHeader) rest = none :=
            (Bytes.cut?_eq_none_iff _ _).mpr (by omega)
          rw [if_neg (by omega), hcut]
          rfl
      rw [views_eq, hnone]

/-- Where reading does not stop, the payload of an attribute is all there. -/
theorem stops_or_begins (data : Bytes) :
    Stops data ∨ ∃ (type : UInt16) (payload behind : Bytes),
      attributeHeader + payload.length ≤ attributeLimit ∧
        data = (heading type payload.length).bytes ++ (payload ++ behind) := by
  rcases Nat.lt_or_ge data.length attributeHeader with hshort | hlong
  · exact .inl (.short hshort)
  obtain ⟨header, hdata⟩ := Header.exists_bytes_append hlong
  generalize data.drop attributeHeader = rest at hdata
  subst hdata
  by_cases hwrong : WrongLength header rest.length
  · exact .inl (.wrong hwrong)
  · obtain ⟨hsmall, hlarge⟩ := not_or.mp hwrong
    have hlimit := header.length.toNat_lt
    have hsize : (rest.take (header.length.toNat - attributeHeader)).length =
        header.length.toNat - attributeHeader := List.length_take_of_le (by omega)
    refine .inr ⟨header.type, rest.take (header.length.toNat - attributeHeader),
      rest.drop (header.length.toNat - attributeHeader), ?_, ?_⟩
    · unfold attributeLimit
      omega
    · rw [heading_eq (by omega), List.take_append_drop]

/-! What is read of any bytes. -/

/-- Attributes and what may follow them, as a reader goes through the bytes. -/
inductive Reads : Bytes → List View → Prop
  | stopped {data : Bytes} (hstops : Stops data) : Reads data []
  | unpadded {type : UInt16} {payload gap : Bytes}
      (hfits : attributeHeader + payload.length ≤ attributeLimit)
      (hgap : (payload ++ gap).length < Bytes.align payload.length) :
      Reads ((heading type payload.length).bytes ++ (payload ++ gap))
        [⟨type &&& typeMask, payload⟩]
  | written (item : Written) {rest : Bytes} {later : List View} (hrest : Reads rest later) :
      Reads (item.bytes ++ rest) (item.view :: later)

theorem Reads.eq_views {data : Bytes} {found : List View} (h : Reads data found) :
    views data = found := by
  induction h with
  | stopped hstops => exact views_of_stops hstops
  | unpadded hfits hgap =>
      rw [views_eq, next?_unpadded _ hfits (Nat.le_of_lt hgap)]
      exact congrArg _ views_nil
  | written item hrest ih => rw [item.views_bytes_append, ih]

theorem reads_heading (type : UInt16) {payload tail : Bytes} {later : List View}
    (hfits : attributeHeader + payload.length ≤ attributeLimit)
    (hlater : Reads (tail.drop (Bytes.align payload.length - payload.length)) later) :
    Reads ((heading type payload.length).bytes ++ (payload ++ tail))
      (⟨type &&& typeMask, payload⟩ :: later) := by
  have hle := Bytes.le_align payload.length
  generalize hgap : Bytes.align payload.length - payload.length = gap at hlater
  rcases Nat.lt_or_ge tail.length gap with hshort | hlong
  · have hnil : tail.drop gap = [] := List.drop_eq_nil_of_le (Nat.le_of_lt hshort)
    have hlater' := hlater.eq_views
    rw [hnil, views_nil] at hlater'
    subst hlater'
    apply Reads.unpadded hfits
    rw [List.length_append]
    omega
  · have hfilled : (payload ++ tail.take gap).length = Bytes.align payload.length := by
      rw [List.length_append, List.length_take_of_le hlong]
      omega
    have hwritten := Reads.written ⟨type, payload, tail.take gap, hfits, hfilled⟩ hlater
    rwa [Written.bytes, List.append_assoc, List.append_assoc, List.take_append_drop] at hwritten

theorem reads_views (data : Bytes) : Reads data (views data) := by
  fun_induction views data with
  | case1 data hnone =>
      rcases stops_or_begins data with hstops | ⟨type, payload, behind, hfits, rfl⟩
      · exact .stopped hstops
      · rw [next?_heading type hfits] at hnone
        cases hnone
  | case2 data view rest hnext _ ih =>
      rcases stops_or_begins data with hstops | ⟨type, payload, behind, hfits, rfl⟩
      · have hnil := views_of_stops hstops
        rw [views_eq, hnext] at hnil
        cases hnil
      · rw [next?_heading type hfits] at hnext
        cases hnext
        have hgap : Bytes.align payload.length =
            payload.length + (Bytes.align payload.length - payload.length) := by
          have hle := Bytes.le_align payload.length
          omega
        rw [hgap, ← List.drop_drop, List.drop_left] at ih ⊢
        exact reads_heading type hfits ih

theorem Written.length_bytes (item : Written) :
    item.bytes.length = attributeHeader + Bytes.align item.payload.length := by
  rw [bytes, List.length_append, Header.length_bytes, item.filled]

theorem Reads.length_le {data : Bytes} {found : List View} (h : Reads data found) :
    attributeHeader * found.length ≤ data.length := by
  induction h with
  | stopped => exact Nat.zero_le _
  | unpadded => simp [Header.length_bytes]
  | written item hrest ih =>
      rw [List.length_append, item.length_bytes, List.length_cons, Nat.mul_succ]
      omega

/-! Where the attributes stand. -/

/-- The attributes stand in the data one behind another, none before the place: each header at a
multiple of four, its payload right behind it. -/
inductive Stand (data : Bytes) : Nat → List View → Prop
  | nil (least : Nat) : Stand data least []
  | cons {least place : Nat} {type : UInt16} {payload : Bytes} {later : List View}
      (hleast : least ≤ place) (haligned : place % 4 = 0)
      (hheader : data.At place (heading type payload.length).bytes)
      (hpayload : data.At (place + attributeHeader) payload)
      (hlater : Stand data (place + attributeHeader + payload.length) later) :
      Stand data least (⟨type &&& typeMask, payload⟩ :: later)

theorem Stand.mono {data : Bytes} {least below : Nat} {found : List View}
    (h : Stand data least found) (hle : below ≤ least) : Stand data below found := by
  cases h with
  | nil => exact .nil below
  | cons hleast haligned hheader hpayload hlater =>
      exact .cons (Nat.le_trans hle hleast) haligned hheader hpayload hlater

theorem Stand.behind {data : Bytes} {least : Nat} {found : List View} (h : Stand data least found)
    {front : Bytes} (hfront : front.length % 4 = 0) :
    Stand (front ++ data) (front.length + least) found := by
  induction h with
  | nil least => exact .nil _
  | cons hleast haligned hheader hpayload hlater ih =>
      have hpayload' := hpayload.behind front
      rw [← Nat.add_assoc] at hpayload'
      rw [← Nat.add_assoc, ← Nat.add_assoc] at ih
      exact .cons (Nat.add_le_add_left hleast _) (by omega) (hheader.behind front) hpayload' ih

theorem Stand.first {type : UInt16} {payload back : Bytes} {later : List View}
    (h : Stand ((heading type payload.length).bytes ++ (payload ++ back))
      (0 + attributeHeader + payload.length) later) :
    Stand ((heading type payload.length).bytes ++ (payload ++ back)) 0
      (⟨type &&& typeMask, payload⟩ :: later) := by
  refine .cons (Nat.le_refl 0) rfl ⟨[], _, rfl, rfl⟩ ⟨_, back, rfl, ?_⟩ h
  rw [Header.length_bytes, Nat.zero_add]

theorem Reads.stand {data : Bytes} {found : List View} (h : Reads data found) :
    Stand data 0 found := by
  induction h with
  | stopped => exact .nil 0
  | unpadded => exact .first (.nil _)
  | @written item rest later hrest ih =>
      have hlength := item.length_bytes
      have haligned := Bytes.align_mod_four item.payload.length
      have hle := Bytes.le_align item.payload.length
      have hfront : item.bytes.length % 4 = 0 := by
        rw [hlength, attributeHeader]
        omega
      have hlater := (ih.behind hfront).mono
        (show 0 + attributeHeader + item.payload.length ≤ item.bytes.length + 0 by omega)
      rw [Written.bytes, List.append_assoc, List.append_assoc] at hlater ⊢
      exact .first hlater

/-- Attributes are read in order from where they are packed, whatever stands in the padding, and
then what is read of the rest, which is nothing where no attribute begins. Of any bytes, no more
attributes are read than headers fit in, and each stands where it is read, behind the ones before
it; reading goes on to the first place where no attribute begins. -/
theorem attributes_read_where_they_stand :
    (∀ (items : List Written) (rest : Bytes),
      views (items.flatMap Written.bytes ++ rest) = items.map Written.view ++ views rest) ∧
    (∀ (items : List Written) (rest : Bytes), Stops rest →
      views (items.flatMap Written.bytes ++ rest) = items.map Written.view) ∧
    ∀ data : Bytes,
      (views data).length ≤ data.length / attributeHeader ∧
      Stand data 0 (views data) ∧
      Reads data (views data) := by
  refine ⟨Written.views_flatMap_bytes_append, fun items rest hstops => ?_, fun data => ?_⟩
  · rw [Written.views_flatMap_bytes_append, views_of_stops hstops, List.append_nil]
  · have hreads := reads_views data
    refine ⟨?_, hreads.stand, hreads⟩
    rw [Nat.le_div_iff_mul_le (by decide), Nat.mul_comm]
    exact hreads.length_le

theorem attributes_read_where_they_stand_before_cut :
    let front : Bytes := [5, 0, 3, 0x80, 9, 0xEE, 0xEE, 0xEE, 8, 0, 4, 0, 7, 0, 0, 0]
    let cut : Bytes := [9, 0, 1, 0, 1, 2, 3, 4]
    Stops cut ∧ views (front ++ cut) = [⟨3, [9]⟩, ⟨4, [7, 0, 0, 0]⟩] := by
  intro front cut
  have hstops : Stops cut := @Stops.wrong ⟨9, 1⟩ [1, 2, 3, 4] (.inr (by decide))
  let first : Written := ⟨0x8003, [9], [0xEE, 0xEE, 0xEE], by decide, by decide⟩
  let second : Written := ⟨4, [7, 0, 0, 0], [], by decide, by decide⟩
  have hfront : [first, second].flatMap Written.bytes = front := by decide
  have hviews : [first, second].map Written.view = [⟨3, [9]⟩, ⟨4, [7, 0, 0, 0]⟩] := by decide
  have hread := attributes_read_where_they_stand.2.1 [first, second] cut hstops
  rw [hfront, hviews] at hread
  exact ⟨hstops, hread⟩

end TunnelControl.Netlink.Attribute
