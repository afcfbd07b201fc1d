import TunnelControl.Proofs.Netlink.MessageReading

/-!
Datagrams as another program may pack them. Anything may stand in the padding of a message, and the
last message may lack it. Whatever a datagram holds, the reader takes messages that stand in it one
behind another, and stops where too little is left or where a header states a wrong length.
-/

namespace TunnelControl

def Bytes.At (data : Bytes) (place : Nat) (piece : Bytes) : Prop :=
  ∃ front back, data = front ++ (piece ++ back) ∧ front.length = place

theorem Bytes.At.behind {data piece : Bytes} {place : Nat} (h : At data place piece)
    (front : Bytes) : At (front ++ data) (front.length + place) piece := by
  obtain ⟨before, back, rfl, rfl⟩ := h
  exact ⟨front ++ before, back, by rw [List.append_assoc], List.length_append⟩

namespace Netlink.Message

structure Packed where
  message : Message
  filling : Bytes
  framed : message.Framed
  filled : (message.payload ++ filling).length = Bytes.align message.payload.length

namespace Packed

def bytes (item : Packed) : Bytes :=
  item.message.header.bytes ++ (item.message.payload ++ item.filling)

theorem ofDatagram_bytes_append (item : Packed) (rest : Bytes) :
    ofDatagram (item.bytes ++ rest) = .ok item.message :: ofDatagram rest := by
  have hgap : item.filling.length =
      Bytes.align item.message.payload.length - item.message.payload.length := by
    have hfilled := item.filled
    rw [List.length_append] at hfilled
    omega
  rw [bytes, List.append_assoc, List.append_assoc, ofDatagram_framed_append item.framed,
    List.drop_left' hgap]

theorem ofDatagram_flatMap_bytes_append (items : List Packed) (rest : Bytes) :
    ofDatagram (items.flatMap bytes ++ rest) =
      items.map (.ok ·.message) ++ ofDatagram rest := by
  induction items with
  | nil => rfl
  | cons item items ih =>
      rw [List.flatMap_cons, List.append_assoc, item.ofDatagram_bytes_append, ih]
      rfl

theorem length_bytes (item : Packed) :
    item.bytes.length = Header.size + Bytes.align item.message.payload.length := by
  rw [bytes, List.length_append, Header.length_bytes, item.filled]

end Packed

theorem ofDatagram_unpadded {message : Message} (hframed : message.Framed) {gap : Bytes}
    (hgap : (message.payload ++ gap).length ≤ Bytes.align message.payload.length) :
    ofDatagram (message.header.bytes ++ (message.payload ++ gap)) = [.ok message] := by
  rw [List.length_append] at hgap
  rw [ofDatagram_framed_append hframed, List.drop_eq_nil_of_le (by omega),
    ofDatagram_of_lt (by decide)]

def WrongLength (header : Header) (behind : Nat) : Prop :=
  header.length.toNat < Header.size ∨ Header.size + behind < header.length.toNat

def wrongLength (header : Header) (behind : Nat) : Error :=
  .invalidMessage (.badLength header.length.toNat (Header.size + behind))

theorem ofDatagram_of_wrongLength {header : Header} {rest : Bytes}
    (h : WrongLength header rest.length) :
    ofDatagram (header.bytes ++ rest) = [.error (wrongLength header rest.length)] := by
  rw [ofDatagram_of_take? (Header.take?_bytes_append header rest), List.length_append,
    Header.length_bytes]
  rcases h with hsmall | hlarge
  · rw [if_pos hsmall]
    rfl
  · have hcut := (Bytes.cut?_eq_none_iff (header.length.toNat - Header.size) rest).mpr (by omega)
    rw [if_neg (by omega), hcut]
    rfl

/-! What is read of any datagram. -/

/-- Messages and what may follow them, as a reader goes through a datagram. -/
inductive Reads : Bytes → List (Except Error Message) → Prop
  | short {data : Bytes} (hshort : data.length < Header.size) : Reads data []
  | wrong {header : Header} {rest : Bytes} (hwrong : WrongLength header rest.length) :
      Reads (header.bytes ++ rest) [.error (wrongLength header rest.length)]
  | unpadded {message : Message} {gap : Bytes} (hframed : message.Framed)
      (hgap : (message.payload ++ gap).length < Bytes.align message.payload.length) :
      Reads (message.header.bytes ++ (message.payload ++ gap)) [.ok message]
  | packed (item : Packed) {rest : Bytes} {later : List (Except Error Message)}
      (hrest : Reads rest later) : Reads (item.bytes ++ rest) (.ok item.message :: later)

theorem Reads.eq_ofDatagram {data : Bytes} {items : List (Except Error Message)}
    (h : Reads data items) : ofDatagram data = items := by
  induction h with
  | short hshort => exact ofDatagram_of_lt hshort
  | wrong hwrong => exact ofDatagram_of_wrongLength hwrong
  | unpadded hframed hgap => exact ofDatagram_unpadded hframed (Nat.le_of_lt hgap)
  | packed item hrest ih => rw [item.ofDatagram_bytes_append, ih]

theorem reads_framed {message : Message} (hframed : message.Framed) {tail : Bytes}
    {later : List (Except Error Message)}
    (hlater : Reads (tail.drop (Bytes.align message.payload.length - message.payload.length)) later) :
    Reads (message.header.bytes ++ (message.payload ++ tail)) (.ok message :: later) := by
  have hle := Bytes.le_align message.payload.length
  generalize hgap : Bytes.align message.payload.length - message.payload.length = gap at hlater
  rcases Nat.lt_or_ge tail.length gap with hshort | hlong
  · have hnil : tail.drop gap = [] := List.drop_eq_nil_of_le (Nat.le_of_lt hshort)
    have hlater' := hlater.eq_ofDatagram
    rw [hnil, ofDatagram_of_lt (by decide)] at hlater'
    subst hlater'
    apply Reads.unpadded hframed
    rw [List.length_append]
    omega
  · have hfilled : (message.payload ++ tail.take gap).length =
        Bytes.align message.payload.length := by
      rw [List.length_append, List.length_take_of_le hlong]
      omega
    have hpacked := Reads.packed ⟨message, tail.take gap, hframed, hfilled⟩ hlater
    rwa [Packed.bytes, List.append_assoc, List.append_assoc, List.take_append_drop] at hpacked

theorem reads_ofDatagram (data : Bytes) : Reads data (ofDatagram data) := by
  fun_induction ofDatagram data with
  | case1 data hnone => exact .short ((Header.take?_eq_none_iff data).mp hnone)
  | case2 data header rest htake _ length hsmall =>
      obtain rfl := Header.eq_append_of_take? htake
      rw [List.length_append, Header.length_bytes]
      exact .wrong (.inl hsmall)
  | case3 data header rest htake _ length hsmall hnone =>
      obtain rfl := Header.eq_append_of_take? htake
      have hshort := (Bytes.cut?_eq_none_iff _ _).mp hnone
      have hlarge : Header.size + rest.length < header.length.toNat := by omega
      rw [List.length_append, Header.length_bytes]
      exact .wrong (.inr hlarge)
  | case4 data header rest htake _ length hsmall payload behind hpayload ih =>
      obtain rfl := Header.eq_append_of_take? htake
      obtain ⟨rfl, hsize⟩ := Bytes.eq_append_of_cut? hpayload
      have hlength : length = Header.size + payload.length := by omega
      have hframed : Framed ⟨header, payload⟩ := hlength
      have hgap : Bytes.align length - Header.size =
          payload.length + (Bytes.align payload.length - payload.length) := by
        rw [hlength, Header.size]
        unfold Bytes.align
        omega
      rw [hgap, ← List.drop_drop, List.drop_left] at ih ⊢
      exact reads_framed hframed ih

theorem Reads.length_le {data : Bytes} {items : List (Except Error Message)}
    (h : Reads data items) : Header.size * items.length ≤ data.length := by
  induction h with
  | short => exact Nat.zero_le _
  | wrong => simp
  | unpadded => simp
  | packed item hrest ih =>
      rw [List.length_append, item.length_bytes, List.length_cons, Nat.mul_succ]
      omega

theorem Reads.error_last {data : Bytes} {items front back : List (Except Error Message)}
    {error : Error} (h : Reads data items) (hitems : items = front ++ .error error :: back) :
    back = [] := by
  induction h generalizing front with
  | short => simp at hitems
  | wrong | unpadded =>
      cases front with
      | nil => simp_all
      | cons first front => simp at hitems
  | packed item hrest ih =>
      cases front with
      | nil => cases hitems
      | cons first front => exact ih (List.cons.inj hitems).2

theorem Reads.exists_wrong {data : Bytes} {items : List (Except Error Message)} {error : Error}
    (h : Reads data items) (herror : .error error ∈ items) :
    ∃ (front : List Packed) (header : Header) (rest : Bytes),
      data = front.flatMap Packed.bytes ++ (header.bytes ++ rest) ∧
        WrongLength header rest.length ∧ error = wrongLength header rest.length := by
  induction h with
  | short => cases herror
  | @wrong header rest hwrong =>
      refine ⟨[], header, rest, rfl, hwrong, ?_⟩
      simpa using herror
  | unpadded => simp at herror
  | packed item hrest ih =>
      have hlater := (List.mem_cons.mp herror).resolve_left nofun
      obtain ⟨front, header, rest, rfl, hwrong, hreported⟩ := ih hlater
      exact ⟨item :: front, header, rest, by rw [List.flatMap_cons, List.append_assoc], hwrong,
        hreported⟩

theorem error_mem_ofDatagram_iff (data : Bytes) (error : Error) :
    .error error ∈ ofDatagram data ↔ ∃ (front : List Packed) (header : Header) (rest : Bytes),
      data = front.flatMap Packed.bytes ++ (header.bytes ++ rest) ∧
        WrongLength header rest.length ∧ error = wrongLength header rest.length := by
  refine ⟨(reads_ofDatagram data).exists_wrong, ?_⟩
  rintro ⟨front, header, rest, rfl, hwrong, rfl⟩
  rw [Packed.ofDatagram_flatMap_bytes_append, ofDatagram_of_wrongLength hwrong]
  exact List.mem_append_right _ List.mem_cons_self

/-! Where the messages stand. -/

/-- The messages stand in the data one behind another, none before the place: each header at a
multiple of four, its payload right behind it. -/
inductive Stand (data : Bytes) : Nat → List Message → Prop
  | nil (least : Nat) : Stand data least []
  | cons {least place : Nat} {message : Message} {later : List Message} (hleast : least ≤ place)
      (haligned : place % 4 = 0) (hheader : data.At place message.header.bytes)
      (hpayload : data.At (place + Header.size) message.payload)
      (hlater : Stand data (place + Header.size + message.payload.length) later) :
      Stand data least (message :: later)

theorem Stand.mono {data : Bytes} {least below : Nat} {messages : List Message}
    (h : Stand data least messages) (hle : below ≤ least) : Stand data below messages := by
  cases h with
  | nil => exact .nil below
  | cons hleast haligned hheader hpayload hlater =>
      exact .cons (Nat.le_trans hle hleast) haligned hheader hpayload hlater

theorem Stand.behind {data : Bytes} {least : Nat} {messages : List Message}
    (h : Stand data least messages) {front : Bytes} (hfront : front.length % 4 = 0) :
    Stand (front ++ data) (front.length + least) messages := by
  induction h with
  | nil least => exact .nil _
  | @cons least place message later hleast haligned hheader hpayload hlater ih =>
      have hpayload' := hpayload.behind front
      rw [← Nat.add_assoc] at hpayload'
      rw [← Nat.add_assoc, ← Nat.add_assoc] at ih
      exact .cons (Nat.add_le_add_left hleast _) (by omega) (hheader.behind front) hpayload' ih

theorem Reads.stand {data : Bytes} {items : List (Except Error Message)} (h : Reads data items) :
    Stand data 0 (items.filterMap Except.toOption) := by
  have hfirst : ∀ {message : Message} {back : Bytes} {later : List Message},
      Stand (message.header.bytes ++ (message.payload ++ back))
        (0 + Header.size + message.payload.length) later →
      Stand (message.header.bytes ++ (message.payload ++ back)) 0 (message :: later) := by
    intro message back later hlater
    refine .cons (Nat.le_refl 0) rfl ⟨[], _, rfl, rfl⟩ ⟨_, back, rfl, ?_⟩ hlater
    rw [Header.length_bytes, Nat.zero_add]
  induction h with
  | short | wrong => exact .nil 0
  | unpadded => exact hfirst (.nil _)
  | @packed item rest later hrest ih =>
      have hlength := item.length_bytes
      have hfront : item.bytes.length % 4 = 0 := by
        have haligned := Bytes.align_mod_four item.message.payload.length
        rw [hlength, Header.size]
        omega
      have hlater := (ih.behind hfront).mono
        (show 0 + Header.size + item.message.payload.length ≤ item.bytes.length + 0 by
          have hle := Bytes.le_align item.message.payload.length
          omega)
      rw [Packed.bytes, List.append_assoc, List.append_assoc] at hlater ⊢
      exact hfirst hlater

/-- Messages are read in order from where they are packed, whatever stands in the padding, and then
what is read of the rest; the last one may lack its padding, and fewer bytes than a header are
nothing. Of any bytes, no more messages are read than headers fit in; there is an error only at the
end, exactly if a header behind messages states a wrong length; and each message stands where it is
read, behind the ones before it. -/
theorem messages_read_where_they_stand :
    (∀ (items : List Packed) (tail : Bytes),
      ofDatagram (items.flatMap Packed.bytes ++ tail) =
        items.map (.ok ·.message) ++ ofDatagram tail) ∧
    (∀ (items : List Packed) (last : Message) (gap : Bytes), last.Framed →
      (last.payload ++ gap).length ≤ Bytes.align last.payload.length →
      ofDatagram (items.flatMap Packed.bytes ++ (last.header.bytes ++ (last.payload ++ gap))) =
        items.map (.ok ·.message) ++ [.ok last]) ∧
    (∀ tail : Bytes, tail.length < Header.size → ofDatagram tail = []) ∧
    ∀ data : Bytes,
      (ofDatagram data).length ≤ data.length / Header.size ∧
      (∀ front error back, ofDatagram data = front ++ .error error :: back → back = []) ∧
      (∀ error, .error error ∈ ofDatagram data ↔
        ∃ (front : List Packed) (header : Header) (rest : Bytes),
          data = front.flatMap Packed.bytes ++ (header.bytes ++ rest) ∧
            WrongLength header rest.length ∧ error = wrongLength header rest.length) ∧
      Stand data 0 ((ofDatagram data).filterMap Except.toOption) := by
  refine ⟨Packed.ofDatagram_flatMap_bytes_append, ?_, fun _ => ofDatagram_of_lt, fun data => ?_⟩
  · intro items last gap hframed hgap
    rw [Packed.ofDatagram_flatMap_bytes_append, ofDatagram_unpadded hframed hgap]
  · have hreads := reads_ofDatagram data
    refine ⟨?_, fun front error back => hreads.error_last, error_mem_ofDatagram_iff data,
      hreads.stand⟩
    rw [Nat.le_div_iff_mul_le (by decide), Nat.mul_comm]
    exact hreads.length_le

theorem messages_read_where_they_stand_noisy_padding :
    let first : Message := ⟨⟨19, 16, 2, 7, 0⟩, [1, 2, 3]⟩
    let last : Message := ⟨⟨17, 16, 2, 7, 0⟩, [9]⟩
    let cut : Header := ⟨18, 16, 2, 7, 0⟩
    last.Framed ∧ (last.payload ++ []).length ≤ Bytes.align last.payload.length ∧
      ofDatagram (first.header.bytes ++ ([1, 2, 3] ++ [0xEE]) ++ (last.header.bytes ++ [9])) =
        [.ok first, .ok last] ∧
      WrongLength cut 1 ∧
      .error (wrongLength cut 1) ∈
        ofDatagram (first.header.bytes ++ ([1, 2, 3] ++ [0xEE]) ++ (cut.bytes ++ [9])) := by
  intro first last cut
  have hframed : last.Framed := by decide
  have hgap : (last.payload ++ []).length ≤ Bytes.align last.payload.length := by decide
  have hwrong : WrongLength cut 1 := .inr (by decide)
  let item : Packed := ⟨first, [0xEE], by decide, by decide⟩
  have hitem : [item].flatMap Packed.bytes = first.header.bytes ++ ([1, 2, 3] ++ [0xEE]) :=
    List.append_nil _
  obtain ⟨-, hread, -, hany⟩ := messages_read_where_they_stand
  have hmessages := hread [item] last [] hframed hgap
  rw [hitem] at hmessages
  refine ⟨hframed, hgap, hmessages, hwrong, ((hany _).2.2.1 _).mpr ⟨[item], cut, [9], ?_, hwrong, rfl⟩⟩
  rw [hitem]

end Netlink.Message

end TunnelControl
