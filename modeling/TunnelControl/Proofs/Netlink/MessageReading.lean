import TunnelControl.Proofs.Netlink.Framing

/-!
What a reader makes of messages. Messages whose lengths are right are read back from a datagram in
order, a verdict is what its first words say, and the number and the sender that are written into
a draft stand in the header of the finished request.
-/

namespace TunnelControl

namespace Bytes

theorem ofLittleEndian_littleEndian (data : Bytes) :
    ofLittleEndian data.length (littleEndian data) = data := by
  induction data with
  | nil => rfl
  | cons byte data ih =>
      have hlow := byte.toNat_lt
      have hbyte : UInt8.ofNat (byte.toNat + 256 * littleEndian data) = byte := ofNat_eq (by omega)
      have hrest : (byte.toNat + 256 * littleEndian data) / 256 = littleEndian data := by omega
      rw [List.length_cons, ofLittleEndian, littleEndian, hbyte, hrest, ih]

theorem littleEndian_lt (data : Bytes) : littleEndian data < capacity data.length := by
  induction data with
  | nil => exact Nat.one_pos
  | cons byte data ih =>
      have := byte.toNat_lt
      rw [littleEndian, List.length_cons, capacity]
      omega

theorem cut?_eq_none_iff (count : Nat) (data : Bytes) :
    cut? count data = none ↔ data.length < count := by
  simp only [cut?, List.length_take, ite_eq_right_iff, reduceCtorEq, imp_false]
  omega

theorem cut?_of_le {count : Nat} {data : Bytes} (h : count ≤ data.length) :
    cut? count data = some (data.take count, data.drop count) := by
  simp only [cut?, List.length_take_of_le h, if_true]

theorem Width.eq_write_append {size : Nat} {α : Type} (width : Width size α) {data : Bytes}
    (h : size ≤ data.length) :
    data = width.write (width.ofNat (littleEndian (data.take size))) ++ data.drop size := by
  have hfront : (data.take size).length = size := List.length_take_of_le h
  have hlt := littleEndian_lt (data.take size)
  have hsame := ofLittleEndian_littleEndian (data.take size)
  rw [hfront] at hlt hsame
  rw [write, width.toNat_ofNat _ hlt, hsame, List.take_append_drop]

theorem Width.read?_of_le {size : Nat} {α : Type} (width : Width size α) {data : Bytes}
    (h : size ≤ data.length) :
    width.read? data =
      some (width.ofNat (littleEndian (data.take size)), data.drop size) := by
  rw [read?, cut?_of_le h, Option.map_some]

theorem Width.read?_of_lt {size : Nat} {α : Type} (width : Width size α) {data : Bytes}
    (h : data.length < size) : width.read? data = none := by
  rw [read?, (cut?_eq_none_iff size data).mpr h, Option.map_none]

theorem Width.eq_append_of_read? {size : Nat} {α : Type} (width : Width size α)
    {data rest : Bytes} {value : α} (h : width.read? data = some (value, rest)) :
    data = width.write value ++ rest := by
  by_cases hlong : size ≤ data.length
  · rw [width.read?_of_le hlong] at h
    cases h
    exact width.eq_write_append hlong
  · rw [width.read?_of_lt (Nat.not_le.mp hlong)] at h
    cases h

end Bytes

namespace Netlink

namespace Header

theorem exists_bytes_append {data : Bytes} (h : size ≤ data.length) :
    ∃ header : Header, data = header.bytes ++ data.drop size := by
  have hsize : 16 ≤ data.length := h
  have hword : ∀ place, place + 4 ≤ 16 →
      ∃ value, data.drop place = Bytes.word32 value ++ data.drop (place + 4) := by
    intro place hplace
    rw [← List.drop_drop]
    exact ⟨_, Bytes.width32.eq_write_append (by rw [List.length_drop]; omega)⟩
  have hhalf : ∀ place, place + 2 ≤ 16 →
      ∃ value, data.drop place = Bytes.word16 value ++ data.drop (place + 2) := by
    intro place hplace
    rw [← List.drop_drop]
    exact ⟨_, Bytes.width16.eq_write_append (by rw [List.length_drop]; omega)⟩
  obtain ⟨length, hlength⟩ := hword 0 (by omega)
  obtain ⟨type, htype⟩ := hhalf 4 (by omega)
  obtain ⟨flags, hflags⟩ := hhalf 6 (by omega)
  obtain ⟨sequence, hsequence⟩ := hword 8 (by omega)
  obtain ⟨port, hport⟩ := hword 12 (by omega)
  refine ⟨⟨length, type, flags, sequence, port⟩, ?_⟩
  simp only [bytes, List.append_assoc]
  calc
    data = data.drop 0 := rfl
    _ = _ := by rw [hlength, htype, hflags, hsequence, hport, size]

theorem length_of_take? {data rest : Bytes} {header : Header}
    (h : take? data = some (header, rest)) : data.length = size + rest.length := by
  simp only [take?, Option.bind_eq_bind, Option.bind_eq_some_iff, Option.pure_def,
    Option.some.injEq, Prod.mk.injEq] at h
  obtain ⟨_, hlength, _, htype, _, hflags, _, hsequence, _, hport, -, rfl⟩ := h
  have h₁ := Bytes.width32.length_of_read? hlength
  have h₂ := Bytes.width16.length_of_read? htype
  have h₃ := Bytes.width16.length_of_read? hflags
  have h₄ := Bytes.width32.length_of_read? hsequence
  have h₅ := Bytes.width32.length_of_read? hport
  rw [size]
  omega

theorem eq_append_of_take? {data rest : Bytes} {header : Header}
    (h : take? data = some (header, rest)) : data = header.bytes ++ rest := by
  obtain ⟨found, hdata⟩ := exists_bytes_append
    (show size ≤ data.length by rw [length_of_take? h]; exact Nat.le_add_right _ _)
  rw [hdata, take?_bytes_append] at h
  cases h
  exact hdata

theorem take?_eq_none_iff (data : Bytes) : take? data = none ↔ data.length < size := by
  constructor
  · intro hnone
    refine Nat.lt_of_not_le fun hlength => ?_
    obtain ⟨header, hdata⟩ := exists_bytes_append hlength
    rw [hdata, take?_bytes_append] at hnone
    cases hnone
  · intro hlength
    cases htake : take? data with
    | none => rfl
    | some found =>
        have hsome := length_of_take? htake
        omega

end Header

namespace Verdict

def statusOf (payload : Bytes) : Int :=
  (UInt32.ofNat (Bytes.littleEndian (payload.take 4))).toInt32.toInt

theorem read_of_le {payload : Bytes} (h : size ≤ payload.length) :
    ∃ request, read payload = .ok ⟨statusOf payload, request⟩ := by
  have hsize : 20 ≤ payload.length := h
  obtain ⟨request, hrequest⟩ := Header.exists_bytes_append
    (show Header.size ≤ (payload.drop 4).length by
      rw [List.length_drop, Header.size]
      omega)
  have hword : Bytes.word32? payload =
      some (UInt32.ofNat (Bytes.littleEndian (payload.take 4)), payload.drop 4) := by
    conv => lhs; rw [Bytes.width32.eq_write_append (show 4 ≤ payload.length by omega)]
    exact Bytes.word32?_append _ _
  have hheader : Header.take? (payload.drop 4) =
      some (request, (payload.drop 4).drop Header.size) := by
    conv => lhs; rw [hrequest]
    exact Header.take?_bytes_append _ _
  refine ⟨request, ?_⟩
  simp only [read, take?, hword, Option.bind_eq_bind, Option.bind_some, hheader, Option.pure_def]
  rfl

theorem read_of_lt {payload : Bytes} (h : payload.length < size) :
    read payload = .error (.truncated size payload.length) := by
  unfold read
  cases htake : take? payload with
  | none => rfl
  | some verdict =>
      simp only [take?, Option.bind_eq_bind, Option.bind_eq_some_iff] at htake
      obtain ⟨⟨_, rest⟩, hword, ⟨_, back⟩, hheader, -⟩ := htake
      have hfront := Bytes.width32.length_of_read? hword
      have hback := Header.length_of_take? hheader
      simp only [size, Header.size] at h hback
      omega

/-- Why a verdict does not acknowledge its request. -/
def refusal? (payload : Bytes) : Option Error :=
  if payload.length < 20 then some (.truncated 20 payload.length)
  else if statusOf payload = 0 then none
  else some (.kernel (min (statusOf payload).natAbs 0x7FFFFFFF))

theorem refusal?_eq_none_iff (payload : Bytes) :
    refusal? payload = none ↔ 20 ≤ payload.length ∧ statusOf payload = 0 := by
  unfold refusal?
  split
  · rename_i hshort
    exact ⟨nofun, fun hwhole => absurd hwhole.1 (Nat.not_le.mpr hshort)⟩
  · rename_i hwhole
    split
    · rename_i hstatus
      exact ⟨fun _ => ⟨Nat.not_lt.mp hwhole, hstatus⟩, fun _ => rfl⟩
    · rename_i hstatus
      exact ⟨nofun, fun hzero => absurd hzero.2 hstatus⟩

theorem read_bind_check (payload : Bytes) (next : Except Error α) :
    (do let verdict ← read payload; verdict.check; next) =
      match refusal? payload with
      | some error => .error error
      | none => next := by
  by_cases hshort : payload.length < 20
  · rw [refusal?, if_pos hshort, read_of_lt hshort]
    rfl
  · obtain ⟨request, hread⟩ := read_of_le (Nat.le_of_not_lt hshort)
    rw [refusal?, if_neg hshort, hread]
    show (do check ⟨statusOf payload, request⟩; next) = _
    by_cases hstatus : statusOf payload = 0
    · rw [if_pos hstatus, check, isAcknowledgement, if_pos (decide_eq_true hstatus)]
      rfl
    · rw [if_neg hstatus, check, isAcknowledgement,
        if_neg fun hzero => hstatus (of_decide_eq_true hzero)]
      rfl

end Verdict

namespace Message

theorem ofDatagram_of_lt {data : Bytes} (h : data.length < Header.size) : ofDatagram data = [] := by
  rw [ofDatagram]
  split
  · rfl
  · rename_i hsome
    rw [(Header.take?_eq_none_iff data).mpr h] at hsome
    cases hsome

theorem ofDatagram_of_take? {data rest : Bytes} {header : Header}
    (h : Header.take? data = some (header, rest)) :
    ofDatagram data =
      if header.length.toNat < Header.size then
        [.error (.invalidMessage (.badLength header.length.toNat data.length))]
      else
        match Bytes.cut? (header.length.toNat - Header.size) rest with
        | none => [.error (.invalidMessage (.badLength header.length.toNat data.length))]
        | some (payload, _) =>
            .ok ⟨header, payload⟩ ::
              ofDatagram (rest.drop (Bytes.align header.length.toNat - Header.size)) := by
  rw [ofDatagram]
  split
  · rename_i hnone
    rw [h] at hnone
    cases hnone
  · rename_i hsome
    rw [h] at hsome
    cases hsome
    rfl

theorem drop_of_ofDatagram {data payload : Bytes} {header : Header}
    {rest : List (Except Error Message)} (h : ofDatagram data = .ok ⟨header, payload⟩ :: rest)
    (hlength : header.length.toNat = data.length) : data.drop Header.size = payload := by
  rcases Nat.lt_or_ge data.length Header.size with hshort | hlong
  · rw [ofDatagram_of_lt hshort] at h
    cases h
  · obtain ⟨first, hdata⟩ := Header.exists_bytes_append hlong
    have htake : Header.take? data = some (first, data.drop Header.size) := by
      conv => lhs; rw [hdata]
      exact Header.take?_bytes_append _ _
    rw [ofDatagram_of_take? htake] at h
    split at h
    · cases h
    · split at h
      · cases h
      · rename_i hcut
        cases h
        obtain ⟨hrest, hsize⟩ := Bytes.eq_append_of_cut? hcut
        have htail := congrArg List.length hrest
        rw [List.length_append, List.length_drop, hsize, hlength, Nat.left_eq_add] at htail
        rw [hrest, List.eq_nil_of_length_eq_zero htail, List.append_nil]

/-- The header states the size of the message. -/
def Framed (message : Message) : Prop :=
  message.header.length.toNat = Header.size + message.payload.length

instance (message : Message) : Decidable message.Framed :=
  inferInstanceAs (Decidable (_ = _))

def packet (messages : List Message) : Bytes :=
  messages.flatMap bytes

/-- A message is read where it stands, whatever stands in its padding. -/
theorem ofDatagram_framed_append {message : Message} (hframed : message.Framed) (tail : Bytes) :
    ofDatagram (message.header.bytes ++ (message.payload ++ tail)) =
      .ok message ::
        ofDatagram (tail.drop (Bytes.align message.payload.length - message.payload.length)) := by
  have hlength : message.header.length.toNat = 16 + message.payload.length := hframed
  have hcut : Bytes.cut? (message.header.length.toNat - Header.size) (message.payload ++ tail) =
      some (message.payload, tail) := by
    apply Bytes.cut?_append
    rw [hlength, Header.size]
    omega
  have hgap : Bytes.align message.header.length.toNat - Header.size =
      message.payload.length +
        (Bytes.align message.payload.length - message.payload.length) := by
    rw [hlength, Header.size]
    unfold Bytes.align
    omega
  rw [ofDatagram_of_take? (Header.take?_bytes_append _ _),
    if_neg (by rw [hlength, Header.size]; omega), hcut, hgap, ← List.drop_drop, List.drop_left]

theorem ofDatagram_bytes_append {message : Message} (hframed : message.Framed) (rest : Bytes) :
    ofDatagram (message.bytes ++ rest) = .ok message :: ofDatagram rest := by
  have hpadding : Bytes.padding (message.header.bytes ++ message.payload).length =
      Bytes.padding message.payload.length := by
    rw [List.length_append, Header.length_bytes, Header.size, Bytes.padding, Bytes.padding,
      Bytes.align, Bytes.align]
    congr 1
    omega
  have hdrop : (Bytes.padding message.payload.length ++ rest).drop
      (Bytes.align message.payload.length - message.payload.length) = rest :=
    List.drop_left' (by rw [Bytes.padding, List.length_replicate])
  rw [bytes, Bytes.padded, hpadding, List.append_assoc, List.append_assoc,
    ofDatagram_framed_append hframed, hdrop]

theorem ofDatagram_packet_append {messages : List Message}
    (hframed : ∀ message ∈ messages, message.Framed) (rest : Bytes) :
    ofDatagram (packet messages ++ rest) = messages.map .ok ++ ofDatagram rest := by
  induction messages with
  | nil => rfl
  | cons message messages ih =>
      obtain ⟨hfirst, hrest⟩ := List.forall_mem_cons.mp hframed
      rw [packet, List.flatMap_cons, List.append_assoc, ofDatagram_bytes_append hfirst]
      exact congrArg _ (ih hrest)

theorem ofDatagram_packet {messages : List Message} (hframed : ∀ message ∈ messages, message.Framed) :
    ofDatagram (packet messages) = messages.map .ok := by
  have hpacket := ofDatagram_packet_append hframed []
  have hnil : ofDatagram [] = [] := by
    rw [ofDatagram]
    rfl
  rwa [List.append_nil, hnil, List.append_nil] at hpacket

theorem ofDatagram_of_aligned {message : Message} (hframed : message.Framed)
    (haligned : message.payload.length % 4 = 0) :
    ofDatagram (message.header.bytes ++ message.payload) = [.ok message] := by
  have hsize : (message.header.bytes ++ message.payload).length % 4 = 0 := by
    rw [List.length_append, Header.length_bytes, Header.size]
    omega
  have hbytes : message.bytes = message.header.bytes ++ message.payload :=
    Bytes.padded_of_mod_four hsize
  have hpacket := ofDatagram_packet (List.forall_mem_singleton.mpr hframed)
  rwa [packet, List.flatMap_singleton, hbytes] at hpacket

end Message

namespace Draft

variable {draft : Draft} {header : Header} {body : Bytes}

theorem contents_setFlags (h : draft.contents = header.bytes ++ body) (flags : UInt16) :
    (draft.setFlags flags).contents = { header with flags }.bytes ++ body := by
  have hcontents : draft.contents =
      (Bytes.word32 header.length ++ Bytes.word16 header.type) ++ (Bytes.word16 header.flags ++
        (Bytes.word32 header.sequence ++ (Bytes.word32 header.port ++ body))) := by
    simp only [h, Header.bytes, List.append_assoc]
  have hlength : (Bytes.word16 header.flags).length = (Bytes.word16 flags).length := by
    simp only [Bytes.length_word16]
  have hput := contents_put hcontents hlength
  simp only [List.length_append, Bytes.length_word32, Bytes.length_word16] at hput
  simp only [setFlags, hput, Header.bytes, List.append_assoc]

theorem contents_setSequence (h : draft.contents = header.bytes ++ body) (sequence : UInt32) :
    (draft.setSequence sequence).contents = { header with sequence }.bytes ++ body := by
  have hcontents : draft.contents =
      (Bytes.word32 header.length ++ (Bytes.word16 header.type ++ Bytes.word16 header.flags)) ++
        (Bytes.word32 header.sequence ++ (Bytes.word32 header.port ++ body)) := by
    simp only [h, Header.bytes, List.append_assoc]
  have hlength : (Bytes.word32 header.sequence).length = (Bytes.word32 sequence).length := by
    simp only [Bytes.length_word32]
  have hput := contents_put hcontents hlength
  simp only [List.length_append, Bytes.length_word32, Bytes.length_word16] at hput
  simp only [setSequence, hput, Header.bytes, List.append_assoc]

theorem contents_setPort (h : draft.contents = header.bytes ++ body) (port : UInt32) :
    (draft.setPort port).contents = { header with port }.bytes ++ body := by
  have hcontents : draft.contents =
      (Bytes.word32 header.length ++ (Bytes.word16 header.type ++ (Bytes.word16 header.flags ++
        Bytes.word32 header.sequence))) ++ (Bytes.word32 header.port ++ body) := by
    simp only [h, Header.bytes, List.append_assoc]
  have hlength : (Bytes.word32 header.port).length = (Bytes.word32 port).length := by
    simp only [Bytes.length_word32]
  have hput := contents_put hcontents hlength
  simp only [List.length_append, Bytes.length_word32, Bytes.length_word16] at hput
  simp only [setPort, hput, Header.bytes, List.append_assoc]

theorem finish_headed (h : draft.contents = header.bytes ++ body)
    (hoversized : draft.oversized = none) (hsize : draft.size < UInt32.size) :
    draft.finish = .ok ({ header with length := UInt32.ofNat draft.size }.bytes ++ body) := by
  rw [Header.bytes, List.append_assoc] at h
  have hfinish := finish_of_contents h (Bytes.length_word32 _) hoversized hsize
  simp only [hfinish, Header.bytes, List.append_assoc]

theorem finish_numbered (h : draft.contents = header.bytes ++ body)
    (hoversized : draft.oversized = none) (hsize : draft.size < UInt32.size)
    (sequence port : UInt32) :
    ((draft.setSequence sequence).setPort port).finish =
      .ok ({ header with length := UInt32.ofNat draft.size, sequence, port }.bytes ++ body) := by
  have hcontents := contents_setPort (contents_setSequence h sequence) port
  have hkept : ((draft.setSequence sequence).setPort port).size = draft.size := by
    rw [setPort, setSequence, size_put, size_put]
  have hfinish := finish_headed hcontents
    (by rw [setPort, setSequence, oversized_put, oversized_put]; exact hoversized)
    (by rw [hkept]; exact hsize)
  rwa [hkept] at hfinish

/-- A request that can be finished carries its number and its sender. -/
theorem header_of_finish_numbered (hheaded : Header.size ≤ draft.size) {sequence port : UInt32}
    {frame : Bytes} (hframe : ((draft.setSequence sequence).setPort port).finish = .ok frame) :
    ∃ header rest, Header.take? frame = some (header, rest) ∧ header.sequence = sequence ∧
      header.port = port := by
  obtain ⟨header, hcontents⟩ := Header.exists_bytes_append
    (show Header.size ≤ draft.contents.length by rwa [length_contents])
  have hwritable := (finish_eq_ok_iff _).mp ⟨frame, hframe⟩
  rw [setPort, setSequence, oversized_put, oversized_put, size_put, size_put] at hwritable
  rw [finish_numbered hcontents hwritable.1 hwritable.2] at hframe
  cases hframe
  exact ⟨_, _, Header.take?_bytes_append _ _, rfl, rfl⟩

end Draft

end Netlink

end TunnelControl
