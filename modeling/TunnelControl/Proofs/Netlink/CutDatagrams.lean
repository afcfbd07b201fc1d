import TunnelControl.Proofs.Netlink.DumpStream

/-!
Datagrams that are longer than the buffer that receives them. The messages that end in the buffer
are read as they are. A buffer that ends inside a message leaves a length that is wrong, which is an
error; one that ends between two messages, or too early in the header of one, leaves nothing that
tells of the messages behind it.
-/

namespace TunnelControl

namespace Bytes

theorem cut?_take {count size : Nat} {data front rest : Bytes}
    (h : cut? count data = some (front, rest)) (hsize : count ≤ size) :
    cut? count (data.take size) = some (front, rest.take (size - count)) := by
  obtain ⟨rfl, hfront⟩ := eq_append_of_cut? h
  have htake : (front ++ rest).take size = front ++ rest.take (size - count) := by
    rw [List.take_append, hfront, List.take_of_length_le (by omega)]
  rw [htake]
  exact cut?_append hfront _

end Bytes

namespace Netlink

namespace Header

theorem take?_take {data rest : Bytes} {header : Header} {count : Nat}
    (h : take? data = some (header, rest)) (hcount : size ≤ count) :
    take? (data.take count) = some (header, rest.take (count - size)) := by
  obtain rfl := eq_append_of_take? h
  have htake : (header.bytes ++ rest).take count = header.bytes ++ rest.take (count - size) := by
    rw [List.take_append, length_bytes, List.take_of_length_le (by rwa [length_bytes])]
  rw [htake, take?_bytes_append]

end Header

namespace Message

theorem ofDatagram_take_of_lt {size : Nat} (h : size < Header.size) (data : Bytes) :
    ofDatagram (data.take size) = [] := by
  apply ofDatagram_of_lt
  rw [List.length_take]
  omega

/-- A buffer keeps the messages that end in it. Either nothing tells of those that are lost, or the
wrong length of the first of them does. -/
theorem ofDatagram_take (size : Nat) (data : Bytes) :
    (∃ lost, ofDatagram data = ofDatagram (data.take size) ++ lost) ∨
      ∃ kept lost fault, ofDatagram data = kept ++ lost ∧
        ofDatagram (data.take size) = kept ++ [.error fault] := by
  fun_induction ofDatagram data generalizing size with
  | case1 data hnone =>
      have hlength := (Header.take?_eq_none_iff data).mp hnone
      have hkept : ofDatagram (data.take size) = [] := by
        apply ofDatagram_of_lt
        rw [List.length_take]
        omega
      exact .inl ⟨[], by rw [hkept]; rfl⟩
  | case2 data header rest htake _ length hsize =>
      rcases Nat.lt_or_ge size Header.size with hheader | hheader
      · exact .inl ⟨_, by rw [ofDatagram_take_of_lt hheader]; rfl⟩
      · have hcut := Header.take?_take htake hheader
        rw [ofDatagram_of_take? hcut, if_pos hsize]
        exact .inr ⟨[], _, _, rfl, rfl⟩
  | case3 data header rest htake _ length hsize hnone =>
      rcases Nat.lt_or_ge size Header.size with hheader | hheader
      · exact .inl ⟨_, by rw [ofDatagram_take_of_lt hheader]; rfl⟩
      · have hcut := Header.take?_take htake hheader
        have hlost : Bytes.cut? (length - Header.size) (rest.take (size - Header.size)) = none := by
          rw [Bytes.cut?_eq_none_iff] at hnone ⊢
          rw [List.length_take]
          omega
        rw [ofDatagram_of_take? hcut, if_neg hsize, hlost]
        exact .inr ⟨[], _, _, rfl, rfl⟩
  | case4 data header rest htake _ length hsize payload behind hpayload ih =>
      rcases Nat.lt_or_ge size Header.size with hheader | hheader
      · exact .inl ⟨_, by rw [ofDatagram_take_of_lt hheader]; rfl⟩
      · have hcut := Header.take?_take htake hheader
        rcases Nat.lt_or_ge size length with hcutoff | hwhole
        · have hlost :
              Bytes.cut? (length - Header.size) (rest.take (size - Header.size)) = none := by
            rw [Bytes.cut?_eq_none_iff, List.length_take]
            omega
          rw [ofDatagram_of_take? hcut, if_neg hsize, hlost]
          exact .inr ⟨[], _, _, rfl, rfl⟩
        · have hmessage := Bytes.cut?_take hpayload (Nat.sub_le_sub_right hwhole Header.size)
          rw [ofDatagram_of_take? hcut, if_neg hsize, hmessage, List.drop_take]
          rcases ih (size - Header.size - (Bytes.align length - Header.size)) with
            ⟨lost, hlost⟩ | ⟨kept, lost, fault, hdata, hkept⟩
          · exact .inl ⟨lost, congrArg (.ok ⟨header, payload⟩ :: ·) hlost⟩
          · exact .inr ⟨.ok ⟨header, payload⟩ :: kept, lost, fault,
              congrArg (.ok ⟨header, payload⟩ :: ·) hdata,
              congrArg (.ok ⟨header, payload⟩ :: ·) hkept⟩

/-- A buffer of this size loses messages of the datagram, and nothing that it keeps tells so. -/
def LostUnseen (size : Nat) (data : Bytes) : Prop :=
  ∃ lost, lost ≠ [] ∧ ofDatagram data = ofDatagram (data.take size) ++ lost

theorem not_lostUnseen_of_le {size : Nat} {data : Bytes} (h : data.length ≤ size) :
    ¬ LostUnseen size data := by
  rintro ⟨lost, hlost, hdata⟩
  rw [List.take_of_length_le h] at hdata
  exact hlost (List.self_eq_append_right.mp hdata)

section

variable {size : Nat} {front back : List Message} {next : Message}

theorem ofDatagram_take_packet (hfront : ∀ message ∈ front, message.Framed)
    (hleast : (packet front).length ≤ size)
    (hmost : size < (packet front).length + Header.size) :
    ofDatagram ((packet (front ++ next :: back)).take size) = front.map .ok := by
  have hcut : (packet (front ++ next :: back)).take size =
      packet front ++ (packet (next :: back)).take (size - (packet front).length) := by
    rw [packet, List.flatMap_append, List.take_append, ← packet, ← packet,
      List.take_of_length_le hleast]
  rw [hcut, ofDatagram_packet_append hfront, ofDatagram_take_of_lt (by omega), List.append_nil]

theorem lostUnseen_packet (hframed : ∀ message ∈ front ++ next :: back, message.Framed)
    (hleast : (packet front).length ≤ size)
    (hmost : size < (packet front).length + Header.size) :
    LostUnseen size (packet (front ++ next :: back)) := by
  have hfront : ∀ message ∈ front, message.Framed :=
    fun message hmem => hframed message (List.mem_append_left _ hmem)
  refine ⟨(next :: back).map .ok, nofun, ?_⟩
  rw [ofDatagram_take_packet hfront hleast hmost, ofDatagram_packet hframed, List.map_append]

end

end Message

/-! Listening through the buffer. -/

section

variable {σ α : Type} {listener : Listener σ α} {sequence : UInt32} {size : Nat}

theorem Listener.Hears.exists_datagrams {state : σ} {heard : List Arrival} {result : α}
    (h : listener.Hears sequence size state heard (.ok result)) :
    ∃ datagrams : List Bytes, heard = datagrams.map .datagram := by
  generalize houtcome : Except.ok result = outcome at h
  induction h with
  | @decided state arrival outcome hheard =>
      subst houtcome
      cases arrival with
      | datagram data => exact ⟨[data], rfl⟩
      | failure errno => cases hheard
  | @undecided state next arrival heard outcome hheard _ ih =>
      obtain ⟨datagrams, rfl⟩ := ih houtcome
      cases arrival with
      | datagram data => exact ⟨data :: datagrams, rfl⟩
      | failure errno => cases hheard

theorem Listener.hear_of_append_error {state : σ} {kept : List (Except Error Message)}
    {fault : Error} {progress : Progress σ α}
    (h : listener.hear sequence state (kept ++ [.error fault]) = .ok progress) :
    ∃ result, progress = .done result ∧ listener.hear sequence state kept = .ok (.done result) := by
  cases hkept : listener.hear sequence state kept with
  | error error =>
      have hfailed : listener.hear sequence state kept =
          (.error error : Except Error α).map .done := hkept
      rw [hear_append_of_done hfailed] at h
      cases h
  | ok reached =>
      cases reached with
      | more next =>
          rw [hear_append_of_more hkept] at h
          cases h
      | done result =>
          have hended : listener.hear sequence state kept =
              (.ok result : Except Error α).map .done := hkept
          rw [hear_append_of_done hended] at h
          cases h
          exact ⟨result, rfl, rfl⟩

/-- A datagram without unseen losses says no less than what the buffer keeps of it. -/
theorem Listener.hear_whole {state : σ} {data : Bytes} {progress : Progress σ α}
    (hseen : ¬ Message.LostUnseen size data)
    (h : listener.hear sequence state (Message.ofDatagram (data.take size)) = .ok progress) :
    listener.hear sequence state (Message.ofDatagram data) = .ok progress := by
  rcases Message.ofDatagram_take size data with ⟨lost, hlost⟩ | ⟨kept, lost, fault, hlost, hkept⟩
  · cases lost with
    | nil => rwa [hlost, List.append_nil]
    | cons next lost => exact absurd ⟨next :: lost, nofun, hlost⟩ hseen
  · rw [hkept] at h
    obtain ⟨result, rfl, hdone⟩ := hear_of_append_error h
    have hended : listener.hear sequence state kept =
        (.ok result : Except Error α).map .done := hdone
    rw [hlost]
    exact hear_append_of_done hended lost

theorem Listener.Hears.hear_whole {state : σ} {datagrams : List Bytes} {result : α}
    (h : listener.Hears sequence size state (datagrams.map .datagram) (.ok result))
    (hseen : ∀ data ∈ datagrams, ¬ Message.LostUnseen size data) :
    listener.hear sequence state (datagrams.flatMap Message.ofDatagram) = .ok (.done result) := by
  generalize hheard : datagrams.map Arrival.datagram = heard at h
  generalize houtcome : Except.ok result = outcome at h
  induction h generalizing datagrams with
  | @decided state arrival outcome hdecided =>
      subst houtcome
      obtain ⟨data, rfl, rfl⟩ := List.map_eq_singleton_iff.mp hheard
      rw [List.flatMap_singleton]
      exact Listener.hear_whole (hseen data List.mem_cons_self) hdecided
  | @undecided state next arrival heard outcome hmore _ ih =>
      obtain ⟨data, rest, rfl, rfl, rfl⟩ := List.map_eq_cons_iff.mp hheard
      obtain ⟨hfirst, hrest⟩ := List.forall_mem_cons.mp hseen
      rw [List.flatMap_cons, hear_append_of_more (Listener.hear_whole hfirst hmore)]
      exact ih hrest rfl houtcome

end

namespace Dump

/-- What a dump is to make of a stream: the payloads before its first end. -/
def Collects (sequence : UInt32) (items : List (Except Error Message)) (payloads : List Bytes) :
    Prop :=
  ∃ front final back, items = front ++ final :: back ∧
    (∀ earlier ∈ front, Passes sequence earlier) ∧ IsEnd sequence final ∧
    payloads = front.filterMap (payload? sequence)

theorem exists_end_of_hear {sequence : UInt32} {items : List (Except Error Message)}
    {before payloads : List Bytes}
    (h : Socket.collection.hear sequence before items = .ok (.done payloads)) :
    ∃ front final back, items = front ++ final :: back ∧
      (∀ earlier ∈ front, Passes sequence earlier) ∧ IsEnd sequence final ∧
      payloads = before.reverse ++ front.filterMap (payload? sequence) := by
  induction items generalizing before with
  | nil => cases h
  | cons item items ih =>
      by_cases hend : IsEnd sequence item
      · rw [hear_of_isEnd hend] at h
        cases h
        exact ⟨[], item, items, rfl, nofun, hend, (List.append_nil _).symm⟩
      · cases hfault : fault? sequence item with
        | some error =>
            rw [hear_of_fault hfault] at h
            cases h
        | none =>
            have hitem : Passes sequence item := ⟨hend, hfault⟩
            rw [hear_of_passes hitem] at h
            obtain ⟨front, final, back, rfl, hfront, hfinal, rfl⟩ := ih h
            refine ⟨item :: front, final, back, rfl, List.forall_mem_cons.mpr ⟨hitem, hfront⟩,
              hfinal, ?_⟩
            cases hpayload : payload? sequence item <;> simp [hpayload]

theorem collects_iff {sequence : UInt32} {items : List (Except Error Message)}
    {payloads : List Bytes} :
    Collects sequence items payloads ↔
      Socket.collection.hear sequence [] items = .ok (.done payloads) := by
  constructor
  · rintro ⟨front, final, back, rfl, hfront, hfinal, rfl⟩
    rw [hear_append_of_passes hfront, hear_of_isEnd hfinal, List.append_nil, List.reverse_reverse]
  · exact exists_end_of_hear

theorem Collects.unique {sequence : UInt32} {items : List (Except Error Message)}
    {left right : List Bytes} (hleft : Collects sequence items left)
    (hright : Collects sequence items right) : left = right := by
  have hsame := (collects_iff.mp hleft).symm.trans (collects_iff.mp hright)
  injection hsame with hdone
  injection hdone

end Dump

namespace Socket

open Arrival

variable {draft : Draft} {socket after : Socket} {payloads : List Bytes}

theorem run_dump_eq_ok_iff {frame : Bytes} (hframe : (socket.stamped draft).finish = .ok frame)
    (hsend : socket.sends.headD 0 = 0) :
    ((dump draft).run socket).1 = .ok payloads ↔
      Dump.Collects socket.sequence (socket.incoming frame) payloads := by
  rw [Dump.collects_iff, hear_incoming socket hframe hsend]
  exact ⟨fun h => congrArg (Except.map Progress.done) h, fun h => Progress.map_done_inj h⟩

section

variable {frame : Bytes} {front back : List Message} {next final : Message}

theorem run_dump_of_cut (hframe : (socket.stamped draft).finish = .ok frame)
    (hsend : socket.sends.headD 0 = 0) (hfront : ∀ message ∈ front, message.Framed)
    (hleast : (Message.packet front).length ≤ socket.bufferSize)
    (hmost : socket.bufferSize < (Message.packet front).length + Header.size)
    (hpasses : ∀ message ∈ front, Dump.Passes socket.sequence (.ok message))
    (hfinal : final.Framed) (hsize : (Message.packet [final]).length ≤ socket.bufferSize)
    (hend : Dump.IsEnd socket.sequence (.ok final)) :
    ((dump draft).run
        (socket.offered [Message.packet (front ++ next :: back), Message.packet [final]])).1 =
      .ok (front.filterMap fun message => Dump.payload? socket.sequence (.ok message)) := by
  let offer := socket.offered [Message.packet (front ++ next :: back), Message.packet [final]]
  have hincoming : offer.incoming frame =
      front.map .ok ++ .ok final :: [.error (.io Errno.wouldBlock)] := by
    have hlast : Message.ofDatagram ((Message.packet [final]).take socket.bufferSize) =
        [.ok final] := by
      rw [List.take_of_length_le hsize,
        Message.ofDatagram_packet (List.forall_mem_singleton.mpr hfinal)]
      rfl
    have hqueue : offer.incoming frame =
        stream socket.bufferSize
            [.datagram (Message.packet (front ++ next :: back)),
              .datagram (Message.packet [final])] ++
          [.error (.io Errno.wouldBlock)] := rfl
    rw [hqueue, stream, List.flatMap_cons, List.flatMap_singleton, items, items,
      Message.ofDatagram_take_packet hfront hleast hmost, hlast, List.append_assoc]
    rfl
  have hwritten : (offer.stamped draft).finish = .ok frame := hframe
  have hfree : offer.sends.headD 0 = 0 := hsend
  have hearlier : ∀ earlier ∈ front.map .ok, Dump.Passes socket.sequence earlier :=
    List.forall_mem_map.mpr hpasses
  refine (run_dump_eq_ok_iff hwritten hfree).mpr ⟨_, _, _, hincoming, hearlier, hend, ?_⟩
  rw [List.filterMap_map]
  rfl

end

/-- A dump that succeeds returns the payloads of the messages that its buffer kept. They are those
of the whole datagrams that it received, unless messages of one of them were lost unseen. -/
theorem dump_ok_of_cut (h : (dump draft).run socket = (.ok payloads, after)) :
    ∃ (frame : Bytes) (datagrams : List Bytes), (socket.stamped draft).finish = .ok frame ∧
      socket.arrivals ++ socket.answer frame = datagrams.map .datagram ++ after.arrivals ∧
      Dump.Collects socket.sequence
        (datagrams.flatMap fun data => Message.ofDatagram (data.take socket.bufferSize))
        payloads ∧
      ((∀ data ∈ datagrams, ¬ Message.LostUnseen socket.bufferSize data) →
        Dump.Collects socket.sequence (datagrams.flatMap Message.ofDatagram) payloads) := by
  obtain ⟨sent, heard, outcome, other, hasked⟩ := exists_asked draft collection [] socket
  rw [dump_eq_ask, hasked.run] at h
  cases h
  cases hasked with
  | @sent frame heard rest _ hframe hsend hsupplied hhears =>
      obtain ⟨datagrams, rfl⟩ := hhears.exists_datagrams
      have hkept := hhears.hear_stream
      rw [stream, List.flatMap_map] at hkept
      refine ⟨frame, datagrams, hframe, hsupplied.eq_append_of_datagrams,
        Dump.collects_iff.mpr hkept, fun hseen => ?_⟩
      exact Dump.collects_iff.mpr (hhears.hear_whole hseen)

theorem dump_ok_of_cut_between_messages :
    let first : Message := ⟨⟨4096, 16, 2, 1, 0⟩, List.replicate 4080 0⟩
    let second : Message := ⟨⟨20, 16, 2, 1, 0⟩, [1, 2, 3, 4]⟩
    let final : Message := ⟨⟨20, 3, 2, 1, 0⟩, [0, 0, 0, 0]⟩
    let datagrams := [Message.packet [first, second], Message.packet [final]]
    let socket := (({ port := 7 } : Socket).withBuffer 4096).offered datagrams
    ∃ after, (dump (.dump 18)).run socket = (.ok [first.payload], after) ∧
      Message.LostUnseen 4096 (Message.packet [first, second]) ∧
      ¬ Message.LostUnseen 4096 (Message.packet [final]) ∧
      Dump.Collects 1 (datagrams.flatMap Message.ofDatagram) [first.payload, second.payload] ∧
      ¬ Dump.Collects 1 (datagrams.flatMap Message.ofDatagram) [first.payload] ∧
      ∃ received : List Bytes,
        datagrams.map .datagram = received.map .datagram ++ after.arrivals ∧
        Dump.Collects 1 (received.flatMap fun data => Message.ofDatagram (data.take 4096))
          [first.payload] := by
  intro first second final datagrams socket
  have hframed : ∀ message ∈ [first, second], message.Framed := by decide +kernel
  obtain ⟨hfirst, -⟩ := List.forall_mem_cons.mp hframed
  have hfinal : final.Framed := by decide
  have hlength : (Message.packet [first]).length = 4096 := by decide +kernel
  have hleast : (Message.packet [first]).length ≤ 4096 := Nat.le_of_eq hlength
  have hmost : 4096 < (Message.packet [first]).length + Header.size := by
    rw [hlength]
    decide
  have hpasses : ∀ message ∈ [first, second], Dump.Passes 1 (.ok message) := by
    refine List.forall_mem_cons.mpr ⟨⟨?_, rfl⟩, List.forall_mem_singleton.mpr ⟨?_, rfl⟩⟩
    · exact fun hend => absurd hend.2 (by decide)
    · exact fun hend => absurd hend.2 (by decide)
  have hframe : ((({ port := 7 } : Socket).withBuffer 4096).stamped (.dump 18)).finish =
      .ok [16, 0, 0, 0, 18, 0, 1, 3, 1, 0, 0, 0, 7, 0, 0, 0] := by cbv
  have hresult : ((dump (.dump 18)).run socket).1 = .ok [first.payload] :=
    @run_dump_of_cut _ _ _ [first] [] second final hframe rfl
      (List.forall_mem_singleton.mpr hfirst) hleast hmost
      (List.forall_mem_singleton.mpr (hpasses first List.mem_cons_self)) hfinal (by decide)
      ⟨rfl, rfl⟩
  obtain ⟨after, hrun⟩ : ∃ after, (dump (.dump 18)).run socket = (.ok [first.payload], after) := by
    cases hrun : (dump (.dump 18)).run socket with
    | mk outcome after =>
        rw [hrun] at hresult
        exact ⟨after, congrArg (·, after) hresult⟩
  have hwhole : Dump.Collects 1 (datagrams.flatMap Message.ofDatagram)
      [first.payload, second.payload] := by
    refine ⟨[.ok first, .ok second], .ok final, [], ?_, List.forall_mem_map.mpr hpasses,
      ⟨rfl, rfl⟩, rfl⟩
    rw [List.flatMap_cons, List.flatMap_singleton, Message.ofDatagram_packet hframed,
      Message.ofDatagram_packet (List.forall_mem_singleton.mpr hfinal)]
    rfl
  obtain ⟨frame, received, -, harrivals, hcollects, -⟩ := dump_ok_of_cut hrun
  refine ⟨after, hrun, @Message.lostUnseen_packet _ [first] [] second hframed hleast hmost,
    Message.not_lostUnseen_of_le (by decide), hwhole, ?_, received, harrivals, hcollects⟩
  intro hlost
  exact absurd (congrArg List.length (hwhole.unique hlost)) (by decide)

end Socket

end Netlink

end TunnelControl
