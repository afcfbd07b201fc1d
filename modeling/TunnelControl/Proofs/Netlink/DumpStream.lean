import TunnelControl.Proofs.Netlink.Asking

namespace TunnelControl.Netlink

namespace Dump

variable (sequence : UInt32)

def fault? : Except Error Message → Option Error
  | .error error => some error
  | .ok ⟨header, payload⟩ =>
      if header.sequence = sequence ∧ header.type = MessageType.verdict then
        Verdict.refusal? payload
      else none

def IsEnd : Except Error Message → Prop
  | .error _ => False
  | .ok ⟨header, _⟩ => header.sequence = sequence ∧ header.type = MessageType.done

def payload? : Except Error Message → Option Bytes
  | .error _ => none
  | .ok ⟨header, payload⟩ =>
      if header.sequence = sequence ∧ header.type ≠ MessageType.verdict ∧
          header.type ≠ MessageType.done then
        some payload
      else none

/-- The dump goes on behind the item. -/
def Passes (item : Except Error Message) : Prop :=
  ¬ IsEnd sequence item ∧ fault? sequence item = none

variable {sequence} {item : Except Error Message}

theorem hear_of_fault {error : Error} (h : fault? sequence item = some error)
    (payloads : List Bytes) (rest : List (Except Error Message)) :
    Socket.collection.hear sequence payloads (item :: rest) = .error error := by
  cases item with
  | error fault =>
      cases h
      rfl
  | ok message =>
      obtain ⟨header, payload⟩ := message
      rw [fault?] at h
      split at h
      next hverdict =>
        have hheader : header.isVerdict = true := decide_eq_true hverdict.2
        simp only [Listener.hear, Socket.collection, if_pos hverdict.1, if_pos hheader, pure,
          Except.pure, Verdict.read_bind_check, h]
      next => cases h

theorem hear_of_isEnd (h : IsEnd sequence item) (payloads : List Bytes)
    (rest : List (Except Error Message)) :
    Socket.collection.hear sequence payloads (item :: rest) = .ok (.done payloads.reverse) := by
  cases item with
  | error fault => cases h
  | ok message =>
      obtain ⟨header, payload⟩ := message
      obtain ⟨hsequence, htype⟩ := h
      have hverdict : header.isVerdict = false := by
        rw [Header.isVerdict, htype]
        rfl
      have hdone : header.isDone = true := decide_eq_true htype
      simp only [Listener.hear, Socket.collection, if_pos hsequence, hverdict, if_pos hdone]
      rfl

theorem hear_of_passes (h : Passes sequence item) (payloads : List Bytes)
    (rest : List (Except Error Message)) :
    Socket.collection.hear sequence payloads (item :: rest) =
      Socket.collection.hear sequence ((payload? sequence item).toList ++ payloads) rest := by
  obtain ⟨hend, hfault⟩ := h
  cases item with
  | error fault => cases hfault
  | ok message =>
      obtain ⟨header, payload⟩ := message
      by_cases hsequence : header.sequence = sequence
      · by_cases hverdict : header.type = MessageType.verdict
        · have hheader : header.isVerdict = true := decide_eq_true hverdict
          rw [fault?, if_pos ⟨hsequence, hverdict⟩] at hfault
          rw [payload?, if_neg fun hdata => hdata.2.1 hverdict]
          simp only [Listener.hear, Socket.collection, if_pos hsequence, if_pos hheader, pure,
            Except.pure, Verdict.read_bind_check, hfault]
          rfl
        · have hheader : header.isVerdict = false := decide_eq_false hverdict
          have hdone : header.type ≠ MessageType.done := fun htype => hend ⟨hsequence, htype⟩
          have hgoes : header.isDone = false := decide_eq_false hdone
          rw [payload?, if_pos ⟨hsequence, hverdict, hdone⟩]
          simp only [Listener.hear, Socket.collection, if_pos hsequence, hheader, hgoes]
          rfl
      · rw [payload?, if_neg fun hdata => hsequence hdata.1]
        simp only [Listener.hear, if_neg hsequence]
        rfl

theorem hear_append_of_passes {front : List (Except Error Message)}
    (h : ∀ earlier ∈ front, Passes sequence earlier) (payloads : List Bytes)
    (rest : List (Except Error Message)) :
    Socket.collection.hear sequence payloads (front ++ rest) =
      Socket.collection.hear sequence
        ((front.filterMap (payload? sequence)).reverse ++ payloads) rest := by
  induction front generalizing payloads with
  | nil => rfl
  | cons item front ih =>
      obtain ⟨hitem, hfront⟩ := List.forall_mem_cons.mp h
      rw [List.cons_append, hear_of_passes hitem, ih hfront]
      cases hpayload : payload? sequence item <;> simp [hpayload]

/-- A stream that ends with a failure has a first item that does not pass. -/
theorem exists_first_decisive (items : List (Except Error Message)) (error : Error) :
    ∃ front item back, items ++ [.error error] = front ++ item :: back ∧
      (∀ earlier ∈ front, Passes sequence earlier) ∧ ¬ Passes sequence item := by
  induction items with
  | nil => exact ⟨[], .error error, [], rfl, nofun, fun hpasses => nomatch hpasses.2⟩
  | cons first items ih =>
      by_cases hfirst : Passes sequence first
      · obtain ⟨front, item, back, hitems, hfront, hitem⟩ := ih
        refine ⟨first :: front, item, back, ?_, List.forall_mem_cons.mpr ⟨hfirst, hfront⟩, hitem⟩
        rw [List.cons_append, hitems, List.cons_append]
      · exact ⟨[], first, items ++ [.error error], rfl, nofun, hfirst⟩

end Dump

namespace Socket

open Arrival

def incoming (socket : Socket) (frame : Bytes) : List (Except Error Message) :=
  stream socket.bufferSize (socket.arrivals ++ socket.answer frame) ++
    [.error (.io Errno.wouldBlock)]

def offered (socket : Socket) (datagrams : List Bytes) : Socket :=
  { socket with
    arrivals := datagrams.map .datagram
    answer := fun _ => [] }

variable {draft : Draft} {frame : Bytes}

theorem hear_incoming_of_ask {σ α : Type} (listener : Listener σ α) (state : σ) (socket : Socket)
    (hframe : (socket.stamped draft).finish = .ok frame) (hsend : socket.sends.headD 0 = 0) :
    listener.hear socket.sequence state (socket.incoming frame) =
      ((ask draft listener state).run socket).1.map .done := by
  rw [run_ask_of_sent hframe hsend, incoming]
  exact hear_stream_eq listener socket.sequence
    { socket.handed frame 0 with arrivals := socket.arrivals ++ socket.answer frame } state
    (socket.arrivals ++ socket.answer frame)

theorem hear_incoming (socket : Socket) (hframe : (socket.stamped draft).finish = .ok frame)
    (hsend : socket.sends.headD 0 = 0) :
    collection.hear socket.sequence [] (socket.incoming frame) =
      ((dump draft).run socket).1.map .done :=
  hear_incoming_of_ask collection [] socket hframe hsend

variable {socket : Socket}

theorem stream_packets {size : Nat} {packets : List (List Message)}
    (hframed : ∀ message ∈ packets.flatten, message.Framed)
    (hsize : ∀ messages ∈ packets, (Message.packet messages).length ≤ size) :
    stream size ((packets.map Message.packet).map .datagram) = packets.flatten.map .ok := by
  induction packets with
  | nil => rfl
  | cons messages packets ih =>
      rw [List.flatten_cons, List.forall_mem_append] at hframed
      obtain ⟨hfirst, hrest⟩ := List.forall_mem_cons.mp hsize
      have hwhole : (Message.packet messages).take size = Message.packet messages :=
        List.take_of_length_le hfirst
      rw [List.map_cons, List.map_cons, stream, List.flatMap_cons, items, hwhole,
        Message.ofDatagram_packet hframed.1, List.flatten_cons, List.map_append]
      exact congrArg _ (ih hframed.2 hrest)

theorem incoming_offered {packets : List (List Message)}
    (hframed : ∀ message ∈ packets.flatten, message.Framed)
    (hsize : ∀ messages ∈ packets, (Message.packet messages).length ≤ socket.bufferSize) :
    (socket.offered (packets.map Message.packet)).incoming frame =
      packets.flatten.map .ok ++ [.error (.io Errno.wouldBlock)] := by
  rw [incoming, offered]
  dsimp only
  rw [List.append_nil, stream_packets hframed hsize]

/-- The first item of the stream that does not pass decides the result of a dump, however the
stream is packed into datagrams. -/
theorem dump_follows_stream (hframe : (socket.stamped draft).finish = .ok frame)
    (hsend : socket.sends.headD 0 = 0) :
    (∃ front item back, socket.incoming frame = front ++ item :: back ∧
      (∀ earlier ∈ front, Dump.Passes socket.sequence earlier) ∧
      ¬ Dump.Passes socket.sequence item) ∧
    (∀ front item back, socket.incoming frame = front ++ item :: back →
      (∀ earlier ∈ front, Dump.Passes socket.sequence earlier) →
        (Dump.IsEnd socket.sequence item →
          ((dump draft).run socket).1 =
            .ok (front.filterMap (Dump.payload? socket.sequence))) ∧
        ∀ error, Dump.fault? socket.sequence item = some error →
          ((dump draft).run socket).1 = .error error) ∧
    ∀ left right : List (List Message), left.flatten = right.flatten →
      (∀ message ∈ left.flatten, message.Framed) →
      (∀ messages ∈ left ++ right, (Message.packet messages).length ≤ socket.bufferSize) →
        ((dump draft).run (socket.offered (left.map Message.packet))).1 =
          ((dump draft).run (socket.offered (right.map Message.packet))).1 := by
  refine ⟨Dump.exists_first_decisive _ _, ?_, ?_⟩
  · intro front item back hincoming hfront
    have hheard := hear_incoming socket hframe hsend
    rw [hincoming, Dump.hear_append_of_passes hfront, List.append_nil] at hheard
    refine ⟨fun hend => ?_, fun error hfault => ?_⟩
    · rw [Dump.hear_of_isEnd hend, List.reverse_reverse] at hheard
      refine Progress.map_done_inj (hheard.symm.trans ?_)
      rfl
    · rw [Dump.hear_of_fault hfault] at hheard
      refine Progress.map_done_inj (hheard.symm.trans ?_)
      rfl
  · intro left right hflatten hframed hsize
    obtain ⟨hleft, hright⟩ := List.forall_mem_append.mp hsize
    have hoffered : ∀ datagrams,
        collection.hear socket.sequence [] ((socket.offered datagrams).incoming frame) =
          ((dump draft).run (socket.offered datagrams)).1.map .done :=
      fun datagrams => hear_incoming (socket.offered datagrams) hframe hsend
    apply Progress.map_done_inj
    rw [← hoffered, ← hoffered, incoming_offered hframed hleft,
      incoming_offered (hflatten ▸ hframed) hright, hflatten]

theorem dump_follows_stream_past_foreign_end :
    let foreign : Message := ⟨⟨20, 3, 2, 9, 0⟩, [0, 0, 0, 0]⟩
    let link : Message := ⟨⟨20, 16, 2, 1, 0⟩, [1, 2, 3, 4]⟩
    let final : Message := ⟨⟨20, 3, 2, 1, 0⟩, [0, 0, 0, 0]⟩
    let left := [[foreign, link], [final]]
    let right := [[foreign], [link, final]]
    let frame : Bytes := [16, 0, 0, 0, 18, 0, 1, 3, 1, 0, 0, 0, 7, 0, 0, 0]
    let socket := ({ port := 7 } : Socket).offered (left.map Message.packet)
    (socket.stamped (.dump 18)).finish = .ok frame ∧ socket.sends.headD 0 = 0 ∧
      socket.incoming frame =
        [.ok foreign, .ok link] ++ .ok final :: [.error (.io Errno.wouldBlock)] ∧
      (∀ earlier ∈ [.ok foreign, .ok link], Dump.Passes 1 earlier) ∧ Dump.IsEnd 1 (.ok final) ∧
      left.flatten = right.flatten ∧ (∀ message ∈ left.flatten, message.Framed) ∧
      (∀ messages ∈ left ++ right, (Message.packet messages).length ≤ socket.bufferSize) ∧
      ((dump (.dump 18)).run socket).1 = .ok [[1, 2, 3, 4]] ∧
      ((dump (.dump 18)).run (socket.offered (right.map Message.packet))).1 =
        .ok [[1, 2, 3, 4]] := by
  intro foreign link final left right frame socket
  have hframe : (socket.stamped (.dump 18)).finish = .ok frame := by cbv
  have hframed : ∀ message ∈ left.flatten, message.Framed := by decide +kernel
  have hsize : ∀ messages ∈ left ++ right,
      (Message.packet messages).length ≤ socket.bufferSize := by decide +kernel
  have hincoming : socket.incoming frame =
      [.ok foreign, .ok link] ++ .ok final :: [.error (.io Errno.wouldBlock)] :=
    incoming_offered hframed fun messages hmem => hsize messages (List.mem_append_left _ hmem)
  have hpasses : ∀ earlier ∈ [.ok foreign, .ok link], Dump.Passes 1 earlier := by
    refine List.forall_mem_cons.mpr ⟨⟨?_, rfl⟩, List.forall_mem_singleton.mpr ⟨?_, rfl⟩⟩
    · exact fun hend => absurd hend.1 (by decide)
    · exact fun hend => absurd hend.2 (by decide)
  obtain ⟨-, hstream, hpackings⟩ := dump_follows_stream hframe rfl
  have hresult := (hstream _ _ _ hincoming hpasses).1 ⟨rfl, rfl⟩
  have hsame := hpackings left right rfl hframed hsize
  exact ⟨hframe, rfl, hincoming, hpasses, ⟨rfl, rfl⟩, rfl, hframed, hsize, hresult,
    hsame.symm.trans hresult⟩

end Socket

end TunnelControl.Netlink
