import TunnelControl.Proofs.Netlink.DumpStream
import TunnelControl.Proofs.Netlink.Session

/-!
Answers that do not depend on the number of a request or on who sent it. What a listener concludes
from them is the same under every number, however they are packed into datagrams and whatever is
left in the queue before them.
-/

namespace TunnelControl

open Netlink

namespace Netlink

namespace Message

def isAcknowledgement (message : Message) : Bool :=
  message.header.isVerdict && (Verdict.refusal? message.payload).isNone

def substance (messages : List Message) : List Message :=
  messages.filter (!·.isAcknowledgement)

/-- The message says the same as the other under a number of its own. A verdict repeats the request
that it is on, so nothing counts in it but its size and its status. -/
structure Restates (message other : Message) : Prop where
  type : message.header.type = other.header.type
  length : message.payload.length = other.payload.length
  status : message.payload.take 4 = other.payload.take 4
  payload : other.header.isVerdict = false → message.payload = other.payload

variable {message other : Message}

theorem Restates.isVerdict_eq (h : message.Restates other) :
    message.header.isVerdict = other.header.isVerdict := by
  rw [Header.isVerdict, h.type, ← Header.isVerdict]

theorem Restates.isDone_eq (h : message.Restates other) :
    message.header.isDone = other.header.isDone := by
  rw [Header.isDone, h.type, ← Header.isDone]

theorem Restates.statusOf_eq (h : message.Restates other) :
    Verdict.statusOf message.payload = Verdict.statusOf other.payload := by
  rw [Verdict.statusOf, h.status, ← Verdict.statusOf]

theorem Restates.refusal?_eq (h : message.Restates other) :
    Verdict.refusal? message.payload = Verdict.refusal? other.payload := by
  rw [Verdict.refusal?, h.length, h.statusOf_eq, ← Verdict.refusal?]

theorem isAcknowledgement_iff (message : Message) :
    message.isAcknowledgement = true ↔
      message.header.isVerdict = true ∧ Verdict.refusal? message.payload = none := by
  rw [isAcknowledgement, Bool.and_eq_true, Option.isNone_iff_eq_none]

end Message

namespace Listener

variable {σ α : Type} {listener : Listener σ α}

/-- What the listener makes of a message is the same under every number, and an acknowledgement
leaves it where it was. -/
structure Steady (listener : Listener σ α) : Prop where
  restated : ∀ {message other : Message}, message.Restates other → ∀ state,
    listener state message = listener state other
  acknowledged : ∀ {message : Message}, message.isAcknowledgement = true → ∀ state,
    listener state message = .ok (.more state)

/-- What the listener concludes when it is told these messages and then nothing more. -/
def conclude (listener : Listener σ α) (state : σ) : List Message → Except Error α
  | [] => .error (.io Errno.wouldBlock)
  | message :: rest =>
      match listener state message with
      | .ok (.more next) => listener.conclude next rest
      | .ok (.done result) => .ok result
      | .error error => .error error

theorem Steady.conclude_substance (h : listener.Steady) (state : σ) (messages : List Message) :
    listener.conclude state (Message.substance messages) = listener.conclude state messages := by
  induction messages generalizing state with
  | nil => rfl
  | cons message messages ih =>
      cases hacknowledges : message.isAcknowledgement with
      | true =>
          rw [Message.substance, List.filter_cons_of_neg (by simp [hacknowledges]), conclude,
            h.acknowledged hacknowledges]
          exact ih state
      | false =>
          rw [Message.substance, List.filter_cons_of_pos (by simp [hacknowledges]), conclude,
            conclude]
          cases listener state message with
          | error error => rfl
          | ok progress =>
              cases progress with
              | more next => exact ih next
              | done result => rfl

theorem Steady.conclude_restated (h : listener.Steady) {messages others : List Message}
    (hsame : List.Forall₂ Message.Restates messages others) (state : σ) :
    listener.conclude state messages = listener.conclude state others := by
  induction hsame generalizing state with
  | nil => rfl
  | @cons message other _ _ hfirst _ ih =>
      rw [conclude, conclude, h.restated hfirst]
      cases listener state other with
      | error error => rfl
      | ok progress =>
          cases progress with
          | more next => exact ih next
          | done result => rfl

theorem hear_eq_conclude {sequence : UInt32} {messages : List Message}
    (hown : ∀ message ∈ messages, message.header.sequence = sequence) (state : σ) :
    listener.hear sequence state (messages.map .ok ++ [.error (.io Errno.wouldBlock)]) =
      (listener.conclude state messages).map .done := by
  induction messages generalizing state with
  | nil => rfl
  | cons message messages ih =>
      obtain ⟨hfirst, hrest⟩ := List.forall_mem_cons.mp hown
      rw [List.map_cons, List.cons_append, hear, if_pos hfirst, conclude]
      cases listener state message with
      | error error => rfl
      | ok progress =>
          cases progress with
          | more next => exact ih hrest next
          | done result => rfl

theorem hear_foreign {sequence : UInt32} {messages : List Message}
    (hforeign : ∀ message ∈ messages, message.header.sequence ≠ sequence) (state : σ) :
    listener.hear sequence state (messages.map .ok) = .ok (.more state) := by
  induction messages with
  | nil => rfl
  | cons message messages ih =>
      obtain ⟨hfirst, hrest⟩ := List.forall_mem_cons.mp hforeign
      rw [List.map_cons, hear, if_neg hfirst, ih hrest]

end Listener

namespace Socket

theorem collection_steady : Listener.Steady collection where
  restated := by
    intro message other hsame payloads
    rw [collection, collection, hsame.isVerdict_eq, hsame.isDone_eq]
    cases hverdict : other.header.isVerdict with
    | true => simp only [if_true, pure, Except.pure, Verdict.read_bind_check, hsame.refusal?_eq]
    | false => rw [hsame.payload hverdict]
  acknowledged := by
    intro message hacknowledges payloads
    obtain ⟨hverdict, haccepted⟩ := message.isAcknowledgement_iff.mp hacknowledges
    simp only [collection, if_pos hverdict, pure, Except.pure, Verdict.read_bind_check, haccepted]

end Socket

namespace FamilyInfo

theorem listener_of_isVerdict (name : String) {message : Message}
    (hverdict : message.header.isVerdict = true) :
    listener name () message =
      match Verdict.refusal? message.payload with
      | none => .ok (.more ())
      | some error =>
          if 20 ≤ message.payload.length ∧
              Verdict.statusOf message.payload = -Errno.noEntry then
            .error (.familyNotFound name)
          else .error error := by
  have hdone : message.header.isDone = false := by
    have htype : message.header.type = MessageType.verdict := of_decide_eq_true hverdict
    rw [Header.isDone, htype]
    rfl
  rw [listener, hdone, if_neg Bool.false_ne_true, if_pos hverdict]
  rcases Nat.lt_or_ge message.payload.length 20 with hshort | hlong
  · rw [Verdict.refusal?, if_pos hshort, Verdict.read_of_lt hshort]
    dsimp only
    rw [if_neg fun hmissing => Nat.not_le.mpr hshort hmissing.1]
    rfl
  · obtain ⟨request, hread⟩ := Verdict.read_of_le hlong
    by_cases hmissing : Verdict.statusOf message.payload = -Errno.noEntry
    · have hstatus : Verdict.statusOf message.payload ≠ 0 := by
        rw [hmissing]
        decide
      rw [Verdict.refusal?, if_neg (Nat.not_lt.mpr hlong), if_neg hstatus, hread]
      dsimp only
      rw [if_pos ⟨hlong, hmissing⟩]
      simp only [bind, Except.bind, hmissing, if_true]
      rfl
    · have hchecked := Verdict.read_bind_check message.payload
        (pure (.more ()) : Except Error (Progress Unit FamilyInfo))
      rw [hread] at hchecked ⊢
      refine (Eq.trans ?_ hchecked).trans ?_
      · simp only [bind, Except.bind, hmissing, if_false]
      · cases Verdict.refusal? message.payload with
        | none => rfl
        | some error => exact (if_neg fun hboth => hmissing hboth.2).symm

theorem listener_steady (name : String) : Listener.Steady (listener name) where
  restated := by
    intro message other hsame state
    cases hverdict : other.header.isVerdict with
    | true =>
        rw [listener_of_isVerdict name hverdict,
          listener_of_isVerdict name (hsame.isVerdict_eq.trans hverdict), hsame.refusal?_eq,
          hsame.length, hsame.statusOf_eq]
    | false =>
        rw [listener, listener, hsame.isVerdict_eq, hsame.isDone_eq, hsame.payload hverdict]
  acknowledged := by
    intro message hacknowledges state
    obtain ⟨hverdict, haccepted⟩ := message.isAcknowledgement_iff.mp hacknowledges
    rw [listener_of_isVerdict name hverdict, haccepted]

end FamilyInfo

/-! Kernels that answer a frame by what it asks for. -/

def unmarked (frame : Bytes) : Bytes :=
  frame.take 8 ++ (List.replicate 8 0 ++ frame.drop 16)

theorem unmarked_bytes_append (header : Header) (rest : Bytes) :
    unmarked (header.bytes ++ rest) =
      Header.bytes { header with sequence := 0, port := 0 } ++ rest := by
  let front : Bytes :=
    Bytes.word32 header.length ++ (Bytes.word16 header.type ++ Bytes.word16 header.flags)
  let mark : Bytes := Bytes.word32 header.sequence ++ Bytes.word32 header.port
  have hsplit : header.bytes ++ rest = front ++ (mark ++ rest) := by
    simp only [Header.bytes, front, mark, List.append_assoc]
  have hfront : front.length = 8 := by
    simp only [front, List.length_append, Bytes.length_word32, Bytes.length_word16]
  have hmark : mark.length = 8 := by
    simp only [mark, List.length_append, Bytes.length_word32]
  have hdrop : (header.bytes ++ rest).drop 16 = rest := by
    rw [hsplit, ← List.append_assoc]
    exact List.drop_left' (by rw [List.length_append, hfront, hmark])
  rw [unmarked, hdrop, hsplit, List.take_left' hfront]
  simp only [Header.bytes, front, List.append_assoc]
  rfl

/-- Through a buffer of this size, each frame is answered by the messages of the model, stamped with
the number of the frame. Acknowledgements may stand anywhere among them. -/
def AnswersAs (model : Bytes → List Message) (size : Nat) (answer : Bytes → List Arrival) : Prop :=
  ∀ frame header rest, Header.take? frame = some (header, rest) →
    ∃ messages : List Message, Arrival.stream size (answer frame) = messages.map .ok ∧
      (∀ message ∈ messages, message.header.sequence = header.sequence) ∧
      List.Forall₂ Message.Restates (Message.substance messages)
        (Message.substance (model (unmarked frame)))

namespace Socket

/-- Every frame on the socket will be answered as the model answers it, behind messages that no
request waits for any more. -/
structure Serves (model : Bytes → List Message) (size : Nat) (socket : Socket) : Prop where
  bufferSize : socket.bufferSize = size
  sends : ∀ errno ∈ socket.sends, errno = 0
  answers : AnswersAs model size socket.answer
  queued : ∃ messages : List Message, Arrival.stream size socket.arrivals = messages.map .ok ∧
    ∀ message ∈ messages, message.header.sequence ≠ socket.sequence

variable {σ α : Type} {model : Bytes → List Message} {size : Nat} {socket : Socket}
  {listener : Listener σ α} {state : σ} {heard rest : List Arrival} {outcome : Except Error α}

theorem Serves.sends_headD (h : socket.Serves model size) : socket.sends.headD 0 = 0 := by
  cases hsends : socket.sends with
  | nil => rfl
  | cons errno errnos => exact h.sends errno (hsends ▸ List.mem_cons_self)

theorem exists_queued_of_supplied {old new : List Arrival} {stale fresh : List Message}
    {number : UInt32} {value : α} (hold : Arrival.stream size old = stale.map .ok)
    (hstale : ∀ message ∈ stale, message.header.sequence ≠ number)
    (hnew : Arrival.stream size new = fresh.map .ok)
    (hsupplied : Arrival.Supplied (old ++ new) heard rest)
    (hheard : listener.hear number state (Arrival.stream size heard) = .ok (.done value)) :
    ∃ left : List Message, Arrival.stream size rest = left.map .ok ∧
      ∀ message ∈ left, message ∈ fresh := by
  generalize hqueue : old ++ new = queue at hsupplied
  cases hsupplied with
  | exhausted => exact ⟨[], rfl, nofun⟩
  | queued =>
      rcases List.append_eq_append_iff.mp hqueue with ⟨taken, rfl, rfl⟩ | ⟨back, rfl, rfl⟩
      · -- all that was queued before has been taken
        rw [Arrival.stream, List.flatMap_append] at hnew
        obtain ⟨front, left, rfl, -, hleft⟩ := List.map_eq_append_iff.mp hnew.symm
        exact ⟨left, hleft.symm, fun message hmem => List.mem_append_right front hmem⟩
      · -- a result cannot come from what was queued before, for nothing there has the number
        rw [Arrival.stream, List.flatMap_append] at hold
        obtain ⟨front, left, rfl, hfront, -⟩ := List.map_eq_append_iff.mp hold.symm
        have hforeign : ∀ message ∈ front, message.header.sequence ≠ number :=
          fun message hmem => hstale message (List.mem_append_left left hmem)
        rw [Arrival.stream, ← hfront, Listener.hear_foreign hforeign] at hheard
        cases hheard

/-- The answer to a frame decides, whatever is in the queue before it. -/
theorem Serves.outcome_eq (h : socket.Serves model size) (hlistener : listener.Steady)
    {frame body : Bytes} {header : Header} (htake : Header.take? frame = some (header, body))
    (hnumber : header.sequence = socket.sequence)
    (hsupplied : Arrival.Supplied (socket.arrivals ++ socket.answer frame) heard rest)
    (hhears : listener.Hears socket.sequence size state heard outcome) :
    outcome = listener.conclude state (model (unmarked frame)) ∧
      ∀ value, outcome = .ok value → ∃ left : List Message,
        Arrival.stream size rest = left.map .ok ∧
          ∀ message ∈ left, message.header.sequence = socket.sequence := by
  obtain ⟨stale, hold, hstale⟩ := h.queued
  obtain ⟨fresh, hnew, hown, hsame⟩ := h.answers frame header body htake
  rw [hnumber] at hown
  constructor
  · obtain ⟨back, hstream⟩ := hsupplied.stream_eq size
    have hheard := Listener.hear_append_of_done hhears.hear_stream back
    rw [← hstream, Arrival.stream, List.flatMap_append, ← Arrival.stream, ← Arrival.stream, hold,
      hnew, List.append_assoc,
      Listener.hear_append_of_more (Listener.hear_foreign hstale state),
      Listener.hear_eq_conclude hown] at hheard
    rw [← Progress.map_done_inj hheard, ← hlistener.conclude_substance,
      hlistener.conclude_restated hsame, hlistener.conclude_substance]
  · rintro value rfl
    obtain ⟨left, hleft, hmem⟩ :=
      exists_queued_of_supplied hold hstale hnew hsupplied hhears.hear_stream
    exact ⟨left, hleft, fun message hmessage => hown message (hmem message hmessage)⟩

end Socket

end Netlink

end TunnelControl
