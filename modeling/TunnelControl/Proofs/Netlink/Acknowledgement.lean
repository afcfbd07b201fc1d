import TunnelControl.Proofs.Netlink.Asking

namespace TunnelControl.Netlink

namespace Acknowledgement

/-- The item ends the wait of the request with this number. -/
def decides (number : UInt32) : Except Error Message → Bool
  | .error _ => true
  | .ok ⟨header, _⟩ =>
      header.sequence = number ∧
        (header.type = MessageType.verdict ∨ header.type = MessageType.done)

def ruling : Except Error Message → Except Error Unit
  | .error error => .error error
  | .ok ⟨header, payload⟩ =>
      if header.type = MessageType.verdict then
        match Verdict.refusal? payload with
        | some error => .error error
        | none => .ok ()
      else .error (.invalidMessage .acknowledgementExpected)

variable {number : UInt32} {item : Except Error Message}

theorem hear_of_decides (h : decides number item = true) (rest : List (Except Error Message)) :
    Socket.acknowledgement.hear number () (item :: rest) = (ruling item).map .done := by
  cases item with
  | error error => rfl
  | ok message =>
      obtain ⟨header, payload⟩ := message
      obtain ⟨hsequence, htype⟩ := of_decide_eq_true h
      by_cases hverdict : header.type = MessageType.verdict
      · have hheader : header.isVerdict = true := decide_eq_true hverdict
        simp only [Listener.hear, Socket.acknowledgement, if_pos hsequence, if_pos hheader,
          Verdict.read_bind_check, ruling, if_pos hverdict]
        cases Verdict.refusal? payload <;> rfl
      · have hheader : header.isVerdict = false := decide_eq_false hverdict
        have hdone : header.isDone = true := decide_eq_true (htype.resolve_left hverdict)
        simp only [Listener.hear, Socket.acknowledgement, if_pos hsequence, hheader, if_pos hdone,
          ruling, if_neg hverdict]
        rfl

theorem hear_of_not_decides (h : ¬ decides number item = true)
    (rest : List (Except Error Message)) :
    Socket.acknowledgement.hear number () (item :: rest) =
      Socket.acknowledgement.hear number () rest := by
  cases item with
  | error error => exact absurd rfl h
  | ok message =>
      obtain ⟨header, payload⟩ := message
      by_cases hsequence : header.sequence = number
      · have hverdict : header.isVerdict = false :=
          decide_eq_false fun htype => h (decide_eq_true ⟨hsequence, .inl htype⟩)
        have hdone : header.isDone = false :=
          decide_eq_false fun htype => h (decide_eq_true ⟨hsequence, .inr htype⟩)
        simp only [Listener.hear, Socket.acknowledgement, if_pos hsequence, hverdict, hdone]
        rfl
      · simp only [Listener.hear, if_neg hsequence]

theorem hear_eq_find? (items : List (Except Error Message)) :
    Socket.acknowledgement.hear number () items =
      match items.find? (decides number) with
      | some item => (ruling item).map .done
      | none => .ok (.more ()) := by
  induction items with
  | nil => rfl
  | cons item items ih =>
      by_cases hitem : decides number item = true
      · rw [hear_of_decides hitem, List.find?_cons_of_pos hitem]
      · rw [hear_of_not_decides hitem, List.find?_cons_of_neg hitem, ih]

theorem ruling_eq_ok_iff (item : Except Error Message) :
    ruling item = .ok () ↔ ∃ header payload, item = .ok ⟨header, payload⟩ ∧
      header.type = MessageType.verdict ∧ 20 ≤ payload.length ∧
        Verdict.statusOf payload = 0 := by
  cases item with
  | error error => exact ⟨nofun, fun ⟨_, _, hitem, _⟩ => nomatch hitem⟩
  | ok message =>
      obtain ⟨header, payload⟩ := message
      by_cases hverdict : header.type = MessageType.verdict
      · have hrefusal := Verdict.refusal?_eq_none_iff payload
        rw [ruling, if_pos hverdict]
        constructor
        · intro hruling
          cases hpayload : Verdict.refusal? payload with
          | none => exact ⟨header, payload, rfl, hverdict, hrefusal.mp hpayload⟩
          | some error =>
              rw [hpayload] at hruling
              cases hruling
        · rintro ⟨_, _, hitem, -, hwhole⟩
          cases hitem
          rw [hrefusal.mpr hwhole]
      · rw [ruling, if_neg hverdict]
        constructor
        · exact nofun
        · rintro ⟨_, _, hitem, hother, -⟩
          cases hitem
          exact absurd hother hverdict

end Acknowledgement

/-- One frame that was handed to the kernel: the number it carries, the error it met, and what was
received behind it. -/
structure Transmission where
  number : UInt32
  frame : Bytes
  errno : Int
  heard : List Arrival

namespace Transmission

open Acknowledgement

variable (size : Nat) (transmission : Transmission)

def decision? : Option (Except Error Message) :=
  (Arrival.stream size transmission.heard).find? (decides transmission.number)

def outcome? : Option (Except Error Unit) :=
  if transmission.errno = 0 then (transmission.decision? size).map ruling
  else some (.error (.io transmission.errno))

/-- The frame went out, and what decides is a whole verdict without an error. -/
def Acknowledged : Prop :=
  transmission.errno = 0 ∧ ∃ header payload,
    transmission.decision? size = some (.ok ⟨header, payload⟩) ∧
      header.type = MessageType.verdict ∧ 20 ≤ payload.length ∧ Verdict.statusOf payload = 0

def events : List Event :=
  .sent transmission.frame transmission.errno ::
    transmission.heard.map (Arrival.receipt size)

theorem acknowledged_iff :
    transmission.Acknowledged size ↔ transmission.outcome? size = some (.ok ()) := by
  rw [Acknowledged, outcome?]
  by_cases hsend : transmission.errno = 0
  · rw [if_pos hsend, Option.map_eq_some_iff]
    constructor
    · rintro ⟨-, header, payload, hdecision, hrest⟩
      exact ⟨_, hdecision, (ruling_eq_ok_iff _).mpr ⟨header, payload, rfl, hrest⟩⟩
    · rintro ⟨item, hdecision, hruling⟩
      obtain ⟨header, payload, rfl, hrest⟩ := (ruling_eq_ok_iff item).mp hruling
      exact ⟨hsend, header, payload, hdecision, hrest⟩
  · rw [if_neg hsend]
    exact ⟨fun hacknowledged => absurd hacknowledged.1 hsend, nofun⟩

end Transmission

namespace Socket

open Arrival Exchange

/-- A frame goes from the socket, and the socket waits as long as the frame's number wants it. -/
inductive Transmits (socket : Socket) : Transmission → Socket → Prop
  | refused {frame : Bytes} (hsend : socket.sends.headD 0 ≠ 0) :
      Transmits socket ⟨socket.sequence, frame, socket.sends.headD 0, []⟩
        (socket.handed frame (socket.sends.headD 0))
  | accepted {frame : Bytes} {heard rest : List Arrival} (hsend : socket.sends.headD 0 = 0)
      (hsupplied : Supplied (socket.arrivals ++ socket.answer frame) heard rest) :
      Transmits socket ⟨socket.sequence, frame, 0, heard⟩
        ((socket.handed frame 0).received heard rest)

variable {socket after : Socket} {transmission : Transmission}

theorem Transmits.trace_eq (h : socket.Transmits transmission after) :
    after.trace = socket.trace ++ transmission.events socket.bufferSize := by
  cases h with
  | refused hsend => rfl
  | accepted hsend hsupplied => exact (List.append_cons _ _ _).symm

theorem exists_transmits {draft : Draft} {frame : Bytes} (hheaded : Header.size ≤ draft.size)
    (hframe : (socket.stamped draft).finish = .ok frame) :
    ∃ errno heard outcome after,
      socket.Transmits ⟨socket.sequence, frame, errno, heard⟩ after ∧
      Transmission.outcome? socket.bufferSize ⟨socket.sequence, frame, errno, heard⟩ =
        some outcome ∧
      (request draft).run socket = (outcome, after) := by
  obtain ⟨sent, heard, outcome, after, hasked⟩ := exists_asked draft acknowledgement () socket
  have hrun := @run_request_eq_ask draft socket hheaded
  rw [hasked.run] at hrun
  cases hasked with
  | unwritten hfinish =>
      rw [hframe] at hfinish
      cases hfinish
  | unsent hframe' hsend =>
      rw [hframe] at hframe'
      cases hframe'
      exact ⟨_, _, _, _, .refused hsend, if_neg hsend, hrun⟩
  | sent hframe' hsend hsupplied hhears =>
      rw [hframe] at hframe'
      cases hframe'
      refine ⟨_, _, _, _, .accepted hsend hsupplied, ?_, hrun⟩
      have hheard := hhears.hear_stream
      rw [Acknowledgement.hear_eq_find?] at hheard
      rw [Transmission.outcome?, if_pos rfl, Transmission.decision?]
      split at hheard
      · rename_i item hdecision
        rw [hdecision]
        exact congrArg some (Progress.map_done_inj hheard)
      · cases outcome <;> cases hheard

end Socket

end TunnelControl.Netlink
