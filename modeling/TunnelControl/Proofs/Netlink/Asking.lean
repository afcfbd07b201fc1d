import TunnelControl.Netlink.Family
import TunnelControl.Proofs.Netlink.Listening
import TunnelControl.Proofs.Netlink.MessageReading

/-!
The shape that exchanges share: a request is numbered and finished, sent, and listened for under
its number. What a whole exchange does to its socket follows from what it hears.
-/

namespace TunnelControl.Netlink.Socket

open Arrival Exchange

variable {σ α : Type}

def ask (draft : Draft) (listener : Listener σ α) (state : σ) : Exchange α := do
  let (sequence, frame) ← stamp draft
  send frame
  listen listener sequence state

theorem dump_eq_ask (draft : Draft) : dump draft = ask draft collection [] := rfl

variable {draft : Draft} {listener : Listener σ α} {state : σ} {socket : Socket}

theorem run_stamp_of_ok {frame : Bytes} (hframe : (socket.stamped draft).finish = .ok frame) :
    (stamp draft).run socket =
      (.ok (socket.sequence, frame), { socket with sequence := socket.sequence + 1 }) := by
  rw [run_stamp, hframe]
  rfl

theorem run_stamp_of_error {error : Error}
    (hfinish : (socket.stamped draft).finish = .error error) :
    (stamp draft).run socket =
      (.error error, { socket with sequence := socket.sequence + 1 }) := by
  rw [run_stamp, hfinish]
  rfl

theorem run_request_eq_ask (hheaded : Header.size ≤ draft.size) :
    (request draft).run socket = (ask draft acknowledgement ()).run socket := by
  cases hframe : (socket.stamped draft).finish with
  | error error =>
      have hstamp := run_stamp_of_error hframe
      rw [request, run_bind_of_error hstamp, ask, run_bind_of_error hstamp]
  | ok frame =>
      obtain ⟨header, rest, htake, hsequence, -⟩ :=
        Draft.header_of_finish_numbered hheaded hframe
      have hstamp := run_stamp_of_ok hframe
      have hheader := run_lift (Header.read frame) { socket with sequence := socket.sequence + 1 }
      have hread : Header.read frame = .ok header := by rw [Header.read, htake]
      rw [hread] at hheader
      have hsend : (sendAcknowledged frame).run { socket with sequence := socket.sequence + 1 } =
          (do send frame; listen acknowledgement socket.sequence () : Exchange Unit).run
            { socket with sequence := socket.sequence + 1 } := by
        rw [sendAcknowledged, hread, run_bind_of_ok hheader, hsequence]
      rw [request, run_bind_of_ok hstamp, ask, run_bind_of_ok hstamp]
      exact hsend

/-- The socket after a numbered frame was handed to the kernel. -/
def handed (socket : Socket) (frame : Bytes) (errno : Int) : Socket :=
  { socket with
    sequence := socket.sequence + 1
    sends := socket.sends.tail
    trace := socket.trace ++ [.sent frame errno] }

/-- What an exchange hands to the kernel, what it hears, how it ends and the socket it leaves. -/
inductive Asked (draft : Draft) (listener : Listener σ α) (state : σ) (socket : Socket) :
    Option (Bytes × Int) → List Arrival → Except Error α → Socket → Prop
  | unwritten {error : Error} (hfinish : (socket.stamped draft).finish = .error error) :
      Asked draft listener state socket none [] (.error error)
        { socket with sequence := socket.sequence + 1 }
  | unsent {frame : Bytes} (hframe : (socket.stamped draft).finish = .ok frame)
      (hsend : socket.sends.headD 0 ≠ 0) :
      Asked draft listener state socket (some (frame, socket.sends.headD 0)) []
        (.error (.io (socket.sends.headD 0))) (socket.handed frame (socket.sends.headD 0))
  | sent {frame : Bytes} {heard rest : List Arrival} {outcome : Except Error α}
      (hframe : (socket.stamped draft).finish = .ok frame) (hsend : socket.sends.headD 0 = 0)
      (hsupplied : Supplied (socket.arrivals ++ socket.answer frame) heard rest)
      (hhears : listener.Hears socket.sequence socket.bufferSize state heard outcome) :
      Asked draft listener state socket (some (frame, 0)) heard outcome
        ((socket.handed frame 0).received heard rest)

theorem run_ask_of_sent {frame : Bytes} (hframe : (socket.stamped draft).finish = .ok frame)
    (hsend : socket.sends.headD 0 = 0) :
    (ask draft listener state).run socket =
      listenThrough listener socket.sequence
        { socket.handed frame 0 with arrivals := socket.arrivals ++ socket.answer frame } state
        (socket.arrivals ++ socket.answer frame) := by
  have hrun := run_send { socket with sequence := socket.sequence + 1 } frame
  rw [if_pos hsend] at hrun
  rw [ask, run_bind_of_ok (run_stamp_of_ok hframe), run_bind_of_ok hrun]
  rfl

theorem Asked.run {sent : Option (Bytes × Int)} {heard : List Arrival} {outcome : Except Error α}
    {after : Socket} (h : Asked draft listener state socket sent heard outcome after) :
    (ask draft listener state).run socket = (outcome, after) := by
  cases h with
  | unwritten hfinish => rw [ask, run_bind_of_error (run_stamp_of_error hfinish)]
  | @unsent frame hframe hsend =>
      have hrun := run_send { socket with sequence := socket.sequence + 1 } frame
      rw [if_neg hsend] at hrun
      rw [ask, run_bind_of_ok (run_stamp_of_ok hframe), run_bind_of_error hrun]
      rfl
  | @sent frame heard rest outcome hframe hsend hsupplied hhears =>
      rw [run_ask_of_sent hframe hsend]
      exact listenThrough_of_hears hhears hsupplied

variable (draft listener state socket) in
theorem exists_asked :
    ∃ sent heard outcome after, Asked draft listener state socket sent heard outcome after := by
  cases hframe : (socket.stamped draft).finish with
  | error error => exact ⟨_, _, _, _, .unwritten hframe⟩
  | ok frame =>
      by_cases hsend : socket.sends.headD 0 = 0
      · obtain ⟨heard, rest, outcome, hsupplied, hhears, -⟩ :=
          exists_hears listener socket.sequence socket state
            (socket.arrivals ++ socket.answer frame)
        exact ⟨_, heard, outcome, _, .sent hframe hsend hsupplied hhears⟩
      · exact ⟨_, _, _, _, .unsent hframe hsend⟩

end TunnelControl.Netlink.Socket
