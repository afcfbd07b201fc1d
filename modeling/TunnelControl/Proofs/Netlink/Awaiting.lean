import TunnelControl.Proofs.Netlink.Acknowledgement

namespace TunnelControl.Netlink

namespace Acknowledgement

variable (number : UInt32) (size : Nat)

/-- The arrivals of a queue that are taken until one decides. Without one the last receive finds the
queue empty. -/
def awaited : List Arrival → List Arrival
  | [] => [.failure Errno.wouldBlock]
  | arrival :: rest =>
      if (arrival.items size).any (decides number) then [arrival] else arrival :: awaited rest

def ending (queue : List Arrival) : Except Error Unit :=
  match (Arrival.stream size queue).find? (decides number) with
  | some item => ruling item
  | none => .error (.io Errno.wouldBlock)

variable {number size}

theorem any_decides_of_hear {items : List (Except Error Message)} {outcome : Except Error Unit}
    (h : Socket.acknowledgement.hear number () items = outcome.map .done) :
    items.any (decides number) = true := by
  rw [hear_eq_find?] at h
  cases hitem : items.find? (decides number) with
  | none =>
      rw [hitem] at h
      cases outcome <;> cases h
  | some item =>
      exact List.any_eq_true.mpr ⟨item, List.mem_of_find?_eq_some hitem, List.find?_some hitem⟩

theorem any_decides_of_hear_more {items : List (Except Error Message)}
    (h : Socket.acknowledgement.hear number () items = .ok (.more ())) :
    items.any (decides number) = false := by
  rw [hear_eq_find?] at h
  cases hitem : items.find? (decides number) with
  | none => exact List.any_eq_false.mpr (List.find?_eq_none.mp hitem)
  | some item =>
      rw [hitem] at h
      dsimp only at h
      cases hruling : ruling item <;> rw [hruling] at h <;> cases h

theorem awaited_of_hears {state : Unit} {queue heard rest : List Arrival}
    {outcome : Except Error Unit}
    (hhears : Socket.acknowledgement.Hears number size state heard outcome)
    (hsupplied : Arrival.Supplied queue heard rest) : heard = awaited number size queue := by
  induction hhears generalizing queue with
  | decided h =>
      rcases hsupplied.of_cons with ⟨rfl, rfl, -⟩ | ⟨tail, rfl, -⟩
      · rfl
      · rw [awaited, if_pos (any_decides_of_hear h)]
  | undecided h hrest ih =>
      rcases hsupplied.of_cons with ⟨-, rfl, -⟩ | ⟨tail, rfl, htail⟩
      · cases h
      · rw [awaited, any_decides_of_hear_more h, if_neg Bool.false_ne_true, ← ih htail]

theorem find?_decides_append_error (items : List (Except Error Message)) (error : Error) :
    (items ++ [Except.error error]).find? (decides number) =
      some ((items.find? (decides number)).getD (.error error)) := by
  rw [List.find?_append]
  cases items.find? (decides number) <;> rfl

theorem ending_of_listenThrough (socket : Socket) (queue : List Arrival) :
    (Socket.listenThrough Socket.acknowledgement number socket () queue).1 =
      ending number socket.bufferSize queue := by
  have hstream := Socket.hear_stream_eq Socket.acknowledgement number socket () queue
  rw [hear_eq_find?, find?_decides_append_error] at hstream
  rw [← Progress.map_done_inj hstream, ending]
  cases (Arrival.stream socket.bufferSize queue).find? (decides number) <;> rfl

end Acknowledgement

namespace Socket

open Acknowledgement Exchange

variable (socket : Socket) {frame : Bytes} {header : Header}

/-- Everything that is there to be received once the frame went out. -/
def queueBehind (frame : Bytes) : List Arrival :=
  socket.arrivals ++ socket.answer frame

theorem run_sendAcknowledged_of_error (hread : Header.read frame = .ok header)
    (hsend : socket.sends.headD 0 ≠ 0) :
    ∃ after, (sendAcknowledged frame).run socket =
        (.error (.io (socket.sends.headD 0)), after) ∧
      after.trace = socket.trace ++ [.sent frame (socket.sends.headD 0)] := by
  have hlift := run_lift (Header.read frame) socket
  have hrun := run_send socket frame
  rw [if_neg hsend] at hrun
  rw [hread] at hlift
  rw [sendAcknowledged, hread, run_bind_of_ok hlift, run_bind_of_error hrun]
  exact ⟨_, rfl, rfl⟩

theorem run_sendAcknowledged_of_sent (hread : Header.read frame = .ok header)
    (hsend : socket.sends.headD 0 = 0) :
    ∃ after, (sendAcknowledged frame).run socket =
        (ending header.sequence socket.bufferSize (socket.queueBehind frame), after) ∧
      after.trace = socket.trace ++ .sent frame 0 ::
        (awaited header.sequence socket.bufferSize (socket.queueBehind frame)).map
          (Arrival.receipt socket.bufferSize) := by
  have hlift := run_lift (Header.read frame) socket
  have hrun := run_send socket frame
  rw [if_pos hsend] at hrun
  rw [hread] at hlift
  rw [sendAcknowledged, hread, run_bind_of_ok hlift, run_bind_of_ok hrun]
  obtain ⟨heard, rest, outcome, hsupplied, hhears, hlistened⟩ :=
    exists_hears acknowledgement header.sequence
      { socket with
        sends := socket.sends.tail
        arrivals := socket.queueBehind frame
        trace := socket.trace ++ [.sent frame 0] } () (socket.queueBehind frame)
  have hending := congrArg Prod.fst hlistened
  rw [ending_of_listenThrough] at hending
  rw [awaited_of_hears hhears hsupplied] at hlistened
  rw [hending]
  exact ⟨_, hlistened, (List.append_cons _ _ _).symm⟩

end Socket

end TunnelControl.Netlink
