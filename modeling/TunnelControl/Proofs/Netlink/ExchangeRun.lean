import TunnelControl.Netlink.Exchange
import TunnelControl.Proofs.Netlink.Framing

namespace TunnelControl.Netlink

/-- The request could not be written, because a length in it cannot be stated. -/
def Error.isFraming : Error → Bool
  | .invalidAttribute (.oversized _) => true
  | .invalidMessage (.tooLong _) => true
  | _ => false

/-- A receive failed, the kernel refused, or what came back cannot be read as an answer. -/
def Error.isReply : Error → Bool
  | .io _ | .kernel _ | .truncated _ _ => true
  | .invalidMessage (.badLength _ _) => true
  | .invalidMessage .acknowledgementExpected => true
  | _ => false

theorem Error.isFraming_eq_false {error : Error} (h : error.isReply = true) :
    error.isFraming = false := by
  unfold isReply at h
  split at h
  · rfl
  · rfl
  · rfl
  · rfl
  · rfl
  · cases h

theorem Error.isNotFound_iff {error : Error} (h : error.isFraming = true ∨ error.isReply = true) :
    error.isNotFound = true ↔
      error = .kernel Errno.noEntry ∨ error = .kernel Errno.noDevice := by
  cases error with
  | kernel errno => simp [isNotFound]
  | familyNotFound name => rcases h with h | h <;> cases h
  | _ => simp [isNotFound]

namespace Exchange

variable {ε σ α β : Type} {first : ExceptT ε (StateM σ) α} {next : α → ExceptT ε (StateM σ) β}
  {state after : σ}

theorem run_bind_of_ok {value : α} (h : first.run state = (.ok value, after)) :
    (first >>= next).run state = (next value).run after := by
  rw [ExceptT.run_bind]
  simp only [bind, StateT.bind, h]

theorem run_bind_of_error {error : ε} (h : first.run state = (.error error, after)) :
    (first >>= next).run state = (.error error, after) := by
  rw [ExceptT.run_bind]
  simp only [bind, StateT.bind, h]
  rfl

theorem exists_run_of_bind_ok {value : β} (h : (first >>= next).run state = (.ok value, after)) :
    ∃ found middle, first.run state = (.ok found, middle) ∧
      (next found).run middle = (.ok value, after) := by
  rcases hfirst : first.run state with ⟨error | found, middle⟩
  · rw [run_bind_of_error hfirst] at h
    cases h
  · rw [run_bind_of_ok hfirst] at h
    exact ⟨found, middle, rfl, h⟩

theorem exists_run_of_fst {outcome : Except ε α} (h : (first.run state).1 = outcome) :
    ∃ after, first.run state = (outcome, after) :=
  ⟨(first.run state).2, congrArg (·, (first.run state).2) h⟩

theorem run_lift (result : Except Error α) (socket : Socket) :
    ExceptT.run (liftM result : Exchange α) socket = (result, socket) := by
  cases result <;> rfl

end Exchange

/-! Listening. -/

theorem Message.ofDatagram_error {data : Bytes} {error : Error}
    (h : .error error ∈ ofDatagram data) : error.isReply = true := by
  fun_induction ofDatagram data with
  | case1 => cases h
  | case2 =>
      cases List.mem_singleton.mp h
      rfl
  | case3 =>
      cases List.mem_singleton.mp h
      rfl
  | case4 _ _ _ _ _ _ _ _ _ _ ih =>
      rcases List.mem_cons.mp h with heq | hrest
      · cases heq
      · exact ih hrest

theorem Header.read_error {data : Bytes} {error : Error}
    (h : Header.read data = .error error) : error.isReply = true := by
  unfold Header.read at h
  split at h
  · cases h
  · cases h
    rfl

theorem Verdict.read_error {payload : Bytes} {error : Error}
    (h : Verdict.read payload = .error error) : error.isReply = true := by
  unfold Verdict.read at h
  split at h
  · cases h
  · cases h
    rfl

theorem Verdict.check_error {verdict : Verdict} {error : Error}
    (h : verdict.check = .error error) : error.isReply = true := by
  unfold Verdict.check at h
  split at h
  · cases h
  · cases h
    rfl

variable {σ α : Type} {listener : Listener σ α}

/-- Whatever the listener complains about is what came back. -/
def Listener.KeepsToReplies (listener : Listener σ α) : Prop :=
  ∀ state message error, listener state message = .error error → error.isReply = true

theorem Listener.KeepsToReplies.hear (hlistener : listener.KeepsToReplies) {sequence : UInt32}
    {state : σ} {messages : List (Except Error Message)} {error : Error}
    (hmessages : ∀ fault, .error fault ∈ messages → fault.isReply = true)
    (h : listener.hear sequence state messages = .error error) : error.isReply = true := by
  induction messages generalizing state with
  | nil => cases h
  | cons first rest ih =>
      have hrest : ∀ fault, .error fault ∈ rest → fault.isReply = true :=
        fun fault hmem => hmessages fault (List.mem_cons_of_mem _ hmem)
      cases first with
      | error fault =>
          cases h
          exact hmessages _ List.mem_cons_self
      | ok message =>
          rw [Listener.hear] at h
          split at h
          · cases houtcome : listener state message with
            | error fault =>
                rw [houtcome] at h
                cases h
                exact hlistener _ _ _ houtcome
            | ok progress =>
                rw [houtcome] at h
                cases progress with
                | more next => exact ih hrest h
                | done result => cases h
          · exact ih hrest h

namespace Socket

open Exchange

theorem listenThrough_error (hlistener : listener.KeepsToReplies) {sequence : UInt32}
    {socket : Socket} {state : σ} {arrivals : List Arrival} {error : Error}
    (h : (listenThrough listener sequence socket state arrivals).1 = .error error) :
    error.isReply = true := by
  induction arrivals generalizing socket state with
  | nil =>
      cases h
      rfl
  | cons arrival rest ih =>
      cases arrival with
      | failure errno =>
          cases h
          rfl
      | datagram data =>
          rw [listenThrough] at h
          split at h
          next fault hheard =>
            cases h
            exact hlistener.hear (fun _ => Message.ofDatagram_error) hheard
          next => cases h
          next => exact ih h

theorem acknowledgement_keepsToReplies : acknowledgement.KeepsToReplies := by
  intro state message error h
  unfold acknowledgement at h
  split at h
  · cases hread : Verdict.read message.payload with
    | error fault =>
        rw [hread] at h
        cases h
        exact Verdict.read_error hread
    | ok verdict =>
        rw [hread] at h
        cases hcheck : verdict.check with
        | error fault =>
            simp only [bind, Except.bind, hcheck] at h
            cases h
            exact Verdict.check_error hcheck
        | ok =>
            simp only [bind, Except.bind, hcheck] at h
            cases h
  · split at h
    · cases h
      rfl
    · cases h

/-! Writing and sending a request. -/

def stamped (socket : Socket) (draft : Draft) : Draft :=
  (draft.setSequence socket.sequence).setPort socket.port

theorem size_stamped (socket : Socket) (draft : Draft) :
    (socket.stamped draft).size = draft.size := by
  rw [stamped, Draft.setPort, Draft.setSequence, Draft.size_put, Draft.size_put]

theorem oversized_stamped (socket : Socket) (draft : Draft) :
    (socket.stamped draft).oversized = draft.oversized := by
  rw [stamped, Draft.setPort, Draft.setSequence, Draft.oversized_put, Draft.oversized_put]

theorem finish_stamped_eq_ok_iff (socket : Socket) (draft : Draft) :
    (∃ frame, (socket.stamped draft).finish = .ok frame) ↔ ∃ frame, draft.finish = .ok frame := by
  rw [Draft.finish_eq_ok_iff, Draft.finish_eq_ok_iff, size_stamped, oversized_stamped]

theorem run_stamp (socket : Socket) (draft : Draft) :
    (stamp draft).run socket =
      ((socket.stamped draft).finish.map (socket.sequence, ·),
        { socket with sequence := socket.sequence + 1 }) := by
  have hdraw : drawSequence.run socket =
      (.ok socket.sequence, { socket with sequence := socket.sequence + 1 }) := rfl
  have hport : ownPort.run { socket with sequence := socket.sequence + 1 } =
      (.ok socket.port, { socket with sequence := socket.sequence + 1 }) := rfl
  have hfinish := run_lift (socket.stamped draft).finish
    { socket with sequence := socket.sequence + 1 }
  rw [stamp, run_bind_of_ok hdraw, run_bind_of_ok hport]
  cases hframe : (socket.stamped draft).finish with
  | error error =>
      rw [hframe] at hfinish
      unfold stamped at hframe
      rw [hframe]
      exact run_bind_of_error hfinish
  | ok frame =>
      rw [hframe] at hfinish
      unfold stamped at hframe
      rw [hframe]
      exact run_bind_of_ok hfinish

theorem run_send (socket : Socket) (frame : Bytes) :
    (send frame).run socket =
      if socket.sends.headD 0 = 0 then
        (.ok (), { socket with
          sends := socket.sends.tail
          arrivals := socket.arrivals ++ socket.answer frame
          trace := socket.trace ++ [.sent frame 0] })
      else
        (.error (.io (socket.sends.headD 0)), { socket with
          sends := socket.sends.tail
          trace := socket.trace ++ [.sent frame (socket.sends.headD 0)] }) := by
  have hget : (get : Exchange Socket).run socket = (.ok socket, socket) := rfl
  rw [send, run_bind_of_ok hget]
  dsimp only
  split
  · rename_i hzero
    rw [hzero]
    rfl
  · rfl

theorem sendAcknowledged_error {socket : Socket} {frame : Bytes} {error : Error}
    (h : ((sendAcknowledged frame).run socket).1 = .error error) : error.isReply = true := by
  have hheader := run_lift (Header.read frame) socket
  unfold sendAcknowledged at h
  cases hread : Header.read frame with
  | error fault =>
      rw [hread] at hheader h
      rw [run_bind_of_error hheader] at h
      cases h
      exact Header.read_error hread
  | ok header =>
      rw [hread] at hheader h
      rw [run_bind_of_ok hheader] at h
      have hsend := run_send socket frame
      split at hsend
      · rw [run_bind_of_ok hsend] at h
        exact listenThrough_error acknowledgement_keepsToReplies h
      · rw [run_bind_of_error hsend] at h
        cases h
        rfl

/-- A request that cannot be written draws its number and does nothing else. -/
theorem run_request_of_finish_error {socket : Socket} {draft : Draft} {error : Error}
    (h : (socket.stamped draft).finish = .error error) :
    (request draft).run socket =
      (.error error, { socket with sequence := socket.sequence + 1 }) := by
  have hstamp := run_stamp socket draft
  rw [h] at hstamp
  exact run_bind_of_error hstamp

theorem request_error {socket : Socket} {draft : Draft} {frame : Bytes} {error : Error}
    (hfinish : (socket.stamped draft).finish = .ok frame)
    (h : ((request draft).run socket).1 = .error error) : error.isReply = true := by
  have hstamp := run_stamp socket draft
  rw [hfinish] at hstamp
  rw [request, run_bind_of_ok hstamp] at h
  exact sendAcknowledged_error h

theorem finish_error {draft : Draft} {error : Error} (h : draft.finish = .error error) :
    error.isFraming = true := by
  unfold Draft.finish at h
  split at h
  · cases h
    rfl
  · split at h
    · cases h
    · cases h
      rfl

theorem isFraming_or_isReply {socket : Socket} {draft : Draft} {error : Error}
    (h : ((request draft).run socket).1 = .error error) :
    error.isFraming = true ∨ error.isReply = true := by
  cases hfinish : (socket.stamped draft).finish with
  | error fault =>
      rw [run_request_of_finish_error hfinish] at h
      cases h
      exact .inl (finish_error hfinish)
  | ok frame => exact .inr (request_error hfinish h)

end Socket

end TunnelControl.Netlink
