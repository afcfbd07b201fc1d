import TunnelControl.Proofs.Netlink.ExchangeRun

/-!
What an exchange hears while it listens. The messages of the datagrams that it receives form one
stream, in which a receive that fails stands as an error; how the messages are spread over the
datagrams does not matter.
-/

namespace TunnelControl

open Netlink

namespace Arrival

variable (size : Nat)

def items : Arrival → List (Except Error Message)
  | .datagram data => Message.ofDatagram (data.take size)
  | .failure errno => [.error (.io errno)]

def stream (arrivals : List Arrival) : List (Except Error Message) :=
  arrivals.flatMap (items size)

/-- The receive that takes the arrival, as the socket records it. -/
def receipt : Arrival → Event
  | .datagram data => .received (data.take size).length 0
  | .failure errno => .received 0 errno

theorem filterMap_receipts {α : Type} {pick : Event → Option α}
    (hpick : ∀ length errno, pick (.received length errno) = none) (heard : List Arrival) :
    (heard.map (receipt size)).filterMap pick = [] := by
  rw [List.filterMap_eq_nil_iff]
  intro event hmem
  obtain ⟨arrival, -, rfl⟩ := List.mem_map.mp hmem
  cases arrival <;> exact hpick _ _

/-- What a row of receives hands out and what it leaves in the queue. With nothing left a receive
fails, for it would have to wait. -/
inductive Supplied : (queue heard rest : List Arrival) → Prop
  | queued (heard rest : List Arrival) : Supplied (heard ++ rest) heard rest
  | exhausted (queue : List Arrival) :
      Supplied queue (queue ++ [.failure Errno.wouldBlock]) []

theorem Supplied.cons {queue heard rest : List Arrival} (h : Supplied queue heard rest)
    (first : Arrival) : Supplied (first :: queue) (first :: heard) rest := by
  cases h with
  | queued => exact .queued (first :: heard) rest
  | exhausted => exact .exhausted (first :: queue)

theorem Supplied.of_cons {first : Arrival} {queue heard rest : List Arrival}
    (h : Supplied queue (first :: heard) rest) :
    (queue = [] ∧ first = .failure Errno.wouldBlock ∧ heard = [] ∧ rest = []) ∨
      ∃ tail, queue = first :: tail ∧ Supplied tail heard rest := by
  generalize hall : first :: heard = all at h
  cases h with
  | queued =>
      subst hall
      exact .inr ⟨heard ++ rest, rfl, .queued heard rest⟩
  | exhausted =>
      cases queue with
      | nil =>
          cases hall
          exact .inl ⟨rfl, rfl, rfl, rfl⟩
      | cons head tail =>
          cases hall
          exact .inr ⟨tail, rfl, .exhausted tail⟩

theorem Supplied.of_nil {queue rest : List Arrival} (h : Supplied queue [] rest) :
    queue = rest := by
  generalize hall : [] = heard at h
  cases h with
  | queued =>
      subst hall
      rfl
  | exhausted => cases queue <;> cases hall

theorem Supplied.eq_append_of_datagrams {queue rest : List Arrival} {datagrams : List Bytes}
    (h : Supplied queue (datagrams.map .datagram) rest) :
    queue = datagrams.map .datagram ++ rest := by
  generalize hheard : datagrams.map Arrival.datagram = heard at h
  cases h with
  | queued => rfl
  | exhausted =>
      have hmem : Arrival.failure Errno.wouldBlock ∈ datagrams.map .datagram := by
        rw [hheard]
        exact List.mem_append_right _ List.mem_cons_self
      obtain ⟨data, -, hdata⟩ := List.mem_map.mp hmem
      cases hdata

theorem Supplied.stream_eq {queue heard rest : List Arrival} (h : Supplied queue heard rest) :
    ∃ back, stream size queue ++ [.error (.io Errno.wouldBlock)] = stream size heard ++ back := by
  cases h with
  | queued =>
      refine ⟨stream size rest ++ [.error (.io Errno.wouldBlock)], ?_⟩
      rw [stream, List.flatMap_append, List.append_assoc]
      rfl
  | exhausted =>
      refine ⟨[], ?_⟩
      rw [stream, stream, List.flatMap_append, List.append_nil]
      rfl

end Arrival

namespace Netlink

variable {σ α : Type} {listener : Listener σ α} {sequence : UInt32} {size : Nat}

theorem Progress.map_done_inj {left right : Except Error α}
    (h : (left.map .done : Except Error (Progress σ α)) = right.map .done) : left = right := by
  cases left <;> cases right <;> cases h <;> rfl

namespace Listener

theorem hear_append_of_more {state next : σ} {front : List (Except Error Message)}
    (h : listener.hear sequence state front = .ok (.more next))
    (back : List (Except Error Message)) :
    listener.hear sequence state (front ++ back) = listener.hear sequence next back := by
  induction front generalizing state with
  | nil =>
      cases h
      rfl
  | cons item front ih =>
      cases item with
      | error error => cases h
      | ok message =>
          rw [List.cons_append]
          simp only [hear] at h ⊢
          split at h
          · rename_i hanswers
            rw [if_pos hanswers]
            split at h
            · exact ih h
            · rename_i hother
              exact absurd h (hother next)
          · rename_i hforeign
            rw [if_neg hforeign]
            exact ih h

theorem hear_append_of_done {state : σ} {front : List (Except Error Message)}
    {outcome : Except Error α}
    (h : listener.hear sequence state front = outcome.map .done)
    (back : List (Except Error Message)) :
    listener.hear sequence state (front ++ back) = outcome.map .done := by
  induction front generalizing state with
  | nil => cases outcome <;> cases h
  | cons item front ih =>
      cases item with
      | error error => exact h
      | ok message =>
          rw [List.cons_append]
          simp only [hear] at h ⊢
          split
          · rename_i hanswers
            rw [if_pos hanswers] at h
            split at h
            · exact ih h
            · exact h
          · rename_i hforeign
            rw [if_neg hforeign] at h
            exact ih h

/-- A listener goes through what is received, and the last of it ends the listening. -/
inductive Hears (listener : Listener σ α) (sequence : UInt32) (size : Nat) :
    σ → List Arrival → Except Error α → Prop
  | decided {state : σ} {arrival : Arrival} {outcome : Except Error α}
      (h : listener.hear sequence state (arrival.items size) = outcome.map .done) :
      Hears listener sequence size state [arrival] outcome
  | undecided {state next : σ} {arrival : Arrival} {heard : List Arrival}
      {outcome : Except Error α}
      (h : listener.hear sequence state (arrival.items size) = .ok (.more next))
      (hrest : Hears listener sequence size next heard outcome) :
      Hears listener sequence size state (arrival :: heard) outcome

theorem Hears.hear_stream {state : σ} {heard : List Arrival} {outcome : Except Error α}
    (h : listener.Hears sequence size state heard outcome) :
    listener.hear sequence state (Arrival.stream size heard) = outcome.map .done := by
  induction h with
  | decided h =>
      rw [Arrival.stream, List.flatMap_singleton]
      exact h
  | undecided h _ ih =>
      rw [Arrival.stream, List.flatMap_cons, hear_append_of_more h]
      exact ih

end Listener

namespace Socket

open Arrival Listener

def received (socket : Socket) (heard rest : List Arrival) : Socket :=
  { socket with
    arrivals := rest
    trace := socket.trace ++ heard.map (receipt socket.bufferSize) }

theorem exists_hears (listener : Listener σ α) (sequence : UInt32) (socket : Socket) (state : σ)
    (arrivals : List Arrival) :
    ∃ heard rest outcome, Supplied arrivals heard rest ∧
      listener.Hears sequence socket.bufferSize state heard outcome ∧
      listenThrough listener sequence socket state arrivals =
        (outcome, socket.received heard rest) := by
  induction arrivals generalizing socket state with
  | nil => exact ⟨_, _, _, .exhausted [], .decided rfl, rfl⟩
  | cons arrival arrivals ih =>
      cases arrival with
      | failure errno => exact ⟨_, _, _, .queued [.failure errno] arrivals, .decided rfl, rfl⟩
      | datagram data =>
          rw [listenThrough]
          split
          next error hheard =>
            exact ⟨_, _, .error error, .queued [.datagram data] arrivals, .decided hheard, rfl⟩
          next result hheard =>
            exact ⟨_, _, .ok result, .queued [.datagram data] arrivals, .decided hheard, rfl⟩
          next next hheard =>
            obtain ⟨heard, rest, outcome, hsupplied, hhears, hrun⟩ :=
              ih ({ socket with arrivals }.note (.received (data.take socket.bufferSize).length 0))
                next
            refine ⟨.datagram data :: heard, rest, outcome, hsupplied.cons _,
              .undecided hheard hhears, ?_⟩
            rw [hrun, received, received, List.map_cons, List.append_cons]
            rfl

theorem listenThrough_of_hears {socket : Socket} {state : σ} {arrivals heard rest : List Arrival}
    {outcome : Except Error α}
    (hhears : listener.Hears sequence socket.bufferSize state heard outcome)
    (hsupplied : Supplied arrivals heard rest) :
    listenThrough listener sequence socket state arrivals =
      (outcome, socket.received heard rest) := by
  generalize hsize : socket.bufferSize = size at hhears
  induction hhears generalizing socket arrivals with
  | @decided state arrival outcome hheard =>
      subst hsize
      rcases hsupplied.of_cons with ⟨rfl, rfl, -, rfl⟩ | ⟨tail, rfl, htail⟩
      · cases outcome <;> cases hheard
        rfl
      · obtain rfl := htail.of_nil
        cases arrival with
        | failure errno =>
            cases outcome <;> cases hheard
            rfl
        | datagram data =>
            simp only [items] at hheard
            rw [listenThrough]
            simp only [hheard]
            cases outcome <;> rfl
  | @undecided state next arrival heard outcome hheard _ ih =>
      subst hsize
      rcases hsupplied.of_cons with ⟨-, rfl, -⟩ | ⟨tail, rfl, htail⟩
      · cases hheard
      · cases arrival with
        | failure errno => cases hheard
        | datagram data =>
            simp only [items] at hheard
            rw [listenThrough]
            simp only [hheard]
            refine (@ih ({ socket with arrivals := tail }.note
              (.received (data.take socket.bufferSize).length 0)) _ htail rfl).trans ?_
            rw [received, received, List.map_cons, List.append_cons]
            rfl

/-- An exchange listens to the stream of the whole queue, whatever its parts are. -/
theorem hear_stream_eq (listener : Listener σ α) (sequence : UInt32) (socket : Socket) (state : σ)
    (arrivals : List Arrival) :
    listener.hear sequence state
        (stream socket.bufferSize arrivals ++ [.error (.io Errno.wouldBlock)]) =
      (listenThrough listener sequence socket state arrivals).1.map .done := by
  obtain ⟨heard, rest, outcome, hsupplied, hhears, hrun⟩ :=
    exists_hears listener sequence socket state arrivals
  obtain ⟨back, hstream⟩ := hsupplied.stream_eq socket.bufferSize
  rw [hstream, hear_append_of_done hhears.hear_stream, hrun]

end Socket

end Netlink

end TunnelControl
