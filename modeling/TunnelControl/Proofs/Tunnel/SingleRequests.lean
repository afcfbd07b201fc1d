import TunnelControl.Device.Channel
import TunnelControl.Proofs.Tunnel.Requests

namespace TunnelControl

open Netlink

/-! The record of a socket. -/

namespace Netlink.Socket

/-- The socket as an exchange finds it: its record starts anew. -/
def cleared (socket : Socket) : Socket :=
  { socket with trace := [], skipped := [] }

def resuming (socket earlier : Socket) : Socket :=
  { socket with
    trace := earlier.trace ++ socket.trace
    skipped := earlier.skipped ++ socket.skipped }

theorem cleared_resuming (socket : Socket) : socket.cleared.resuming socket = socket := by
  rw [resuming, cleared, List.append_nil, List.append_nil]

variable {σ α β : Type} {draft : Draft} {listener : Listener σ α} {state : σ}

theorem Asked.resuming {socket after : Socket} {sent : Option (Bytes × Int)} {heard : List Arrival}
    {outcome : Except Error α} (h : Asked draft listener state socket sent heard outcome after)
    (earlier : Socket) :
    Asked draft listener state (socket.resuming earlier) sent heard outcome
      (after.resuming earlier) := by
  cases h with
  | unwritten hfinish => exact .unwritten hfinish
  | unsent hframe hsend =>
      have hunsent := @unsent _ _ draft listener state (socket.resuming earlier) _ hframe hsend
      simpa only [handed, Socket.resuming, List.append_assoc] using hunsent
  | sent hframe hsend hsupplied hhears =>
      have hsent := @sent _ _ draft listener state (socket.resuming earlier) _ _ _ _ hframe hsend
        hsupplied hhears
      simpa only [handed, received, Socket.resuming, List.append_assoc] using hsent

/-- What was recorded before makes no difference to the exchange. -/
def IgnoresRecord (program : Exchange α) : Prop :=
  ∀ socket earlier : Socket,
    program.run (socket.resuming earlier) =
      ((program.run socket).1, (program.run socket).2.resuming earlier)

theorem ignoresRecord_pure (value : α) : IgnoresRecord (pure value : Exchange α) :=
  fun _ _ => rfl

theorem IgnoresRecord.bind {first : Exchange α} {next : α → Exchange β}
    (hfirst : IgnoresRecord first) (hnext : ∀ value, IgnoresRecord (next value)) :
    IgnoresRecord (first >>= next) := by
  intro socket earlier
  have hresumed := hfirst socket earlier
  rcases hrun : first.run socket with ⟨error | value, middle⟩
  · rw [hrun] at hresumed
    rw [Exchange.run_bind_of_error hresumed, Exchange.run_bind_of_error hrun]
  · rw [hrun] at hresumed
    rw [Exchange.run_bind_of_ok hresumed, Exchange.run_bind_of_ok hrun]
    exact hnext value middle earlier

theorem ignoresRecord_request (request : Request) :
    IgnoresRecord (Socket.request request.draft) := by
  intro socket earlier
  obtain ⟨sent, heard, outcome, after, hasked⟩ :=
    exists_asked request.draft acknowledgement () socket
  rw [run_request_eq_ask request.headed, run_request_eq_ask request.headed, hasked.run,
    (hasked.resuming earlier).run]

/-! What exchanges leave in the record. -/

end Netlink.Socket

/-- A frame of the request was handed to the kernel, and then nothing happened but receives. -/
def Request.RecordedAs (request : Request) (events : List Event) : Prop :=
  ∃ (frame : Bytes) (errno : Int) (size : Nat) (heard : List Arrival), request.WellFormed frame ∧
    events = .sent frame errno :: heard.map (Arrival.receipt size)

theorem Request.RecordedAs.wellFormed {request : Request} {events : List Event}
    (h : request.RecordedAs events) {frame : Bytes} {errno : Int}
    (hmem : .sent frame errno ∈ events) : request.WellFormed frame := by
  obtain ⟨sent, number, size, heard, hsent, rfl⟩ := h
  rcases List.mem_cons.mp hmem with hframe | hreceipt
  · cases hframe
    exact hsent
  · obtain ⟨arrival, -, harrival⟩ := List.mem_map.mp hreceipt
    cases arrival <;> cases harrival

namespace Netlink.Socket

variable {σ α β : Type} {request : Request}

def KeepsTrace (program : Exchange α) : Prop :=
  ∀ socket, (program.run socket).2.trace = socket.trace

theorem keepsTrace_pure (value : α) : KeepsTrace (pure value : Exchange α) :=
  fun _ => rfl

theorem keepsTrace_throw (error : Error) : KeepsTrace (throw error : Exchange α) :=
  fun _ => rfl

theorem keepsTrace_lift (result : Except Error α) : KeepsTrace (liftM result : Exchange α) := by
  intro socket
  rw [Exchange.run_lift]

theorem KeepsTrace.bind {first : Exchange α} {next : α → Exchange β} (hfirst : KeepsTrace first)
    (hnext : ∀ value, KeepsTrace (next value)) : KeepsTrace (first >>= next) := by
  intro socket
  have htrace := hfirst socket
  rcases hrun : first.run socket with ⟨error | value, middle⟩
  · rw [hrun] at htrace
    rw [Exchange.run_bind_of_error hrun]
    exact htrace
  · rw [hrun] at htrace
    rw [Exchange.run_bind_of_ok hrun, hnext value middle]
    exact htrace

theorem KeepsTrace.mapM {next : α → Exchange β} (h : ∀ value, KeepsTrace (next value))
    (values : List α) : KeepsTrace (values.mapM next) := by
  induction values with
  | nil => exact keepsTrace_pure []
  | cons value values ih =>
      rw [List.mapM_cons]
      exact (h value).bind fun _ => ih.bind fun _ => keepsTrace_pure _

/-- The request is made once and nothing else is asked for. Without a frame there is no result. -/
def MakesOnly (request : Request) (program : Exchange α) : Prop :=
  ∀ socket, ∃ events, (program.run socket).2.trace = socket.trace ++ events ∧
    (request.RecordedAs events ∨ events = [] ∧ ∃ error, (program.run socket).1 = .error error)

theorem makesOnly_ask (request : Request) (listener : Listener σ α) (state : σ) :
    MakesOnly request (ask request.draft listener state) := by
  intro socket
  obtain ⟨sent, heard, outcome, after, hasked⟩ :=
    exists_asked request.draft listener state socket
  rw [hasked.run]
  cases hasked with
  | unwritten hfinish => exact ⟨[], (List.append_nil _).symm, .inr ⟨rfl, _, rfl⟩⟩
  | unsent hframe hsend =>
      exact ⟨_, rfl, .inl ⟨_, _, 0, [], Request.wellFormed_of_finish hframe, rfl⟩⟩
  | @sent frame heard rest outcome hframe hsend hsupplied hhears =>
      exact ⟨.sent frame 0 :: heard.map (Arrival.receipt socket.bufferSize),
        (List.append_cons _ _ _).symm,
        .inl ⟨frame, 0, _, heard, Request.wellFormed_of_finish hframe, rfl⟩⟩

theorem MakesOnly.bind {first : Exchange α} {next : α → Exchange β}
    (hfirst : MakesOnly request first) (hnext : ∀ value, KeepsTrace (next value)) :
    MakesOnly request (first >>= next) := by
  intro socket
  obtain ⟨events, htrace, hevents⟩ := hfirst socket
  rcases hrun : first.run socket with ⟨error | value, middle⟩
  · rw [hrun] at htrace
    rw [Exchange.run_bind_of_error hrun]
    exact ⟨events, htrace, hevents.imp_right fun hnone => ⟨hnone.1, error, rfl⟩⟩
  · rw [hrun] at htrace hevents
    rw [Exchange.run_bind_of_ok hrun, hnext value middle]
    refine ⟨events, htrace, .inl (hevents.resolve_right ?_)⟩
    rintro ⟨-, error, herror⟩
    cases herror

theorem makesOnly_request (request : Request) :
    MakesOnly request (Socket.request request.draft) := by
  intro socket
  rw [run_request_eq_ask request.headed]
  exact makesOnly_ask request acknowledgement () socket

theorem makesOnly_resolve (family : String) :
    MakesOnly (.lookup family) (resolve family) :=
  makesOnly_ask (.lookup family) (FamilyInfo.listener family) ()

theorem makesOnly_addLink (name : String) : MakesOnly (.addLink name) (addLink name) :=
  makesOnly_request (.addLink name)

theorem makesOnly_removeLink (index : UInt32) : MakesOnly (.removeLink index) (removeLink index) :=
  makesOnly_request (.removeLink index)

theorem makesOnly_send {frame : Bytes} (hframe : request.WellFormed frame) :
    MakesOnly request (send frame) := by
  intro socket
  rw [run_send]
  split
  · exact ⟨_, rfl, .inl ⟨frame, 0, 0, [], hframe, rfl⟩⟩
  · exact ⟨_, rfl, .inl ⟨frame, _, 0, [], hframe, rfl⟩⟩

theorem makesOnly_sendAcknowledged {frame : Bytes} (hframe : request.WellFormed frame) :
    MakesOnly request (sendAcknowledged frame) := by
  intro socket
  have hlift := Exchange.run_lift (Header.read frame) socket
  rw [sendAcknowledged]
  cases hread : Header.read frame with
  | error error =>
      rw [hread] at hlift
      rw [Exchange.run_bind_of_error hlift]
      exact ⟨[], (List.append_nil _).symm, .inr ⟨rfl, error, rfl⟩⟩
  | ok header =>
      rw [hread] at hlift
      rw [Exchange.run_bind_of_ok hlift]
      have hsend := run_send socket frame
      split at hsend
      · rw [Exchange.run_bind_of_ok hsend]
        obtain ⟨heard, rest, outcome, -, -, hrun⟩ := exists_hears acknowledgement header.sequence
          { socket with
            sends := socket.sends.tail
            arrivals := socket.arrivals ++ socket.answer frame
            trace := socket.trace ++ [.sent frame 0] } () (socket.arrivals ++ socket.answer frame)
        refine ⟨.sent frame 0 :: heard.map (Arrival.receipt socket.bufferSize), ?_,
          .inl ⟨frame, 0, _, heard, hframe, rfl⟩⟩
        refine (congrArg (·.2.trace) hrun).trans ?_
        exact (List.append_cons _ _ _).symm
      · rw [Exchange.run_bind_of_error hsend]
        exact ⟨_, rfl, .inl ⟨frame, _, 0, [], hframe, rfl⟩⟩

theorem makesOnly_addressRequest (processId index : UInt32) (address : IPv6) (length : UInt8)
    (acknowledge : Bool) :
    MakesOnly (.addAddress index address length acknowledge)
      (AddressRequest.exchange processId index address length acknowledge) := by
  intro socket
  have hlift := Exchange.run_lift
    (AddressRequest.frame processId index address length acknowledge) socket
  rw [AddressRequest.exchange]
  cases hframe : AddressRequest.frame processId index address length acknowledge with
  | error error =>
      rw [hframe] at hlift
      rw [Exchange.run_bind_of_error hlift]
      exact ⟨[], (List.append_nil _).symm, .inr ⟨rfl, error, rfl⟩⟩
  | ok frame =>
      have hwritten : (Request.addAddress index address length acknowledge).WellFormed frame :=
        Request.wellFormed_of_finish hframe
      rw [hframe] at hlift
      rw [Exchange.run_bind_of_ok hlift]
      split
      · exact makesOnly_sendAcknowledged hwritten socket
      · exact makesOnly_send hwritten socket

theorem makesOnly_device (family : FamilyInfo) (name : String) :
    MakesOnly (.getDevice family.id name) (device family name) := by
  have hreplies : MakesOnly (.getDevice family.id name) (deviceReplies family name) := by
    apply (makesOnly_ask (.getDevice family.id name) collection []).bind
    intro replies
    split
    · exact (keepsTrace_throw _).bind fun _ => keepsTrace_pure replies
    · exact keepsTrace_pure replies
  apply hreplies.bind
  intro replies
  apply KeepsTrace.bind
  · exact fun _ => rfl
  · intro _
    exact keepsTrace_lift (Snapshot.ofReplies replies)

theorem fst_run_device {family : FamilyInfo} {name : String} {socket after : Socket}
    {replies : List Bytes}
    (h : (dump (Request.getDevice family.id name).draft).run socket = (.ok replies, after)) :
    ((device family name).run socket).1 =
      if replies = [] then .error (.kernel Errno.noDevice) else Snapshot.ofReplies replies := by
  have hreplies : (deviceReplies family name).run socket =
      (if replies = [] then .error (.kernel Errno.noDevice) else .ok replies, after) := by
    refine (Exchange.run_bind_of_ok h).trans ?_
    split <;> rfl
  rw [device]
  split at hreplies
  · rename_i hnone
    rw [Exchange.run_bind_of_error hreplies, if_pos hnone]
  · rename_i hsome
    have hskipped : (modify fun socket : Socket =>
        { socket with skipped := socket.skipped ++ Snapshot.skipped {} replies } :
          Exchange PUnit).run after =
        (.ok ⟨⟩, { after with skipped := after.skipped ++ Snapshot.skipped {} replies }) := rfl
    rw [Exchange.run_bind_of_ok hreplies, Exchange.run_bind_of_ok hskipped, Exchange.run_lift,
      if_neg hsome]

theorem makesOnly_tunnelLinks : MakesOnly .listLinks tunnelLinks := by
  apply (makesOnly_ask .listLinks collection []).bind
  intro payloads
  apply KeepsTrace.bind
  · apply KeepsTrace.mapM
    intro payload
    exact keepsTrace_lift (Link.ofPayload payload)
  · intro links
    exact keepsTrace_pure _

end Netlink.Socket

end TunnelControl
