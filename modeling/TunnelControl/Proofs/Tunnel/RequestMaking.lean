import TunnelControl.Proofs.Tunnel.SingleRequests
import TunnelControl.Tunnel.Management

/-!
Programs and the requests that they make. What the parts of a program send is what the whole of it
sends, for exchanges as for operations on the machine.
-/

namespace TunnelControl

open Netlink

section

variable {ε σ α β : Type} (trace : σ → List Event) (makes : Request → Prop)

/-- The program adds to the trace, and every frame that it sends is one of a request it may make. -/
def Makes (program : ExceptT ε (StateM σ) α) : Prop :=
  ∀ state, ∃ events, trace (program.run state).2 = trace state ++ events ∧
    ∀ frame errno, .sent frame errno ∈ events →
      ∃ request, makes request ∧ request.WellFormed frame

variable {trace makes}

theorem Makes.of_trace_eq {program : ExceptT ε (StateM σ) α}
    (h : ∀ state, trace (program.run state).2 = trace state) : Makes trace makes program :=
  fun state => ⟨[], (h state).trans (List.append_nil _).symm, nofun⟩

theorem Makes.of_events {program : ExceptT ε (StateM σ) α}
    (h : ∀ state, ∃ events, trace (program.run state).2 = trace state ++ events ∧
      ∀ frame errno, .sent frame errno ∉ events) : Makes trace makes program := by
  intro state
  obtain ⟨events, htrace, hquiet⟩ := h state
  exact ⟨events, htrace, fun frame errno hmem => absurd hmem (hquiet frame errno)⟩

theorem Makes.pure (value : α) : Makes trace makes (Pure.pure value : ExceptT ε (StateM σ) α) :=
  .of_trace_eq fun _ => rfl

theorem Makes.throw (error : ε) : Makes trace makes (throw error : ExceptT ε (StateM σ) α) :=
  .of_trace_eq fun _ => rfl

theorem Makes.bind {first : ExceptT ε (StateM σ) α} {next : α → ExceptT ε (StateM σ) β}
    (hfirst : Makes trace makes first) (hnext : ∀ value, Makes trace makes (next value)) :
    Makes trace makes (first >>= next) := by
  intro state
  obtain ⟨events, htrace, hevents⟩ := hfirst state
  rw [ExceptT.run_bind]
  rcases hrun : first.run state with ⟨outcome, middle⟩
  rw [hrun] at htrace
  simp only [Bind.bind, StateT.bind, hrun]
  cases outcome with
  | error error => exact ⟨events, htrace, hevents⟩
  | ok value =>
      obtain ⟨later, hlater, hframes⟩ := hnext value middle
      refine ⟨events ++ later, ?_, ?_⟩
      · rw [← List.append_assoc, ← htrace]
        exact hlater
      · intro frame errno hmem
        rcases List.mem_append.mp hmem with hearly | hlate
        · exact hevents frame errno hearly
        · exact hframes frame errno hlate

theorem Makes.map {program : ExceptT ε (StateM σ) α} (h : Makes trace makes program) (f : α → β) :
    Makes trace makes (f <$> program) := by
  rw [map_eq_pure_bind]
  exact h.bind fun value => .pure (f value)

end

/-! Exchanges. -/

namespace Netlink.Socket

variable {α : Type} {makes : Request → Prop}

theorem MakesOnly.toMakes {request : Request} {program : Exchange α} (h : MakesOnly request program)
    (hrequest : makes request) : Makes Socket.trace makes program := by
  intro socket
  obtain ⟨events, htrace, hevents⟩ := h socket
  refine ⟨events, htrace, fun frame errno hmem => ⟨request, hrequest, ?_⟩⟩
  rcases hevents with hrecorded | ⟨rfl, -⟩
  · exact hrecorded.wellFormed hmem
  · cases hmem

theorem makes_applyRequests {family : FamilyInfo} {name : String} {change : DeviceChange}
    (hmakes : ∀ part hpart, makes (.setDevice family.id name change part hpart))
    {parts : List DeviceChange} (hparts : ∀ part ∈ parts, part ∈ change.requests) :
    Makes Socket.trace makes (applyRequests family name parts) := by
  induction parts with
  | nil => exact .pure ()
  | cons part parts ih =>
      obtain ⟨hpart, hrest⟩ := List.forall_mem_cons.mp hparts
      exact ((makesOnly_request _).toMakes (hmakes part hpart)).bind fun _ => ih hrest

end Netlink.Socket

/-! What operations do beside their exchanges. -/

namespace Host

variable {makes : Request → Prop} {α : Type}

theorem run_get_bind (next : Host → Operation α) (host : Host) :
    (get >>= next).run host = (next host).run host := rfl

theorem makes_openControl : Makes Host.trace makes openControl := by
  apply Makes.of_events
  intro host
  refine ⟨[.controlOpened (host.controls.headD 0)], ?_, nofun⟩
  rw [openControl, run_get_bind]
  change (ExceptT.run (ite _ _ _ : Operation Unit) _).2.trace = _
  split <;> rfl

theorem makes_control (code : ControlCode) (record : Bytes) (classify : Int → Failure) :
    Makes Host.trace makes (control code record classify) := by
  apply Makes.of_events
  intro host
  rw [control, run_get_bind]
  dsimp only
  split <;> exact ⟨_, rfl, nofun⟩

theorem exists_run_indexOf (name : String) (host : Host) :
    ∃ outcome, (indexOf name).run host = (outcome, host) ∧
      ∀ failure, outcome = .error failure → failure = .deviceNotFound name none := by
  rw [indexOf, run_get_bind]
  dsimp only
  split <;> split
  · exact ⟨_, rfl, fun _ hfailure => (Except.error.inj hfailure).symm⟩
  · exact ⟨_, rfl, nofun⟩
  · exact ⟨_, rfl, fun _ hfailure => (Except.error.inj hfailure).symm⟩
  · exact ⟨_, rfl, nofun⟩

theorem makes_indexOf (name : String) : Makes Host.trace makes (indexOf name) := by
  apply Makes.of_trace_eq
  intro host
  obtain ⟨_, hrun, -⟩ := exists_run_indexOf name host
  rw [hrun]

theorem makes_addressesOf (name : String) : Makes Host.trace makes (addressesOf name) := by
  apply Makes.of_events
  intro host
  rw [addressesOf, run_get_bind]
  split
  · exact ⟨_, rfl, nofun⟩
  · refine ⟨_, rfl, ?_⟩
    split <;> exact nofun

theorem exists_run_openSocket (protocol : Protocol) (settings : Settings) (host : Host) :
    ∃ outcome errno, (openSocket protocol settings).run host =
        (outcome, { host with scripts := host.scripts.tail }.note [.opened protocol errno]) ∧
      ∀ failure, outcome = .error failure → ∃ error, failure = .netlinkSocket error := by
  rw [openSocket, run_get_bind]
  unfold Socket.establish
  dsimp only
  split
  · exact ⟨_, _, rfl, fun _ hfailure => ⟨_, (Except.error.inj hfailure).symm⟩⟩
  · split
    · exact ⟨_, _, rfl, fun _ hfailure => ⟨_, (Except.error.inj hfailure).symm⟩⟩
    · split
      · exact ⟨_, _, rfl, fun _ hfailure => ⟨_, (Except.error.inj hfailure).symm⟩⟩
      · exact ⟨_, _, rfl, nofun⟩

theorem makes_openSocket (protocol : Protocol) (settings : Settings) :
    Makes Host.trace makes (openSocket protocol settings) := by
  apply Makes.of_events
  intro host
  obtain ⟨_, _, hrun, -⟩ := exists_run_openSocket protocol settings host
  rw [hrun]
  exact ⟨_, rfl, nofun⟩

theorem makes_drawPrivateKey : Makes Host.trace makes drawPrivateKey :=
  .of_trace_eq fun _ => rfl

theorem makes_drawSharedKey : Makes Host.trace makes drawSharedKey :=
  .of_trace_eq fun _ => rfl

theorem makes_readAllowed (name : String) (texts : List String) :
    Makes Host.trace makes (Tunnel.readAllowed name texts) := by
  induction texts with
  | nil => exact .pure []
  | cons text texts ih =>
      rw [Tunnel.readAllowed]
      split
      · exact ih.bind fun rest => .pure _
      · exact (Makes.of_trace_eq fun _ => rfl).bind fun _ => ih

end Host

/-! Operations on a socket. -/

/-- The requests of a program on a socket, whatever socket it is given. -/
def MakesOn {α : Type} (makes : Request → Prop) (program : SocketOperation α) : Prop :=
  ∀ socket, Makes Host.trace makes (program.run socket)

namespace MakesOn

variable {makes : Request → Prop} {α β : Type}

theorem pure (value : α) : MakesOn makes (Pure.pure value) :=
  fun socket => .pure (value, socket)

theorem throw (failure : Failure) :
    MakesOn makes (MonadExcept.throw failure : SocketOperation α) :=
  fun _ => .throw failure

theorem bind {first : SocketOperation α} {next : α → SocketOperation β}
    (hfirst : MakesOn makes first) (hnext : ∀ value, MakesOn makes (next value)) :
    MakesOn makes (first >>= next) :=
  fun socket => (hfirst socket).bind fun result => hnext result.1 result.2

theorem lift {operation : Operation α} (h : Makes Host.trace makes operation) :
    MakesOn makes (liftM operation) :=
  fun socket => h.bind fun value => .pure (value, socket)

theorem mapM {next : α → SocketOperation β} (h : ∀ value, MakesOn makes (next value))
    (values : List α) : MakesOn makes (values.mapM next) := by
  induction values with
  | nil =>
      rw [List.mapM_nil]
      exact pure []
  | cons value values ih =>
      rw [List.mapM_cons]
      exact (h value).bind fun _ => ih.bind fun _ => pure _

theorem run_lift_bind_of_ok {operation : Operation α} {next : α → SocketOperation β}
    {host middle : Host} {value : α} (h : operation.run host = (.ok value, middle))
    (socket : Socket) :
    (((liftM operation : SocketOperation α) >>= next).run socket).run host =
      ((next value).run socket).run middle := by
  have hlift : ((liftM operation : SocketOperation α).run socket).run host =
      (.ok (value, socket), middle) := Exchange.run_bind_of_ok h
  rw [StateT.run_bind, Exchange.run_bind_of_ok hlift]

theorem run_exchange (classify : Error → Failure) (run : Exchange α) (socket : Socket)
    (host : Host) :
    ((SocketOperation.exchange classify run).run socket).run host =
      let (outcome, after) := run.run { socket with trace := [], skipped := [] }
      ExceptT.run (match outcome with
        | .ok result => Pure.pure (result, after)
        | .error error => MonadExcept.throw (classify error) : Operation (α × Socket))
        (host.noteExchange after) := rfl

theorem run_run' (program : SocketOperation α) (socket : Socket) (host : Host) :
    (program.run' socket).run host =
      (((program.run socket).run host).1.map (·.1), ((program.run socket).run host).2) := by
  rw [StateT.run'_eq, map_eq_pure_bind]
  rcases hrun : (program.run socket).run host with ⟨error | result, after⟩
  · exact Exchange.run_bind_of_error hrun
  · exact Exchange.run_bind_of_ok hrun

theorem exists_run_of_run'_ok {program : SocketOperation α} {socket : Socket} {host last : Host}
    {value : α} (h : (program.run' socket).run host = (.ok value, last)) :
    ∃ after, (program.run socket).run host = (.ok (value, after), last) := by
  rw [run_run'] at h
  rcases hrun : (program.run socket).run host with ⟨error | ⟨result, after⟩, reached⟩
  · rw [hrun] at h
    cases h
  · rw [hrun] at h
    cases h
    exact ⟨after, rfl⟩

theorem run_exchange_of_ok (classify : Error → Failure) {run : Exchange α}
    {socket after : Socket} {value : α}
    (h : run.run { socket with trace := [], skipped := [] } = (.ok value, after)) (host : Host) :
    ((SocketOperation.exchange classify run).run socket).run host =
      (.ok (value, after), host.noteExchange after) := by
  rw [run_exchange, h]
  rfl

theorem run_exchange_of_error (classify : Error → Failure) {run : Exchange α}
    {socket after : Socket} {error : Error}
    (h : run.run { socket with trace := [], skipped := [] } = (.error error, after))
    (host : Host) :
    ((SocketOperation.exchange classify run).run socket).run host =
      (.error (classify error), host.noteExchange after) := by
  rw [run_exchange, h]
  rfl

theorem run_exchange_eq_ok {classify : Error → Failure} {run : Exchange α}
    {socket after : Socket} {host last : Host} {value : α}
    (h : ((SocketOperation.exchange classify run).run socket).run host =
      (.ok (value, after), last)) :
    run.run { socket with trace := [], skipped := [] } = (.ok value, after) ∧
      last = host.noteExchange after := by
  rw [run_exchange] at h
  rcases hrun : run.run { socket with trace := [], skipped := [] } with ⟨error | result, reached⟩
  · rw [hrun] at h
    cases h
  · rw [hrun] at h
    cases h
    exact ⟨rfl, rfl⟩

theorem snd_run_exchange (classify : Error → Failure) (run : Exchange α) (socket : Socket)
    (host : Host) :
    (((SocketOperation.exchange classify run).run socket).run host).2 =
      host.noteExchange (run.run { socket with trace := [], skipped := [] }).2 := by
  rw [run_exchange]
  rcases run.run { socket with trace := [], skipped := [] } with ⟨outcome, after⟩
  cases outcome <;> rfl

theorem exchange {classify : Error → Failure} {run : Exchange α}
    (h : Makes Socket.trace makes run) : MakesOn makes (SocketOperation.exchange classify run) := by
  intro socket host
  obtain ⟨events, htrace, hframes⟩ := h { socket with trace := [], skipped := [] }
  refine ⟨events, ?_, hframes⟩
  rw [snd_run_exchange]
  exact congrArg (host.trace ++ ·) htrace

end MakesOn

theorem makes_onNewSocket {α : Type} {makes : Request → Prop} (protocol : Protocol)
    (settings : Settings) {run : SocketOperation α} (h : MakesOn makes run) :
    Makes Host.trace makes (SocketOperation.onNewSocket protocol settings run) :=
  (Host.makes_openSocket protocol settings).bind fun socket => (h socket).map (·.1)

end TunnelControl
