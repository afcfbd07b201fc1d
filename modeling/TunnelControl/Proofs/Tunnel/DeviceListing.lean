import TunnelControl.Proofs.Host.HostRun
import TunnelControl.Proofs.Tunnel.SteadyExchanges

/-!
The description of all devices beside the descriptions of each. The first asks for every device on
one socket, the others open a socket and look the family up for each. On a kernel that answers by
what it is asked for, they come to the same.
-/

namespace TunnelControl

open Netlink

/-- A kernel whose sockets of a protocol all open or all fail alike, and that answers a frame by
what it asks for. -/
structure SteadyKernel where
  fault? : Protocol → Option Int
  answer : Protocol → Bytes → List Message

/-- The socket behaves like every socket of this protocol. -/
structure Script.Obeys (kernel : SteadyKernel) (protocol : Protocol) (size : Nat)
    (script : Script) : Prop where
  opens : script.fault? = kernel.fault? protocol
  sends : ∀ errno ∈ script.sends, errno = 0
  arrivals : script.arrivals = []
  answers : AnswersAs (kernel.answer protocol) size script.answer

namespace Host

variable {kernel : SteadyKernel} {size : Nat} {host : Host}

/-- The sockets to be opened are all for asking for devices. -/
structure Continues (kernel : SteadyKernel) (size : Nat) (host : Host) : Prop where
  scripts : ∀ script ∈ host.scripts, script.Obeys kernel .generic size
  spare : (host.spare .generic).Obeys kernel .generic size

structure Begins (kernel : SteadyKernel) (size : Nat) (host : Host) : Prop where
  first : (host.script .route).Obeys kernel .route size
  later : (host.opening .route).Continues kernel size

theorem Continues.script (h : host.Continues kernel size) :
    (host.script .generic).Obeys kernel .generic size := by
  rw [Host.script]
  cases hscripts : host.scripts with
  | nil => exact h.spare
  | cons script scripts => exact h.scripts script (hscripts ▸ List.mem_cons_self)

theorem Continues.opening (h : host.Continues kernel size) :
    (host.opening .generic).Continues kernel size :=
  ⟨fun script hmem => h.scripts script (List.mem_of_mem_tail hmem), h.spare⟩

theorem Continues.noteExchange (h : host.Continues kernel size) (socket : Socket) :
    (host.noteExchange socket).Continues kernel size :=
  ⟨h.scripts, h.spare⟩

theorem serves_nextSocket {protocol : Protocol} {settings : Settings}
    (h : (host.script protocol).Obeys kernel protocol (receiveSize settings)) :
    (host.nextSocket protocol settings).Serves (kernel.answer protocol) (receiveSize settings) where
  bufferSize := rfl
  sends := h.sends
  answers := h.answers
  queued := ⟨[], congrArg (Arrival.stream _) h.arrivals, nofun⟩

end Host

/-! Programs on a socket. -/

namespace SocketOperation

variable {α β : Type} {kernel : SteadyKernel} {protocol : Protocol} {size : Nat}

/-- On every socket of the protocol the program comes to this result; with a value, the socket and
the machine are as good as they were. -/
def YieldsOn (kernel : SteadyKernel) (protocol : Protocol) (size : Nat)
    (program : SocketOperation α) (result : Except Failure α) : Prop :=
  ∀ socket : Socket, ∀ host : Host, socket.Serves (kernel.answer protocol) size →
    host.Continues kernel size → ∃ after last,
      (program.run socket).run host = (result.map (·, after), last) ∧
      ∀ value, result = .ok value →
        after.Serves (kernel.answer protocol) size ∧ last.Continues kernel size

theorem YieldsOn.pure (value : α) :
    YieldsOn kernel protocol size (Pure.pure value) (.ok value) :=
  fun socket host hsocket hhost => ⟨socket, host, rfl, fun _ _ => ⟨hsocket, hhost⟩⟩

theorem YieldsOn.bind {first : SocketOperation α} {next : α → SocketOperation β}
    {result : Except Failure α} {results : α → Except Failure β}
    (hfirst : YieldsOn kernel protocol size first result)
    (hnext : ∀ value, YieldsOn kernel protocol size (next value) (results value)) :
    YieldsOn kernel protocol size (first >>= next) (result >>= results) := by
  intro socket host hsocket hhost
  obtain ⟨middle, reached, hrun, hreached⟩ := hfirst socket host hsocket hhost
  cases result with
  | error failure => exact ⟨middle, reached, Exchange.run_bind_of_error hrun, nofun⟩
  | ok value =>
      obtain ⟨hserves, hcontinues⟩ := hreached value rfl
      obtain ⟨after, last, hrest, hlast⟩ := hnext value middle reached hserves hcontinues
      exact ⟨after, last, (Exchange.run_bind_of_ok hrun).trans hrest, hlast⟩

theorem YieldsOn.mapM {next : α → SocketOperation β} {results : α → Except Failure β}
    (h : ∀ value, YieldsOn kernel protocol size (next value) (results value)) (values : List α) :
    YieldsOn kernel protocol size (values.mapM next) (values.mapM results) := by
  induction values with
  | nil =>
      rw [List.mapM_nil, List.mapM_nil]
      exact .pure []
  | cons value values ih =>
      rw [List.mapM_cons, List.mapM_cons]
      exact (h value).bind fun _ => ih.bind fun _ => .pure _

theorem YieldsOn.exchange (classify : Error → Failure) {run : Exchange α}
    {result : Except Error α} (h : Socket.YieldsOn (kernel.answer protocol) size run result) :
    YieldsOn kernel protocol size (exchange classify run) (result.mapError classify) := by
  intro socket host hsocket hhost
  obtain ⟨after, hrun, hafter⟩ := h { socket with trace := [], skipped := [] }
    ⟨hsocket.bufferSize, hsocket.sends, hsocket.answers, hsocket.queued⟩
  cases result with
  | error error => exact ⟨after, _, MakesOn.run_exchange_of_error classify hrun host, nofun⟩
  | ok value =>
      exact ⟨after, _, MakesOn.run_exchange_of_ok classify hrun host,
        fun _ _ => ⟨hafter value rfl, hhost.noteExchange after⟩⟩

end SocketOperation

namespace SteadyKernel

variable (kernel : SteadyKernel) (settings : Settings)

def opened (protocol : Protocol) : Except Failure Unit :=
  match kernel.fault? protocol with
  | some errno => .error (.netlinkSocket (.io errno))
  | none => .ok ()

variable {kernel settings}

theorem yields_onNewSocket {α : Type} {protocol : Protocol} {before : Host → Prop}
    {run : SocketOperation α} {result : Except Failure α}
    (hscript : ∀ host, before host →
      (host.script protocol).Obeys kernel protocol (Host.receiveSize settings))
    (hopening : ∀ host, before host →
      (host.opening protocol).Continues kernel (Host.receiveSize settings))
    (hrun : run.YieldsOn kernel protocol (Host.receiveSize settings) result) :
    Yields before (Host.Continues kernel (Host.receiveSize settings))
      (SocketOperation.onNewSocket protocol settings run)
      (kernel.opened protocol >>= fun _ => result) := by
  intro host h
  have hopens := (hscript host h).opens
  rw [opened]
  cases hfault : kernel.fault? protocol with
  | some errno =>
      rw [hfault] at hopens
      exact ⟨_, SocketOperation.run_onNewSocket_of_fault hopens, nofun⟩
  | none =>
      rw [hfault] at hopens
      obtain ⟨after, last, hlast, hcontinues⟩ := hrun _ _
        (Host.serves_nextSocket (hscript host h)) (hopening host h)
      refine ⟨last, ?_, fun value hvalue => (hcontinues value hvalue).2⟩
      rw [SocketOperation.run_onNewSocket_of_opened hopens, MakesOn.run_run', hlast]
      cases result <;> rfl

/-! What the operations come to. -/

variable (kernel settings)

def names : Except Failure (List String) := do
  kernel.opened .route
  let links ← (do
    let payloads ← Request.listLinks.conclude (kernel.answer .route) Socket.collection []
    let links ← payloads.mapM Link.ofPayload
    return links.filter Link.isTunnel : Except Error (List Link)).mapError .request
  return links.filterMap Link.name

def family : Except Failure FamilyInfo :=
  ((Request.lookup settings.tunnelFamily).conclude (kernel.answer .generic)
    (FamilyInfo.listener settings.tunnelFamily) ()).mapError .request

def report [Base64.Codec] (family : FamilyInfo) (name : String) : Except Failure DeviceReport := do
  let replies : Except Error (List Bytes) :=
    (Request.getDevice family.id name).conclude (kernel.answer .generic) Socket.collection []
  let snapshot ← (replies >>= Socket.someReplies >>= Snapshot.ofReplies).mapError
    fun error => .deviceNotFound name (some error)
  return .ofSnapshot name snapshot

variable {kernel settings}

theorem yields_names :
    Yields (Host.Begins kernel (Host.receiveSize settings))
      (Host.Continues kernel (Host.receiveSize settings)) (Tunnel.names settings) kernel.names := by
  refine yields_onNewSocket (fun host h => h.first) (fun host h => h.later) ?_
  exact (SocketOperation.YieldsOn.exchange .request Socket.yields_tunnelLinks).bind
    fun links => .pure _

theorem yields_withFamily {α : Type} {run : FamilyInfo → SocketOperation α}
    {results : FamilyInfo → Except Failure α}
    (hrun : ∀ family,
      (run family).YieldsOn kernel .generic (Host.receiveSize settings) (results family)) :
    Yields (Host.Continues kernel (Host.receiveSize settings))
      (Host.Continues kernel (Host.receiveSize settings)) (Tunnel.withFamily settings run)
      (kernel.opened .generic >>= fun _ => kernel.family settings >>= results) := by
  refine yields_onNewSocket (fun host h => h.script) (fun host h => h.opening) ?_
  exact (SocketOperation.YieldsOn.exchange .request (Socket.yields_resolve _)).bind hrun

theorem yields_report [Base64.Codec] (family : FamilyInfo) (name : String) :
    SocketOperation.YieldsOn kernel .generic (Host.receiveSize settings)
      (do return .ofSnapshot name (← Tunnel.fetch family name)) (kernel.report family name) :=
  (SocketOperation.YieldsOn.exchange _ (Socket.yields_device family name)).bind fun _ => .pure _

theorem yields_describe [Base64.Codec] (name : String) :
    Yields (Host.Continues kernel (Host.receiveSize settings))
      (Host.Continues kernel (Host.receiveSize settings)) (Tunnel.describe settings name)
      (kernel.opened .generic >>= fun _ => kernel.family settings >>= (kernel.report · name)) :=
  yields_withFamily (yields_report · name)

theorem yields_describeAll [Base64.Codec] :
    Yields (Host.Begins kernel (Host.receiveSize settings))
      (Host.Continues kernel (Host.receiveSize settings)) (Tunnel.describeAll settings)
      (kernel.names >>= fun names =>
        if names = [] then .ok []
        else kernel.opened .generic >>= fun _ => kernel.family settings >>= fun family =>
          names.mapM (kernel.report family)) := by
  refine yields_names.bind fun names => ?_
  split
  · exact .pure []
  · exact yields_withFamily fun family => SocketOperation.YieldsOn.mapM (yields_report family) names

end SteadyKernel

/-! A machine for every such kernel. -/

namespace Netlink.Message

def under (message : Message) (sequence : UInt32) : Message :=
  { message with header := { message.header with sequence } }

theorem restates_under (messages : List Message) (sequence : UInt32) :
    List.Forall₂ Restates (substance (messages.map (·.under sequence))) (substance messages) := by
  rw [substance, List.filter_map, List.forall₂_map_left_iff]
  exact List.forall₂_same.mpr fun message _ => ⟨rfl, rfl, rfl, fun _ => rfl⟩

theorem length_packet (messages : List Message) :
    (packet messages).length =
      (messages.map fun message => Bytes.align (Header.size + message.payload.length)).sum := by
  simp [packet, bytes, List.length_flatMap]

theorem length_packet_le_of_mem {messages : List Message} {packets : List (List Message)}
    (h : messages ∈ packets) : (packet messages).length ≤ (packet packets.flatten).length := by
  obtain ⟨front, back, rfl⟩ := List.append_of_mem h
  simp only [packet, List.flatten_append, List.flatten_cons, List.flatMap_append,
    List.length_append]
  omega

theorem length_packet_under (messages : List Message) (sequence : UInt32) :
    (packet (messages.map (·.under sequence))).length = (packet messages).length := by
  rw [length_packet, length_packet, List.map_map]
  rfl

end Netlink.Message

namespace SteadyKernel

def script (kernel : SteadyKernel) (packing : List Message → List (List Message))
    (protocol : Protocol) : Script where
  openErrno := (kernel.fault? protocol).getD 0
  answer frame :=
    match Header.take? frame with
    | some (header, _) =>
        (packing (kernel.answer protocol (unmarked frame))).map fun messages =>
          .datagram (Message.packet (messages.map (·.under header.sequence)))
    | none => []

theorem obeys_script {kernel : SteadyKernel} {packing : List Message → List (List Message)}
    {protocol : Protocol} {size : Nat} (hfault : kernel.fault? protocol ≠ some 0)
    (hpacking : ∀ messages, (packing messages).flatten = messages)
    (hframed : ∀ frame, ∀ message ∈ kernel.answer protocol frame, message.Framed)
    (hsize : ∀ frame, ∀ messages ∈ packing (kernel.answer protocol frame),
      (Message.packet messages).length ≤ size) :
    (kernel.script packing protocol).Obeys kernel protocol size where
  opens := by
    rw [Script.fault?, script]
    cases hopen : kernel.fault? protocol with
    | none => rfl
    | some errno =>
        have herrno : errno ≠ 0 := fun hzero => hfault (hzero ▸ hopen)
        exact if_pos herrno
  sends := nofun
  arrivals := rfl
  answers := by
    intro frame header rest htake
    let plain := kernel.answer protocol (unmarked frame)
    let stamp (message : Message) := message.under header.sequence
    have hflatten : ((packing plain).map (List.map stamp)).flatten = plain.map stamp := by
      rw [← List.map_flatten, hpacking]
    have hstream : Arrival.stream size
        ((((packing plain).map (List.map stamp)).map Message.packet).map .datagram) =
          ((packing plain).map (List.map stamp)).flatten.map .ok := by
      refine Socket.stream_packets ?_ (List.forall_mem_map.mpr fun messages hmem => ?_)
      · rw [hflatten]
        exact List.forall_mem_map.mpr (hframed (unmarked frame))
      · rw [Message.length_packet_under]
        exact hsize _ messages hmem
    refine ⟨plain.map stamp, ?_, List.forall_mem_map.mpr fun _ _ => rfl,
      Message.restates_under _ _⟩
    rw [hflatten, List.map_map, List.map_map] at hstream
    rw [script]
    dsimp only
    rw [htake]
    exact hstream

end SteadyKernel

namespace Tunnel

/-- What is done first and for everyone may as well be done for each. -/
theorem mapM_after_common {ε α β γ : Type} (first : Except ε α) (next : α → β → Except ε γ)
    (values : List β) :
    (values.mapM fun value => first >>= (next · value)) =
      if values = [] then .ok [] else first >>= fun common => values.mapM (next common) := by
  cases values with
  | nil => rfl
  | cons value values =>
      rw [if_neg (List.cons_ne_nil value values)]
      cases first with
      | error error =>
          rw [List.mapM_cons]
          rfl
      | ok common => rfl

/-- On a kernel that answers by what it is asked for, the devices are the same as when each is asked
for by itself, up to the first that fails, and so is the failure. -/
theorem describeAll_eq_describe_each [Base64.Codec] {kernel : SteadyKernel} {settings : Settings}
    {host other : Host} (h : host.Begins kernel (Host.receiveSize settings))
    (hother : other.Begins kernel (Host.receiveSize settings)) :
    ((describeAll settings).run host).1 =
      ((do (← names settings).mapM (describe settings) : Operation (List DeviceReport)).run
        other).1 := by
  obtain ⟨last, hall, -⟩ := SteadyKernel.yields_describeAll host h
  have heach : Yields (Host.Begins kernel (Host.receiveSize settings))
      (Host.Continues kernel (Host.receiveSize settings))
      (do (← names settings).mapM (describe settings))
      (kernel.names >>= (List.mapM fun name => kernel.opened .generic >>= fun _ =>
        kernel.family settings >>= (kernel.report · name))) :=
    SteadyKernel.yields_names.bind (Yields.mapM SteadyKernel.yields_describe)
  obtain ⟨reached, hreached, -⟩ := heach other hother
  rw [hall, hreached]
  refine congrArg (kernel.names >>= ·) (funext fun names => ?_)
  have hcommon := mapM_after_common (kernel.opened .generic >>= fun _ => kernel.family settings)
    kernel.report names
  simp only [bind_assoc] at hcommon
  exact hcommon.symm

theorem describeAll_eq_describe_each_two_devices :
    let link (place : UInt8) : Message := ⟨⟨60, 16, 2, 0, 0⟩,
      LinkHeader.bytes {} ++ [8, 0, 3, 0, 119, 103, place, 0, 20, 0, 18, 0, 14, 0, 1, 0] ++
        Utf8.encode "wireguard" ++ [0, 0, 0]⟩
    let info : Message := ⟨⟨28, 16, 0, 0, 0⟩, [1, 2, 0, 0, 6, 0, 1, 0, 26, 0, 0, 0]⟩
    let verdict : Message := ⟨⟨36, 2, 0, 0, 0⟩, List.replicate 20 0⟩
    let device (place : UInt8) : Message := ⟨⟨28, 26, 2, 0, 0⟩,
      [0, 1, 0, 0, 6, 0, 6, 0, place, 200, 0, 0]⟩
    let final : Message := ⟨⟨20, 3, 2, 0, 0⟩, [0, 0, 0, 0]⟩
    let answer : Protocol → Bytes → List Message
      | .route, _ => [link 48, link 49, final]
      | .generic, frame =>
          if frame.getD 4 0 = 16 then [info, verdict] else [device (frame.getD 26 0), final]
    let kernel : SteadyKernel := ⟨fun _ => none, answer⟩
    let host : Host := { spare := kernel.script (List.map ([·])) }
    let other : Host := { spare := kernel.script ([·]) }
    let reports : List DeviceReport :=
      [{ name := "wg0", listenPort := 51248 }, { name := "wg1", listenPort := 51249 }]
    host.Begins kernel (Host.receiveSize {}) ∧ other.Begins kernel (Host.receiveSize {}) ∧
      ((describeAll {}).run host).1 = .ok reports ∧
      ((do (← names {}).mapM (describe {}) : Operation (List DeviceReport)).run other).1 =
        .ok reports := by
  intro link info verdict device final answer kernel host other reports
  have hdevice : ∀ place, (Message.packet [device place, final]).length ≤ Host.receiveSize {} := by
    intro place
    rw [Message.length_packet]
    change Bytes.align 28 + (Bytes.align 20 + 0) ≤ _
    decide +kernel
  have hanswer : ∀ protocol frame, (∀ message ∈ answer protocol frame, message.Framed) ∧
      (Message.packet (answer protocol frame)).length ≤ Host.receiveSize {} := by
    intro protocol frame
    cases protocol with
    | route =>
        have hlinks : (∀ message ∈ [link 48, link 49, final], message.Framed) ∧
            (Message.packet [link 48, link 49, final]).length ≤ Host.receiveSize {} := by
          decide +kernel
        exact hlinks
    | generic =>
        by_cases hlookup : frame.getD 4 0 = 16
        · have hfamily : answer .generic frame = [info, verdict] := if_pos hlookup
          rw [hfamily]
          decide +kernel
        · have hdump : answer .generic frame = [device (frame.getD 26 0), final] := if_neg hlookup
          rw [hdump]
          exact ⟨List.forall_mem_cons.mpr ⟨rfl, List.forall_mem_singleton.mpr rfl⟩, hdevice _⟩
  have hobeys : ∀ packing : List Message → List (List Message),
      (∀ messages, (packing messages).flatten = messages) → ∀ protocol,
        (kernel.script packing protocol).Obeys kernel protocol (Host.receiveSize {}) := by
    intro packing hpacking protocol
    refine SteadyKernel.obeys_script nofun hpacking (fun frame => (hanswer protocol frame).1) ?_
    intro frame messages hmem
    have hpart := Message.length_packet_le_of_mem hmem
    rw [hpacking] at hpart
    exact hpart.trans (hanswer protocol frame).2
  have hapart := hobeys (List.map ([·])) List.flatMap_singleton'
  have htogether := hobeys ([·]) fun _ => List.flatten_singleton
  have hhost : host.Begins kernel (Host.receiveSize {}) :=
    ⟨hapart .route, ⟨nofun, hapart .generic⟩⟩
  have hother : other.Begins kernel (Host.receiveSize {}) :=
    ⟨htogether .route, ⟨nofun, htogether .generic⟩⟩
  have hall : ((describeAll {}).run host).1 = .ok reports := by decide +kernel
  exact ⟨hhost, hother, hall, (describeAll_eq_describe_each hhost hother).symm.trans hall⟩

end Tunnel

end TunnelControl
