import TunnelControl.Proofs.Device.StopAndWait
import TunnelControl.Proofs.Tunnel.SentFrames

namespace TunnelControl

open Netlink Netlink.Attribute

theorem Request.WellFormed.drop_header {request : Request} {frame : Bytes}
    (h : request.WellFormed frame) :
    frame.drop Header.size = request.record ++ encodeAll request.attributes := by
  obtain ⟨header, hlength, -, -, -, hread⟩ := h.read
  exact Message.drop_of_ofDatagram hread hlength

namespace Event

def change? : Event → Option Bytes
  | .sent frame _ =>
      if (frame.drop Header.size).head? = some TunnelFamily.setDevice then some frame else none
  | _ => none

def changes (events : List Event) : List Bytes :=
  events.filterMap change?

theorem changes_append (front back : List Event) :
    changes (front ++ back) = changes front ++ changes back :=
  List.filterMap_append

theorem change?_of_setDevice {family : UInt16} {name : String} {change part : DeviceChange}
    {hpart : part ∈ change.requests} {frame : Bytes} (errno : Int)
    (h : (Request.setDevice family name change part hpart).WellFormed frame) :
    change? (.sent frame errno) = some frame := by
  rw [change?, h.drop_header]
  rfl

theorem change?_of_finds {settings : Settings} {name : String} {request : Request} {frame : Bytes}
    (errno : Int) (hfinds : request.Finds settings name) (h : request.WellFormed frame) :
    change? (.sent frame errno) = none := by
  rw [change?, h.drop_header]
  rcases hfinds with rfl | ⟨family, rfl⟩
  · rfl
  · rfl

theorem changes_of_finds {settings : Settings} {name : String} {events : List Event}
    (h : ∀ frame errno, .sent frame errno ∈ events →
      ∃ request : Request, request.Finds settings name ∧ request.WellFormed frame) :
    changes events = [] := by
  rw [changes, List.filterMap_eq_nil_iff]
  intro event hmem
  cases event with
  | sent frame errno =>
      obtain ⟨request, hfinds, hframe⟩ := h frame errno hmem
      exact change?_of_finds errno hfinds hframe
  | _ => rfl

theorem changes_receipts (size : Nat) (heard : List Arrival) :
    changes (heard.map (Arrival.receipt size)) = [] :=
  Arrival.filterMap_receipts size (fun _ _ => rfl) heard

end Event

/-! The frames of a change. -/

namespace Netlink.Socket

open Event

variable (family : FamilyInfo) {name : String}

/-- The frames that carry parts of a change, one for each. -/
def Carry (name : String) (change : DeviceChange) (parts : List DeviceChange)
    (frames : List Bytes) : Prop :=
  List.Forall₂ (fun part frame => ∃ hpart : part ∈ change.requests,
    (Request.setDevice family.id name change part hpart).WellFormed frame) parts frames

variable {family} in
theorem Carry.bodies {change : DeviceChange} {parts : List DeviceChange} {frames : List Bytes}
    (h : Carry family name change parts frames) :
    frames.map (·.drop Header.size) = parts.map (fun part =>
      CommandHeader.bytes ⟨TunnelFamily.setDevice, TunnelFamily.version, 0⟩ ++
        encodeAll (part.attributes name)) ∧
      ∀ part ∈ parts, FitsAll (part.attributes name) := by
  induction h with
  | nil => exact ⟨rfl, nofun⟩
  | cons hframe _ ih =>
      obtain ⟨hpart, hwritten⟩ := hframe
      refine ⟨?_, List.forall_mem_cons.mpr ⟨hwritten.fits, ih.2⟩⟩
      rw [List.map_cons, List.map_cons, hwritten.drop_header, ih.1]
      rfl

theorem exists_carry_of_prefix {port number : UInt32} {change : DeviceChange}
    {parts : List DeviceChange} (hparts : ∀ part ∈ parts, part ∈ change.requests)
    {transmissions : List Transmission}
    (h : transmissions.map (fun transmission => (transmission.number, .ok transmission.frame)) <+:
      changeFrames family name port number parts) :
    ∃ sent, sent <+: parts ∧ sent.length = transmissions.length ∧
      Carry family name change sent (transmissions.map (·.frame)) := by
  induction transmissions generalizing parts number with
  | nil => exact ⟨[], List.nil_prefix, rfl, .nil⟩
  | cons transmission transmissions ih =>
      cases parts with
      | nil => exact absurd h (by simp [changeFrames])
      | cons part parts =>
          obtain ⟨hpart, hrest⟩ := List.forall_mem_cons.mp hparts
          rw [changeFrames_cons, List.map_cons, List.cons_prefix_cons, Prod.mk.injEq] at h
          obtain ⟨⟨-, hframe⟩, hlater⟩ := h
          obtain ⟨sent, hfront, hlength, hcarry⟩ := ih hrest hlater
          refine ⟨part :: sent, (List.prefix_cons_inj part).mpr hfront,
            congrArg (· + 1) hlength, .cons ⟨hpart, ?_⟩ hcarry⟩
          exact Request.wellFormed_of_finish hframe.symm

theorem changes_of_carry {change : DeviceChange} {parts : List DeviceChange} (size : Nat)
    {transmissions : List Transmission}
    (h : Carry family name change parts (transmissions.map (·.frame))) :
    changes (transmissions.flatMap (Transmission.events size)) =
      transmissions.map (·.frame) := by
  induction transmissions generalizing parts with
  | nil => rfl
  | cons transmission transmissions ih =>
      cases h with
      | cons hframe hrest =>
          obtain ⟨hpart, hwritten⟩ := hframe
          have hfirst : changes (transmission.events size) = [transmission.frame] := by
            have hsent := change?_of_setDevice transmission.errno hwritten
            rw [Transmission.events, changes, List.filterMap_cons_some hsent, ← changes,
              changes_receipts]
          rw [List.flatMap_cons, changes_append, hfirst, ih hrest]
          rfl

theorem TransmitsAll.skipped_eq {socket after : Socket} {transmissions : List Transmission}
    (h : socket.TransmitsAll transmissions after) : after.skipped = socket.skipped := by
  induction h with
  | nil => rfl
  | cons first rest ih =>
      rw [ih]
      cases first <;> rfl

/-- The frames that change the device carry the first requests of the change, and all of them if
it succeeds. -/
theorem exists_changes (hname : name.utf8ByteSize ≤ 65530) (change : DeviceChange)
    (socket : Socket) :
    ∃ events parts outcome after, (applyChange family name change).run socket = (outcome, after) ∧
      after.trace = socket.trace ++ events ∧ after.skipped = socket.skipped ∧
      Carry family name change parts (changes events) ∧ parts <+: change.requests ∧ parts ≠ [] ∧
      (outcome = .ok () → parts = change.requests) := by
  obtain ⟨transmissions, outcome, after, hrun, hall, hframes, hconcludes⟩ :=
    exists_transmitsAll family hname change.requests_cost_le socket
  obtain ⟨sent, hfront, hlength, hcarry⟩ :=
    exists_carry_of_prefix family (fun _ hpart => hpart) hframes
  have hchanges := changes_of_carry family socket.bufferSize hcarry
  refine ⟨_, sent, outcome, after, hrun, hall.trace_eq, hall.skipped_eq, hchanges ▸ hcarry,
    hfront, ?_, ?_⟩
  · rintro rfl
    obtain ⟨part, parts, hrequests, -⟩ := change.requests_eq_cons
    rw [List.eq_nil_of_length_eq_zero hlength.symm, hrequests] at hconcludes
    cases hconcludes
  · intro hok
    exact hfront.eq_of_length (hlength.trans (hconcludes.eq_ok_iff.mp hok).1)

end Netlink.Socket

/-! Finding the device. -/

theorem Host.warnings_openSocket (protocol : Protocol) (settings : Settings) (host : Host) :
    ((openSocket protocol settings).run host).2.warnings = host.warnings := by
  obtain ⟨_, _, hrun, -⟩ := exists_run_openSocket protocol settings host
  rw [hrun]
  rfl

namespace Tunnel

variable (settings : Settings) (name : String)

/-- Finds the tunnel family and the device, and keeps the socket that they were found through. -/
def locate : Operation ((FamilyInfo × Snapshot) × Socket) := do
  let socket ← Host.openSocket .generic settings
  let found : SocketOperation (FamilyInfo × Snapshot) := do
    let family ← SocketOperation.exchange .request (Socket.resolve settings.tunnelFamily)
    let snapshot ← fetch family name
    return (family, snapshot)
  found.run socket

theorem withFamily_fetch_eq {α : Type} (next : FamilyInfo → Snapshot → SocketOperation α) :
    withFamily settings (fun family => fetch family name >>= next family) =
      locate settings name >>= fun found => (next found.1.1 found.1.2).run' found.2 := by
  simp [withFamily, SocketOperation.onNewSocket, locate, StateT.run'_eq]

theorem makes_locate :
    Makes Host.trace (Request.Finds settings name) (locate settings name) := by
  apply (Host.makes_openSocket _ _).bind
  intro socket
  have hfound : MakesOn (Request.Finds settings name) (do
      let family ← SocketOperation.exchange .request (Socket.resolve settings.tunnelFamily)
      let snapshot ← fetch family name
      return (family, snapshot)) := by
    apply (makes_resolve settings (.inl rfl)).bind
    intro family
    exact (makes_fetch name (.inr ⟨family.id, rfl⟩)).bind fun snapshot => .pure _
  exact hfound socket

variable {settings name}

theorem exists_located (host : Host) :
    ∃ events outcome after, (locate settings name).run host = (outcome, after) ∧
      after.trace = host.trace ++ events ∧ Event.changes events = [] := by
  obtain ⟨events, htrace, hfinds⟩ := makes_locate settings name host
  exact ⟨events, _, _, rfl, htrace, Event.changes_of_finds hfinds⟩

theorem exists_of_locate_ok {host after : Host} {family : FamilyInfo} {snapshot : Snapshot}
    {socket : Socket}
    (h : (locate settings name).run host = (.ok ((family, snapshot), socket), after)) :
    ∃ first opened second, (Host.openSocket .generic settings).run host = (.ok first, opened) ∧
      (Socket.resolve settings.tunnelFamily).run { first with trace := [], skipped := [] } =
        (.ok family, second) ∧
      (Socket.device family name).run { second with trace := [], skipped := [] } =
        (.ok snapshot, socket) ∧
      after = (opened.noteExchange second).noteExchange socket := by
  obtain ⟨first, opened, hopened, hfound⟩ := Exchange.exists_run_of_bind_ok h
  rw [StateT.run_bind] at hfound
  obtain ⟨⟨found, second⟩, resolved, hresolve, hfetch⟩ := Exchange.exists_run_of_bind_ok hfound
  rw [StateT.run_bind] at hfetch
  obtain ⟨⟨fetched, third⟩, last, hdevice, hlast⟩ := Exchange.exists_run_of_bind_ok hfetch
  obtain ⟨hresolved, rfl⟩ := MakesOn.run_exchange_eq_ok hresolve
  obtain ⟨hread, rfl⟩ := MakesOn.run_exchange_eq_ok hdevice
  cases hlast
  exact ⟨first, opened, second, hopened, hresolved, hread, rfl⟩

theorem exists_warnings_of_located {host after : Host} {family : FamilyInfo}
    {snapshot : Snapshot} {socket : Socket}
    (h : (locate settings name).run host = (.ok ((family, snapshot), socket), after)) :
    ∃ sizes : List Nat, after.warnings = host.warnings ++ sizes.map .shortReply := by
  obtain ⟨first, opened, second, hopened, -, -, rfl⟩ := exists_of_locate_ok h
  have hwarnings := Host.warnings_openSocket .generic settings host
  rw [hopened] at hwarnings
  refine ⟨second.skipped ++ socket.skipped, ?_⟩
  rw [List.map_append, ← List.append_assoc, ← hwarnings]
  rfl

theorem name_fits_of_located {host after : Host} {family : FamilyInfo} {snapshot : Snapshot}
    {socket : Socket}
    (h : (locate settings name).run host = (.ok ((family, snapshot), socket), after)) :
    name.utf8ByteSize ≤ 65530 := by
  obtain ⟨first, opened, second, -, -, hread, -⟩ := exists_of_locate_ok h
  refine Nat.le_of_not_lt fun hlong => ?_
  rw [Request.run_device_of_long_name family hlong] at hread
  cases hread

end Tunnel

end TunnelControl
