import TunnelControl.Proofs.Host.HostRun
import TunnelControl.Proofs.Tunnel.PeerAddition
import TunnelControl.Proofs.Tunnel.Transmissions

namespace TunnelControl

open Netlink Netlink.Attribute

namespace Event

theorem change?_of_addLink {name : String} {frame : Bytes} (errno : Int)
    (h : (Request.addLink name).WellFormed frame) : change? (.sent frame errno) = none := by
  rw [change?, h.drop_header]
  rfl

theorem changes_transmission (transmission : Transmission) (size : Nat) :
    changes (transmission.events size) =
      (change? (.sent transmission.frame transmission.errno)).toList := by
  rw [Transmission.events, changes, List.filterMap_cons, ← changes, changes_receipts]
  cases change? (.sent transmission.frame transmission.errno) <;> rfl

end Event

namespace Tunnel

/-- The change that configures a new device. -/
def configuration (key : Key) (port : UInt16) : DeviceChange where
  privateKey := some key
  listenPort := some port

theorem configuration_mem (key : Key) (port : UInt16) :
    configuration key port ∈ (configuration key port).requests :=
  List.mem_singleton_self _

/-- What is said between the machine and the kernel while a device is made. -/
structure Creation (settings : Settings) (name : String) (port : UInt16) where
  adding : Transmission
  resolving : Transmission
  fetching : Transmission
  configuring : Transmission
  family : FamilyInfo
  replies : List Bytes
  snapshot : Snapshot
  key : Key
  adds : adding.Carries (.addLink name)
  added : adding.Acknowledged (Host.receiveSize settings)
  resolves : resolving.Carries (.lookup settings.tunnelFamily)
  resolved : (FamilyInfo.listener settings.tunnelFamily).hear resolving.number ()
    (Arrival.stream (Host.receiveSize settings) resolving.heard) = .ok (.done family)
  fetches : fetching.Carries (.getDevice family.id name)
  fetched : Dump.Collects fetching.number
    (Arrival.stream (Host.receiveSize settings) fetching.heard) replies
  nonempty : replies ≠ []
  described : Snapshot.ofReplies replies = .ok snapshot
  configures : configuring.Carries (.setDevice family.id name (configuration key port)
    (configuration key port) (configuration_mem key port))
  configured : configuring.Acknowledged (Host.receiveSize settings)
  clamped : key.Clamped

namespace Creation

variable {settings : Settings} {name : String} {port : UInt16}

def events (creation : Creation settings name port) : List Event :=
  let size := Host.receiveSize settings
  .opened .route 0 :: creation.adding.events size ++
    .opened .generic 0 :: (creation.resolving.events size ++ creation.fetching.events size ++
      creation.configuring.events size)

def report [Base64.Codec] [Curve.Product] (creation : Creation settings name port) :
    DeviceReport where
  name := creation.snapshot.name.getD name
  listenPort := port
  peers := UInt64.ofNat creation.snapshot.peers.length
  publicKey := Key.text (Key.publicKey creation.key)
  privateKey := Key.text creation.key

theorem views_configuring (creation : Creation settings name port) :
    views (creation.configuring.frame.drop (Header.size + CommandHeader.size)) =
      [⟨DeviceAttribute.name, Utf8.encode name ++ [0]⟩,
        ⟨DeviceAttribute.privateKey, creation.key.bytes⟩,
        ⟨DeviceAttribute.listenPort, Bytes.word16 port⟩] := by
  have hwritten := creation.configures.wellFormed
  have hrecord : (Request.setDevice creation.family.id name (configuration creation.key port)
      (configuration creation.key port) (configuration_mem creation.key port)).record.length =
      CommandHeader.size := CommandHeader.length_bytes _
  rw [← List.drop_drop, hwritten.drop_header, List.drop_left' hrecord]
  exact views_encodeAll hwritten.fits

theorem changes_events (creation : Creation settings name port) :
    Event.changes creation.events = [creation.configuring.frame] := by
  have hadds := Event.change?_of_addLink creation.adding.errno creation.adds.wellFormed
  have hresolves := Event.change?_of_finds creation.resolving.errno
    (.inl rfl : Request.Finds settings name _) creation.resolves.wellFormed
  have hfetches := Event.change?_of_finds creation.fetching.errno
    (.inr ⟨_, rfl⟩ : Request.Finds settings name _) creation.fetches.wellFormed
  have hconfigures := Event.change?_of_setDevice creation.configuring.errno
    creation.configures.wellFormed
  have hopened : ∀ protocol errno events,
      Event.changes (.opened protocol errno :: events) = Event.changes events :=
    fun _ _ _ => rfl
  simp [events, hopened, Event.changes_append, Event.changes_transmission, hadds, hresolves,
    hfetches, hconfigures]

end Creation

/-! The two halves. -/

variable {settings : Settings} {name : String} {port : UInt16} {host after : Host}

def addLink (settings : Settings) (name : String) : Operation Unit :=
  SocketOperation.onNewSocket .route settings
    (SocketOperation.exchange (.addDevice name) (Socket.addLink name))

def configureNew [Base64.Codec] [Curve.Product] (settings : Settings) (name : String)
    (port : UInt16) : Operation DeviceReport :=
  withFamily settings fun family => do
    let snapshot ← fetch family name
    let privateKey ← Host.drawPrivateKey
    configure family name { privateKey := some privateKey, listenPort := some port }
    return .ofSnapshot name
      { snapshot with
        privateKey := some privateKey
        publicKey := some (Key.publicKey privateKey)
        listenPort := port }

theorem create_eq [Base64.Codec] [Curve.Product] : create settings name port =
    addLink settings name >>= fun _ => configureNew settings name port := rfl

theorem exists_events_addLink (settings : Settings) (name : String) (host : Host) :
    ∃ events, ((addLink settings name).run host).2.trace = host.trace ++ events ∧
      Event.changes events = [] ∧ ∀ errno, .opened .generic errno ∉ events := by
  cases hfault : (host.script .route).fault? with
  | some errno =>
      rw [addLink, SocketOperation.run_onNewSocket_of_fault hfault]
      exact ⟨_, rfl, rfl, by simp⟩
  | none =>
      rw [addLink, SocketOperation.run_onNewSocket_of_opened hfault, MakesOn.run_run',
        MakesOn.snd_run_exchange]
      obtain ⟨events, htrace, hevents⟩ := Socket.makesOnly_addLink name
        { host.nextSocket .route settings with trace := [], skipped := [] }
      refine ⟨[.opened .route (host.script .route).openErrno] ++ events, ?_, ?_, fun errno => ?_⟩
      · rw [Host.noteExchange, htrace, Host.opening, Host.note, List.append_assoc]
        rfl
      · rcases hevents with ⟨frame, errno, size, heard, hframe, rfl⟩ | ⟨rfl, -⟩
        · have hsent : Event.changes (.sent frame errno :: heard.map (Arrival.receipt size)) =
              (Event.change? (.sent frame errno)).toList :=
            Event.changes_transmission ⟨0, frame, errno, heard⟩ size
          rw [Event.change?_of_addLink errno hframe] at hsent
          exact hsent
        · rfl
      · rcases hevents with ⟨frame, number, size, heard, hframe, rfl⟩ | ⟨rfl, -⟩
        · simp only [List.mem_append, List.mem_cons, List.not_mem_nil, or_false, List.mem_map]
          rintro (hroute | hsent | ⟨arrival, -, harrival⟩)
          · cases hroute
          · cases hsent
          · cases arrival <;> cases harrival
        · simp

theorem exists_adding (h : (addLink settings name).run host = (.ok (), after)) :
    ∃ adding : Transmission,
      after.trace = host.trace ++
        .opened .route 0 :: adding.events (Host.receiveSize settings) ∧
      adding.Carries (.addLink name) ∧ adding.Acknowledged (Host.receiveSize settings) := by
  cases hfault : (host.script .route).fault? with
  | some errno =>
      rw [addLink, SocketOperation.run_onNewSocket_of_fault hfault] at h
      cases h
  | none =>
      rw [addLink, SocketOperation.run_onNewSocket_of_opened hfault] at h
      obtain ⟨last, hexchange⟩ := MakesOn.exists_run_of_run'_ok h
      obtain ⟨hrun, rfl⟩ := MakesOn.run_exchange_eq_ok hexchange
      obtain ⟨adding, htransmits, hcarries, hacknowledged⟩ :=
        @Socket.exists_transmits_of_request (.addLink name) _ _ hrun
      refine ⟨adding, ?_, hcarries, hacknowledged⟩
      have htrace := congrArg ((host.opening .route).trace ++ ·) htransmits.trace_eq
      refine htrace.trans ?_
      rw [Host.opening, Script.openErrno_of_fault? hfault]
      exact (List.append_cons _ _ _).symm

/-! The configuration. -/

theorem exists_events_configureNew [Base64.Codec] [Curve.Product] (settings : Settings)
    (name : String) (port : UInt16) (host : Host) :
    ∃ errno events, ((configureNew settings name port).run host).2.trace =
      host.trace ++ .opened .generic errno :: events := by
  refine ⟨(host.script .generic).openErrno, ?_⟩
  cases hfault : (host.script .generic).fault? with
  | some errno =>
      rw [configureNew, withFamily, SocketOperation.run_onNewSocket_of_fault hfault]
      exact ⟨[], rfl⟩
  | none =>
      rw [configureNew, withFamily, SocketOperation.run_onNewSocket_of_opened hfault]
      have hmakes : MakesOn (fun _ => True) (do
          let family ← SocketOperation.exchange .request (Socket.resolve settings.tunnelFamily)
          let snapshot ← fetch family name
          let privateKey ← Host.drawPrivateKey
          configure family name { privateKey := some privateKey, listenPort := some port }
          return DeviceReport.ofSnapshot name
            { snapshot with
              privateKey := some privateKey
              publicKey := some (Key.publicKey privateKey)
              listenPort := port }) := by
        refine (makes_resolve settings trivial).bind fun family => ?_
        refine (makes_fetch name trivial).bind fun snapshot => ?_
        refine (MakesOn.lift Host.makes_drawPrivateKey).bind fun key => ?_
        exact (makes_configure name fun _ _ => trivial).bind fun _ => .pure _
      obtain ⟨events, htrace, -⟩ :=
        (hmakes (host.nextSocket .generic settings)).map (·.1) (host.opening .generic)
      refine ⟨events, htrace.trans ?_⟩
      rw [Host.opening, Host.note, List.append_assoc]
      rfl

theorem exists_of_configureNew_ok [Base64.Codec] [Curve.Product] {report : DeviceReport}
    (h : (configureNew settings name port).run host = (.ok report, after)) :
    ∃ family snapshot socket found secret entropy last,
      (locate settings name).run host = (.ok ((family, snapshot), socket), found) ∧
      (Socket.request (Request.setDevice family.id name (configuration (Key.clamp secret) port)
        (configuration (Key.clamp secret) port) (configuration_mem _ _)).draft).run
          { socket with trace := [], skipped := [] } = (.ok (), last) ∧
      after = { found with entropy }.noteExchange last ∧
      report = .ofSnapshot name
        { snapshot with
          privateKey := some (Key.clamp secret)
          publicKey := some (Key.publicKey (Key.clamp secret))
          listenPort := port } := by
  rw [configureNew, withFamily_fetch_eq] at h
  obtain ⟨⟨⟨family, snapshot⟩, socket⟩, found, hlocate, hnew⟩ := Exchange.exists_run_of_bind_ok h
  obtain ⟨secret, entropy, hsecret⟩ : ∃ secret entropy,
      (Host.draw 32).run found = (.ok secret, { found with entropy }) := ⟨_, _, rfl⟩
  have hprivate : Host.drawPrivateKey.run found =
      (.ok (Key.clamp secret), { found with entropy }) := Exchange.run_bind_of_ok hsecret
  obtain ⟨last, hnew⟩ := MakesOn.exists_run_of_run'_ok hnew
  rw [MakesOn.run_lift_bind_of_ok hprivate, StateT.run_bind] at hnew
  obtain ⟨⟨⟨⟩, reached⟩, final, hconfigure, hreport⟩ := Exchange.exists_run_of_bind_ok hnew
  cases hreport
  obtain ⟨hrun, rfl⟩ := MakesOn.run_exchange_eq_ok hconfigure
  obtain ⟨⟨⟩, sent, hrequest, hnothing⟩ := Exchange.exists_run_of_bind_ok hrun
  cases hnothing
  exact ⟨family, snapshot, socket, found, secret, entropy, _, hlocate, hrequest, rfl, rfl⟩

theorem exists_finding {family : FamilyInfo} {snapshot : Snapshot} {socket : Socket}
    (h : (locate settings name).run host = (.ok ((family, snapshot), socket), after)) :
    ∃ (resolving fetching : Transmission) (replies : List Bytes),
      after.trace = host.trace ++ .opened .generic 0 ::
        (resolving.events (Host.receiveSize settings) ++
          fetching.events (Host.receiveSize settings)) ∧
      socket.bufferSize = Host.receiveSize settings ∧
      resolving.Carries (.lookup settings.tunnelFamily) ∧
      (FamilyInfo.listener settings.tunnelFamily).hear resolving.number ()
        (Arrival.stream (Host.receiveSize settings) resolving.heard) = .ok (.done family) ∧
      fetching.Carries (.getDevice family.id name) ∧
      Dump.Collects fetching.number
        (Arrival.stream (Host.receiveSize settings) fetching.heard) replies ∧
      replies ≠ [] ∧ Snapshot.ofReplies replies = .ok snapshot := by
  obtain ⟨first, opened, second, hopen, hresolve, hfetch, rfl⟩ := exists_of_locate_ok h
  obtain ⟨hfault, rfl, rfl⟩ := Host.opened_of_run_openSocket hopen
  obtain ⟨resolving, hresolving, hresolves, hresolved⟩ :=
    @Socket.exists_transmits_of_ask _ _ (.lookup settings.tunnelFamily) _ _ _ _ _ hresolve
  obtain ⟨fetching, middle, skipped, replies, hfetching, rfl, hfetches, hfetched, hnonempty,
    hdescribed⟩ := Socket.exists_transmits_of_device hfetch
  have hsize : second.bufferSize = Host.receiveSize settings := hresolving.settings_eq.2.1
  have hresolvingTrace : second.trace = resolving.events (Host.receiveSize settings) :=
    hresolving.trace_eq
  have hfetchingTrace := hfetching.trace_eq
  dsimp only at hfetched hfetchingTrace
  rw [hsize] at hfetched
  rw [hsize, List.nil_append] at hfetchingTrace
  refine ⟨resolving, fetching, replies, ?_, hfetching.settings_eq.2.1.trans hsize, hresolves,
    hresolved, hfetches, hfetched, hnonempty, hdescribed⟩
  simp only [Host.noteExchange, Host.opening, Host.note, hresolvingTrace, hfetchingTrace,
    Script.openErrno_of_fault? hfault, List.append_assoc, List.cons_append, List.nil_append]

theorem exists_creation [Base64.Codec] [Curve.Product] {report : DeviceReport}
    (h : (create settings name port).run host = (.ok report, after)) :
    ∃ creation : Creation settings name port,
      after.trace = host.trace ++ creation.events ∧ report = creation.report := by
  rw [create_eq] at h
  obtain ⟨⟨⟩, linked, hlink, hrest⟩ := Exchange.exists_run_of_bind_ok h
  obtain ⟨adding, hadding, hadds, hadded⟩ := exists_adding hlink
  obtain ⟨family, snapshot, socket, found, secret, entropy, last, hlocate, hconfigure, rfl, rfl⟩ :=
    exists_of_configureNew_ok hrest
  obtain ⟨resolving, fetching, replies, hfinding, hsize, hresolves, hresolved, hfetches, hfetched,
    hnonempty, hdescribed⟩ := exists_finding hlocate
  obtain ⟨configuring, hconfiguring, hconfigures, hconfigured⟩ :=
    Socket.exists_transmits_of_request hconfigure
  have hconfiguringTrace := hconfiguring.trace_eq
  dsimp only at hconfigured hconfiguringTrace
  rw [hsize] at hconfigured
  rw [hsize, List.nil_append] at hconfiguringTrace
  refine ⟨⟨adding, resolving, fetching, configuring, family, replies, snapshot, Key.clamp secret,
    hadds, hadded, hresolves, hresolved, hfetches, hfetched, hnonempty, hdescribed, hconfigures,
    hconfigured, Key.clamped_clamp secret⟩, ?_, rfl⟩
  simp only [Host.noteExchange, hadding, hfinding, hconfiguringTrace, Creation.events,
    List.append_assoc, List.cons_append]

/-- No device is changed before its link was acknowledged. A device that was made has been changed
once, into what is reported of it. -/
theorem create_configures_added_link [Base64.Codec] [Curve.Product] (settings : Settings)
    (name : String) (port : UInt16) (host : Host) :
    ∃ events, ((create settings name port).run host).2.trace = host.trace ++ events ∧
      ((Event.changes events = [] ∧ ∀ errno, .opened .generic errno ∉ events) ∨
        ∃ (adding : Transmission) (errno : Int) (rest : List Event),
          events = .opened .route 0 :: adding.events (Host.receiveSize settings) ++
            .opened .generic errno :: rest ∧
          adding.Carries (.addLink name) ∧ adding.Acknowledged (Host.receiveSize settings)) ∧
      ∀ report, ((create settings name port).run host).1 = .ok report →
        ∃ creation : Creation settings name port,
          events = creation.events ∧ report = creation.report ∧
          Event.changes events = [creation.configuring.frame] ∧
          views (creation.configuring.frame.drop (Header.size + CommandHeader.size)) =
            [⟨DeviceAttribute.name, Utf8.encode name ++ [0]⟩,
              ⟨DeviceAttribute.privateKey, creation.key.bytes⟩,
              ⟨DeviceAttribute.listenPort, Bytes.word16 port⟩] := by
  rcases hrun : (create settings name port).run host with ⟨failure | report, after⟩
  · rw [create_eq] at hrun
    rcases hlink : (addLink settings name).run host with ⟨unlinked | ⟨⟨⟩⟩, linked⟩
    · obtain ⟨events, htrace, hquiet⟩ := exists_events_addLink settings name host
      rw [Exchange.run_bind_of_error hlink] at hrun
      cases hrun
      rw [hlink] at htrace
      exact ⟨events, htrace, .inl hquiet, fun report hreport => nomatch hreport⟩
    · -- the link was made, and the device failed to be configured
      obtain ⟨adding, hadding, hcarries, hacknowledged⟩ := exists_adding hlink
      obtain ⟨errno, rest, hrest⟩ := exists_events_configureNew settings name port linked
      rw [Exchange.run_bind_of_ok hlink] at hrun
      rw [hrun, hadding, List.append_assoc] at hrest
      exact ⟨_, hrest, .inr ⟨adding, errno, rest, rfl, hcarries, hacknowledged⟩,
        fun report hreport => nomatch hreport⟩
  · obtain ⟨creation, htrace, hreport⟩ := exists_creation hrun
    refine ⟨_, htrace, .inr ⟨creation.adding, 0, _, rfl, creation.adds, creation.added⟩, ?_⟩
    rintro _ ⟨⟩
    exact ⟨creation, rfl, hreport, creation.changes_events, creation.views_configuring⟩

theorem create_configures_added_link_wg0 :
    let verdict (sequence : UInt32) : Message := ⟨⟨36, 2, 0, sequence, 0⟩, List.replicate 20 0⟩
    let info : Message := ⟨⟨28, 16, 0, 1, 0⟩, [1, 2, 0, 0, 6, 0, 1, 0, 26, 0, 0, 0]⟩
    let device : Message := ⟨⟨36, 26, 2, 2, 0⟩,
      [0, 1, 0, 0, 8, 0, 2, 0, 119, 103, 55, 0, 6, 0, 6, 0, 7, 0, 0, 0]⟩
    let final : Message := ⟨⟨20, 3, 2, 2, 0⟩, [0, 0, 0, 0]⟩
    let route : Script := { arrivals := [.datagram (Message.packet [verdict 1])] }
    let generic : Script := { arrivals :=
      [.datagram (Message.packet [info]), .datagram (Message.packet [device, final]),
        .datagram (Message.packet [verdict 3])] }
    ∃ report after,
      (create {} "wg0" 51820).run { scripts := [route, generic] } = (.ok report, after) ∧
        report.name = "wg7" ∧ report.listenPort = 51820 ∧
        ∃ creation : Creation {} "wg0" 51820,
          report.privateKey = Key.text creation.key ∧
          Event.changes after.trace = [creation.configuring.frame] := by
  intro verdict info device final route generic
  have hname : ((create {} "wg0" 51820).run { scripts := [route, generic] }).1.toOption.map
      (·.name) = some "wg7" := by decide +kernel
  obtain ⟨events, htrace, -, hmade⟩ :=
    create_configures_added_link {} "wg0" 51820 { scripts := [route, generic] }
  rcases hrun : (create {} "wg0" 51820).run { scripts := [route, generic] } with
    ⟨failure | report, after⟩
  · rw [hrun] at hname
    cases hname
  · rw [hrun] at hname htrace hmade
    obtain ⟨creation, -, rfl, hchanges, -⟩ := hmade report rfl
    rw [List.nil_append] at htrace
    exact ⟨_, after, rfl, Option.some.inj hname, rfl, creation, rfl, htrace ▸ hchanges⟩

end Tunnel

end TunnelControl
