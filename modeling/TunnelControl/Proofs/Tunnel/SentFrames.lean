import TunnelControl.Proofs.Tunnel.RequestMaking

namespace TunnelControl

open Netlink

namespace Tunnel

variable {makes : Request → Prop} (settings : Settings) (name : String)

theorem makes_resolve (hlookup : makes (.lookup settings.tunnelFamily)) :
    MakesOn makes
      (SocketOperation.exchange .request (Socket.resolve settings.tunnelFamily)) := by
  apply MakesOn.exchange
  exact (Socket.makesOnly_resolve settings.tunnelFamily).toMakes hlookup

theorem makes_withFamily {α : Type} {run : FamilyInfo → SocketOperation α}
    (hlookup : makes (.lookup settings.tunnelFamily)) (h : ∀ family, MakesOn makes (run family)) :
    Makes Host.trace makes (withFamily settings run) :=
  makes_onNewSocket .generic settings ((makes_resolve settings hlookup).bind h)

theorem makes_fetch {family : FamilyInfo} (h : makes (.getDevice family.id name)) :
    MakesOn makes (fetch family name) :=
  MakesOn.exchange ((Socket.makesOnly_device family name).toMakes h)

theorem makes_configure {family : FamilyInfo} {change : DeviceChange}
    (h : ∀ part hpart, makes (.setDevice family.id name change part hpart)) :
    MakesOn makes (configure family name change) :=
  MakesOn.exchange (Socket.makes_applyRequests h fun _ hpart => hpart)

theorem makes_names (h : makes .listLinks) : Makes Host.trace makes (names settings) := by
  apply makes_onNewSocket
  apply (MakesOn.exchange (Socket.makesOnly_tunnelLinks.toMakes h)).bind
  intro links
  exact .pure _

end Tunnel

/-- What can be asked of the library. -/
inductive Action where
  | addressesOf (name : String)
  | assignAddresses (name : String) (addresses : InterfaceAddresses)
  | bringUp (name : String)
  | describe (name : String)
  | names
  | describeAll
  | create (name : String) (port : UInt16)
  | delete (name : String)
  | addPeer (name : String) (allowedIps : List String) (keepalive : UInt16)
  | peers (name : String)
  | deletePeer (name publicKey : String)

namespace Action

def leaves [Base64.Codec] [Curve.Product] (settings : Settings) (host : Host) : Action → Host
  | addressesOf name => ((Host.addressesOf name).run host).2
  | assignAddresses name addresses => ((Host.assignAddresses settings name addresses).run host).2
  | bringUp name => ((Host.bringUp name).run host).2
  | describe name => ((Tunnel.describe settings name).run host).2
  | names => ((Tunnel.names settings).run host).2
  | describeAll => ((Tunnel.describeAll settings).run host).2
  | create name port => ((Tunnel.create settings name port).run host).2
  | delete name => ((Tunnel.delete settings name).run host).2
  | addPeer name allowedIps keepalive =>
      ((Tunnel.addPeer settings name allowedIps keepalive).run host).2
  | peers name => ((Tunnel.peers settings name).run host).2
  | deletePeer name publicKey => ((Tunnel.deletePeer settings name publicKey).run host).2

end Action

/-- The request looks the tunnel family up or asks it for the device. -/
def Request.Finds (settings : Settings) (name : String) (request : Request) : Prop :=
  request = .lookup settings.tunnelFamily ∨ ∃ family, request = .getDevice family name

def Request.Applies (name : String) (change : DeviceChange) (request : Request) : Prop :=
  ∃ family part hpart, request = .setDevice family name change part hpart

namespace Action

/-- The requests that an action may make. The numbers of families and links are the kernel's. -/
def Asks (settings : Settings) : Action → Request → Prop
  | addressesOf _, _ => False
  | assignAddresses _ _, request =>
      ∃ index address length,
        request = .addAddress index address length settings.acknowledgeIPv6
  | bringUp _, _ => False
  | describe name, request => request.Finds settings name
  | names, request => request = .listLinks
  | describeAll, request => request = .listLinks ∨ ∃ name, request.Finds settings name
  | create name port, request =>
      request = .addLink name ∨ request.Finds settings name ∨
        ∃ key, request.Applies name { privateKey := some key, listenPort := some port }
  | delete _, request => ∃ index, request = .removeLink index
  | addPeer name _ _, request =>
      request.Finds settings name ∨ ∃ peer, request.Applies name { peers := [peer] }
  | peers name, request => request.Finds settings name
  | deletePeer name _, request =>
      request.Finds settings name ∨
        ∃ publicKey, request.Applies name { peers := [{ publicKey, remove := true }] }

end Action

namespace Tunnel

variable {makes : Request → Prop} (settings : Settings) (name : String)

theorem makes_withFamily_fetch {α : Type} {next : FamilyInfo → Snapshot → SocketOperation α}
    (hfinds : ∀ request : Request, request.Finds settings name → makes request)
    (hnext : ∀ family snapshot, MakesOn makes (next family snapshot)) :
    Makes Host.trace makes
      (withFamily settings fun family => fetch family name >>= next family) := by
  apply makes_withFamily settings (hfinds _ (.inl rfl))
  intro family
  apply (makes_fetch name (hfinds _ (.inr ⟨_, rfl⟩))).bind
  exact hnext family

theorem makes_describeAll [Base64.Codec] (hlinks : makes .listLinks)
    (hfinds : ∀ name (request : Request), request.Finds settings name → makes request) :
    Makes Host.trace makes (describeAll settings) := by
  apply (makes_names settings hlinks).bind
  intro names
  split
  · exact .pure []
  · apply makes_withFamily settings (hfinds "" _ (.inl rfl))
    intro family
    apply MakesOn.mapM
    intro name
    apply (makes_fetch name (hfinds name _ (.inr ⟨_, rfl⟩))).bind
    intro snapshot
    exact .pure _

theorem makes_create [Base64.Codec] [Curve.Product] (port : UInt16) (hlink : makes (.addLink name))
    (hfinds : ∀ request : Request, request.Finds settings name → makes request)
    (happlies : ∀ key (request : Request),
      request.Applies name { privateKey := some key, listenPort := some port } → makes request) :
    Makes Host.trace makes (create settings name port) := by
  apply Makes.bind
  · apply makes_onNewSocket
    apply MakesOn.exchange
    exact (Socket.makesOnly_addLink name).toMakes hlink
  · intro _
    apply makes_withFamily_fetch settings name hfinds
    intro family snapshot
    apply (MakesOn.lift Host.makes_drawPrivateKey).bind
    intro key
    apply (makes_configure name fun part hpart => happlies key _ ⟨_, _, hpart, rfl⟩).bind
    intro _
    exact .pure _

theorem makes_delete (h : ∀ index, makes (.removeLink index)) :
    Makes Host.trace makes (delete settings name) := by
  apply (Host.makes_indexOf name).bind
  intro index
  apply makes_onNewSocket
  apply MakesOn.exchange
  exact (Socket.makesOnly_removeLink index).toMakes (h index)

theorem makes_addPeer [Base64.Codec] [Curve.Product] (allowedIps : List String) (keepalive : UInt16)
    (hfinds : ∀ request : Request, request.Finds settings name → makes request)
    (happlies : ∀ peer (request : Request), request.Applies name { peers := [peer] } →
      makes request) :
    Makes Host.trace makes (addPeer settings name allowedIps keepalive) := by
  apply makes_withFamily_fetch settings name hfinds
  intro family _
  apply (MakesOn.lift Host.makes_drawPrivateKey).bind
  intro privateKey
  apply (MakesOn.lift Host.makes_drawSharedKey).bind
  intro presharedKey
  apply (MakesOn.lift (Host.makes_readAllowed name allowedIps)).bind
  intro subnets
  apply (makes_configure name fun part hpart => happlies _ _ ⟨_, _, hpart, rfl⟩).bind
  intro _
  exact .pure _

theorem makes_deletePeer [Base64.Codec] (publicKey : String)
    (hfinds : ∀ request : Request, request.Finds settings name → makes request)
    (happlies : ∀ publicKey (request : Request),
      request.Applies name { peers := [{ publicKey, remove := true }] } → makes request) :
    Makes Host.trace makes (deletePeer settings name publicKey) := by
  apply makes_withFamily_fetch settings name hfinds
  intro family snapshot
  split
  · exact .throw _
  · rename_i peer _
    apply MakesOn.exchange
    exact Socket.makes_applyRequests (fun part hpart => happlies peer.publicKey _ ⟨_, _, hpart, rfl⟩)
      fun _ hpart => hpart

end Tunnel

namespace Host

variable {makes : Request → Prop} (settings : Settings) (name : String)

theorem makes_bringUp : Makes Host.trace makes (bringUp name) := by
  apply makes_openControl.bind
  intro _
  apply (makes_control _ _ _).bind
  intro record
  apply (makes_control _ _ _).bind
  intro _
  exact .pure ()

theorem makes_assignIPv4 (address : IPv4) (length : UInt8) :
    Makes Host.trace makes (assignIPv4 name address length) := by
  apply makes_openControl.bind
  intro _
  apply (makes_control _ _ _).bind
  intro _
  apply (makes_control _ _ _).bind
  intro _
  exact .pure ()

theorem makes_assignIPv6 (address : IPv6) (length : UInt8)
    (h : ∀ index, makes (.addAddress index address length settings.acknowledgeIPv6)) :
    Makes Host.trace makes (assignIPv6 settings name address length) := by
  apply (makes_indexOf name).bind
  intro index
  apply Makes.bind
  · exact .of_trace_eq fun _ => rfl
  · intro host
    apply makes_onNewSocket
    apply MakesOn.exchange
    exact (Socket.makesOnly_addressRequest _ _ _ _ _).toMakes (h index)

theorem makes_assignSlot (family : Family) (text : String)
    (h : ∀ index address length,
      makes (.addAddress index address length settings.acknowledgeIPv6)) :
    Makes Host.trace makes (assignSlot settings name family text) := by
  unfold assignSlot
  split
  · exact .pure ()
  · apply Makes.bind
    · unfold readSlot
      split
      · exact .pure _
      · exact .throw _
    · intro subnet
      unfold assign
      split
      · exact makes_assignIPv4 name _ _
      · exact makes_assignIPv6 settings name _ _ fun index => h index _ _

end Host

namespace Action

open Tunnel

theorem exists_events [Base64.Codec] [Curve.Product] (settings : Settings) (action : Action)
    (host : Host) :
    ∃ events, (action.leaves settings host).trace = host.trace ++ events ∧
      ∀ frame errno, .sent frame errno ∈ events →
        ∃ request, action.Asks settings request ∧ request.WellFormed frame := by
  cases action with
  | addressesOf name => exact Host.makes_addressesOf name host
  | assignAddresses name addresses =>
      have hslot := fun family text =>
        @Host.makes_assignSlot (Asks settings (.assignAddresses name addresses)) settings name
          family text fun index address length => ⟨index, address, length, rfl⟩
      exact (hslot .v4 addresses.ipv4).bind (fun _ => hslot .v6 addresses.ipv6) host
  | bringUp name => exact Host.makes_bringUp name host
  | describe name =>
      exact makes_withFamily_fetch settings name (fun _ h => h) (fun _ _ => .pure _) host
  | names => exact @makes_names (Asks settings .names) settings rfl host
  | describeAll =>
      exact makes_describeAll settings (.inl rfl) (fun name _ h => .inr ⟨name, h⟩) host
  | create name port =>
      exact makes_create settings name port (.inl rfl) (fun _ h => .inr (.inl h))
        (fun key _ h => .inr (.inr ⟨key, h⟩)) host
  | delete name => exact makes_delete settings name (fun index => ⟨index, rfl⟩) host
  | addPeer name allowedIps keepalive =>
      exact makes_addPeer settings name allowedIps keepalive (fun _ h => .inl h)
        (fun peer _ h => .inr ⟨peer, h⟩) host
  | peers name =>
      exact makes_withFamily_fetch settings name (fun _ h => h) (fun _ _ => .pure _) host
  | deletePeer name publicKey =>
      exact makes_deletePeer settings name publicKey (fun _ h => .inl h)
        (fun key _ h => .inr ⟨key, h⟩) host

/-- Each frame that an action sends is a well-formed frame of a request that the action makes, with
a text that fits if it carries one. The exchange of a request with a text that is too long ends
with an error before anything is sent. -/
theorem sent_frames_wellFormed [Base64.Codec] [Curve.Product] (settings : Settings)
    (action : Action) (host : Host) :
    (∃ events, (action.leaves settings host).trace = host.trace ++ events ∧
      ∀ frame errno, .sent frame errno ∈ events →
        ∃ request, action.Asks settings request ∧ request.WellFormed frame ∧
          ∀ text ∈ request.text?, text.utf8ByteSize ≤ 65530) ∧
    ∀ text : String, 65530 < text.utf8ByteSize → ∀ (family : FamilyInfo) (socket : Socket),
      let error := Error.invalidAttribute (.oversized (text.utf8ByteSize + 5))
      let after := { socket with sequence := socket.sequence + 1 }
      (Socket.resolve text).run socket = (.error error, after) ∧
      (Socket.device family text).run socket = (.error error, after) ∧
      (∀ change, (Socket.applyChange family text change).run socket = (.error error, after)) ∧
      (Socket.addLink text).run socket = (.error error, after) := by
  refine ⟨?_, ?_⟩
  · obtain ⟨events, htrace, hframes⟩ := exists_events settings action host
    refine ⟨events, htrace, fun frame errno hmem => ?_⟩
    obtain ⟨request, hasks, hframe⟩ := hframes frame errno hmem
    exact ⟨request, hasks, hframe, hframe.text_le⟩
  · intro text hlong family socket error after
    refine ⟨?_, ?_, ?_, ?_⟩
    · exact @Request.run_ask_of_long_text _ _ (.lookup text) text rfl hlong _ _ socket
    · exact Request.run_device_of_long_name family hlong socket
    · intro change
      obtain ⟨part, parts, hrequests, -⟩ := change.requests_eq_cons
      rw [Socket.applyChange, hrequests]
      exact Socket.run_applyRequests_of_long_name family text hlong part parts socket
    · have hdraft : Link.addition text = (Request.addLink text).draft := rfl
      rw [Socket.addLink, hdraft, Socket.run_request_eq_ask (Request.headed _)]
      exact @Request.run_ask_of_long_text _ _ (.addLink text) text rfl hlong _ _ socket

theorem sent_frames_wellFormed_listing :
    let frame : Bytes :=
      [32, 0, 0, 0, 18, 0, 1, 3, 1, 0, 0, 0, 232, 3, 0, 0] ++ List.replicate 16 0
    (.sent frame 0 ∈ (names.leaves {} {}).trace ∧ Request.listLinks.WellFormed frame) ∧
      ∃ text : String, text.utf8ByteSize = 65531 ∧
        (Socket.addLink text).run { port := 7 } =
          (.error (.invalidAttribute (.oversized 65536)), { port := 7, sequence := 2 }) := by
  intro frame
  have htrace : (names.leaves {} {}).trace =
      [.opened .route 0, .sent frame 0, .received 0 Errno.wouldBlock] := by decide +kernel
  have hsent : .sent frame 0 ∈ (names.leaves {} {}).trace := by
    rw [htrace]
    exact List.mem_cons_of_mem _ List.mem_cons_self
  have hsize : ∀ count, (String.ofList (List.replicate count 'a')).utf8ByteSize = count := by
    intro count
    have hbyte : (String.utf8EncodeChar 'a').length = 1 := by decide
    rw [← Utf8.length_encode, Utf8.encode, String.toList_ofList, List.length_flatMap,
      List.map_replicate, hbyte, List.sum_replicate_nat, Nat.mul_one]
  obtain ⟨text, htext⟩ : ∃ text : String, text.utf8ByteSize = 65531 := ⟨_, hsize 65531⟩
  obtain ⟨⟨events, hevents, hframes⟩, hlong⟩ := sent_frames_wellFormed {} names {}
  obtain ⟨-, -, -, hlink⟩ := hlong text (by rw [htext]; decide) ⟨28, 1⟩ { port := 7 }
  refine ⟨⟨hsent, ?_⟩, text, htext, ?_⟩
  · rw [hevents] at hsent
    obtain ⟨request, hasks, hframe, -⟩ := hframes frame 0 hsent
    cases hasks
    exact hframe
  · rw [htext] at hlink
    exact hlink

end Action

end TunnelControl
