import TunnelControl.Interface.Addressing
import TunnelControl.Link
import TunnelControl.Proofs.Device.RequestSize
import TunnelControl.Proofs.Netlink.Asking
import TunnelControl.Proofs.Netlink.Frames

namespace TunnelControl

open Netlink Netlink.Attribute

inductive Request where
  | lookup (family : String)
  | getDevice (family : UInt16) (name : String)
  | setDevice (family : UInt16) (name : String) (change part : DeviceChange)
      (hpart : part ∈ change.requests)
  | addLink (name : String)
  | removeLink (index : UInt32)
  | listLinks
  | addAddress (index : UInt32) (address : IPv6) (length : UInt8) (acknowledge : Bool)

namespace Request

def type : Request → UInt16
  | lookup _ => FamilyInfo.registry
  | getDevice family _ => family
  | setDevice family _ _ _ _ => family
  | addLink _ => MessageType.newLink
  | removeLink _ => MessageType.deleteLink
  | listLinks => MessageType.getLink
  | addAddress _ _ _ _ => MessageType.newAddress

def flags : Request → UInt16
  | lookup _ | setDevice _ _ _ _ _ | removeLink _ => Flag.request ||| Flag.acknowledge
  | getDevice _ _ | listLinks => Flag.request ||| Flag.dump
  | addLink _ => Flag.request ||| Flag.acknowledge ||| Flag.create ||| Flag.exclusive
  | addAddress _ _ _ acknowledge =>
      if acknowledge then Flag.request ||| Flag.create ||| Flag.replace ||| Flag.acknowledge
      else Flag.request ||| Flag.create ||| Flag.replace

def record : Request → Bytes
  | lookup _ => FamilyInfo.lookup.bytes
  | getDevice _ _ => CommandHeader.bytes ⟨TunnelFamily.getDevice, TunnelFamily.version, 0⟩
  | setDevice _ _ _ _ _ => CommandHeader.bytes ⟨TunnelFamily.setDevice, TunnelFamily.version, 0⟩
  | addLink _ | listLinks => LinkHeader.bytes {}
  | removeLink index => LinkHeader.bytes { index := index.toInt32 }
  | addAddress index _ length _ =>
      AddressHeader.bytes
        { family := Family.v6.code.toUInt8
          prefixLength := length
          flags := AddressHeader.permanent
          index }

def attributes : Request → List Attribute
  | lookup family => [.text FamilyInfo.nameAttribute family]
  | getDevice _ name => [.text DeviceAttribute.name name]
  | setDevice _ name _ part _ => part.attributes name
  | addLink name =>
      [.text Link.nameAttribute name,
        .nest Link.infoAttribute [.text Link.kindAttribute Link.tunnelKind]]
  | removeLink _ | listLinks => []
  | addAddress _ address _ _ =>
      [.leaf AddressRequest.addressAttribute address.bytes,
        .leaf AddressRequest.localAttribute address.bytes]

def text? : Request → Option String
  | lookup family => some family
  | getDevice _ name | setDevice _ name _ _ _ | addLink name => some name
  | removeLink _ | listLinks | addAddress _ _ _ _ => none

def draft (request : Request) : Draft :=
  .ofRecord request.type request.flags request.record request.attributes

/-- The frame is one message of its own size, and the request's record and attributes are all that
stands in it. -/
structure WellFormed (request : Request) (frame : Bytes) : Prop where
  aligned : frame.length % 4 = 0
  fits : FitsAll request.attributes
  splits : Splits (encodeAll request.attributes)
  read : ∃ header : Netlink.Header, header.length.toNat = frame.length ∧ header.type = request.type ∧
    header.flags = request.flags ∧ header.flags &&& Flag.request = Flag.request ∧
    Message.ofDatagram frame = [.ok ⟨header, request.record ++ encodeAll request.attributes⟩]

theorem length_record_mod_four (request : Request) : request.record.length % 4 = 0 := by
  cases request with
  | lookup | getDevice | setDevice => exact CommandHeader.length_bytes_mod_four _
  | addLink | removeLink | listLinks =>
      rw [record, LinkHeader.length_bytes]
      rfl
  | addAddress =>
      rw [record, AddressHeader.length_bytes]
      rfl

theorem flags_and_request (request : Request) :
    request.flags &&& Flag.request = Flag.request := by
  cases request with
  | addAddress _ _ _ acknowledge =>
      cases acknowledge <;> simp only [flags] <;> decide
  | _ =>
      simp only [flags]
      decide

end Request

/-! The types of attributes have no flags. -/

theorem toNat_place {place : Nat} (h : place < 2 ^ 14) : (UInt16.ofNat place).toNat < 2 ^ 14 := by
  rw [UInt16.toNat_ofNat']
  exact Nat.lt_of_le_of_lt (Nat.mod_le _ _) h

theorem Subnet.plain_attributeAt {place : Nat} (hplace : place < 2 ^ 14) (subnet : Subnet) :
    (subnet.attributeAt place).Plain := by
  have hfamily : SubnetAttribute.family.toNat < 2 ^ 14 := by decide
  have haddress : SubnetAttribute.address.toNat < 2 ^ 14 := by decide
  have hlength : SubnetAttribute.length.toNat < 2 ^ 14 := by decide
  exact ⟨toNat_place hplace, hfamily, haddress, hlength, trivial⟩

theorem PeerChange.plainAll_attributes {record : PeerChange}
    (hcost : record.cost ≤ DeviceChange.budget) : PlainAll record.attributes := by
  have hpublic : PeerAttribute.publicKey.toNat < 2 ^ 14 := by decide
  have hflags : PeerAttribute.flags.toNat < 2 ^ 14 := by decide
  have hshared : PeerAttribute.presharedKey.toNat < 2 ^ 14 := by decide
  have hkeepalive : PeerAttribute.keepalive.toNat < 2 ^ 14 := by decide
  have hlist : PeerAttribute.allowedIps.toNat < 2 ^ 14 := by decide
  have hranges : PlainAll (record.allowedIps.mapIdx Subnet.attributeAt) :=
    plainAll_mapIdx (length_allowedIps_le hcost) fun subnet _ _ hplace =>
      subnet.plain_attributeAt hplace
  refine ⟨hpublic, plainAll_append.mpr ⟨plainAll_append.mpr ⟨plainAll_append.mpr ⟨?_, ?_⟩, ?_⟩, ?_⟩⟩
  · exact plainAll_ite ⟨hflags, trivial⟩ trivial
  · apply plainAll_toList
    exact fun _ => hshared
  · apply plainAll_toList
    exact fun _ => hkeepalive
  · exact plainAll_ite trivial ⟨⟨hlist, hranges⟩, trivial⟩

theorem DeviceChange.plainAll_attributes {part : DeviceChange} (hcost : part.cost ≤ budget)
    (name : String) : PlainAll (part.attributes name) := by
  have hname : DeviceAttribute.name.toNat < 2 ^ 14 := by decide
  have hprivate : DeviceAttribute.privateKey.toNat < 2 ^ 14 := by decide
  have hport : DeviceAttribute.listenPort.toNat < 2 ^ 14 := by decide
  have hlist : DeviceAttribute.peers.toNat < 2 ^ 14 := by decide
  have hpeers : PlainAll (part.peers.mapIdx PeerChange.attributeAt) :=
    plainAll_mapIdx (length_peers_le hcost) fun peer hmem _ hplace =>
      ⟨toNat_place hplace, peer.plainAll_attributes (cost_le_of_mem hcost hmem)⟩
  refine ⟨hname, plainAll_append.mpr ⟨plainAll_append.mpr ⟨?_, ?_⟩, ?_⟩⟩
  · apply plainAll_toList
    exact fun _ => hprivate
  · apply plainAll_toList
    exact fun _ => hport
  · exact plainAll_ite trivial ⟨⟨hlist, hpeers⟩, trivial⟩

namespace Request

theorem plainAll_attributes (request : Request) : PlainAll request.attributes := by
  cases request with
  | lookup family =>
      have hname : FamilyInfo.nameAttribute.toNat < 2 ^ 14 := by decide
      exact ⟨hname, trivial⟩
  | getDevice family name =>
      have hname : DeviceAttribute.name.toNat < 2 ^ 14 := by decide
      exact ⟨hname, trivial⟩
  | setDevice family name change part hpart =>
      exact DeviceChange.plainAll_attributes (change.requests_cost_le part hpart) name
  | addLink name =>
      have hname : Link.nameAttribute.toNat < 2 ^ 14 := by decide
      have hinfo : Link.infoAttribute.toNat < 2 ^ 14 := by decide
      have hkind : Link.kindAttribute.toNat < 2 ^ 14 := by decide
      exact ⟨hname, ⟨hinfo, hkind, trivial⟩, trivial⟩
  | removeLink | listLinks => trivial
  | addAddress index address length acknowledge =>
      have haddress : AddressRequest.addressAttribute.toNat < 2 ^ 14 := by decide
      have hlocal : AddressRequest.localAttribute.toNat < 2 ^ 14 := by decide
      exact ⟨haddress, hlocal, trivial⟩

/-- Whatever number and sender are put into a request, its frame is well formed. -/
theorem wellFormed_of_finish {request : Request} {sequence port : UInt32} {frame : Bytes}
    (h : ((request.draft.setSequence sequence).setPort port).finish = .ok frame) :
    request.WellFormed frame := by
  obtain ⟨hfits, haligned, header, hlength, htype, hflags, -, -, hread⟩ :=
    Draft.ofDatagram_of_finish request.length_record_mod_four h
  have hrequest : header.flags &&& Flag.request = Flag.request := by
    rw [hflags]
    exact request.flags_and_request
  exact ⟨haligned, hfits, splits_encodeAll _ request.plainAll_attributes hfits, header, hlength,
    htype, hflags, hrequest, hread⟩

theorem exists_attributes_eq_text_cons {request : Request} {text : String}
    (h : text ∈ request.text?) : ∃ type rest, request.attributes = .text type text :: rest := by
  cases request with
  | lookup | getDevice | setDevice | addLink =>
      cases h
      exact ⟨_, _, rfl⟩
  | removeLink | listLinks | addAddress => cases h

theorem WellFormed.text_le {request : Request} {frame : Bytes} (h : request.WellFormed frame) :
    ∀ text ∈ request.text?, text.utf8ByteSize ≤ 65530 := by
  intro text htext
  obtain ⟨type, rest, hattributes⟩ := exists_attributes_eq_text_cons htext
  have hfits := h.fits
  rw [hattributes] at hfits
  exact (fits_text_iff type text).mp hfits.1

theorem headed (request : Request) : Netlink.Header.size ≤ request.draft.size :=
  Draft.size_header_le_ofRecord _ _ request.length_record_mod_four

def bytes (request : Request) (sequence port : UInt32) : Bytes :=
  Netlink.Header.bytes
      ⟨UInt32.ofNat request.draft.size, request.type, request.flags, sequence, port⟩ ++
    (request.record ++ encodeAll request.attributes)

theorem finish_eq_bytes {request : Request} (hfits : FitsAll request.attributes)
    (hsize : request.draft.size < UInt32.size) (sequence port : UInt32) :
    ((request.draft.setSequence sequence).setPort port).finish = .ok (request.bytes sequence port) :=
  Draft.finish_numbered
    (Draft.contents_ofRecord request.type request.flags request.length_record_mod_four hfits)
    ((Draft.oversized_ofRecord _ _ _ _).trans ((overflowAll?_eq_none_iff _).mpr hfits)) hsize
    sequence port

/-- A request whose text is too long draws a number and sends nothing. -/
theorem run_ask_of_long_text {σ α : Type} {request : Request} {text : String}
    (htext : text ∈ request.text?) (hlong : 65530 < text.utf8ByteSize)
    (listener : Listener σ α) (state : σ) (socket : Socket) :
    (Socket.ask request.draft listener state).run socket =
      (.error (.invalidAttribute (.oversized (text.utf8ByteSize + 5))),
        { socket with sequence := socket.sequence + 1 }) := by
  obtain ⟨type, rest, hattributes⟩ := exists_attributes_eq_text_cons htext
  have hoversized : (socket.stamped request.draft).oversized =
      some (text.utf8ByteSize + 5) := by
    rw [Socket.oversized_stamped, draft, Draft.oversized_ofRecord, hattributes,
      overflowAll?_text_cons type hlong]
  exact Socket.Asked.run (.unwritten (Draft.finish_of_oversized hoversized))

theorem run_device_of_long_name (family : FamilyInfo) {name : String}
    (hlong : 65530 < name.utf8ByteSize) (socket : Socket) :
    (Socket.device family name).run socket =
      (.error (.invalidAttribute (.oversized (name.utf8ByteSize + 5))),
        { socket with sequence := socket.sequence + 1 }) := by
  have hdump := @run_ask_of_long_text _ _ (.getDevice family.id name) name rfl hlong
    Socket.collection [] socket
  exact Exchange.run_bind_of_error (Exchange.run_bind_of_error hdump)

end Request

end TunnelControl
