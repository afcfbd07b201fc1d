import TunnelControl.Device.Change
import TunnelControl.Device.Reply
import TunnelControl.Proofs.Device.PeerJoining
import TunnelControl.Proofs.Device.RequestSize

namespace TunnelControl

open Netlink Netlink.Attribute

/-! Allowed addresses. -/

namespace Subnet

theorem fits_attributeAt (place : Nat) (subnet : Subnet) : (subnet.attributeAt place).Fits := by
  apply fits_of_length_le
  rw [length_encode_attributeAt]
  exact Nat.le_trans subnet.cost_bounds.2 (by decide)

theorem absorb_family (fields : Fields) (code : UInt16) :
    fields.absorb (view (.word16 SubnetAttribute.family code)) =
      .ok { fields with family := some code } :=
  congrArg (Except.map fun code => ({ fields with family := some code } : Fields))
    (Payload.word16_word16 code)

theorem ofAttributes_attributeAt (place : Nat) (subnet : Subnet) :
    ofAttributes (subnet.attributeAt place).view.payload = .ok (some subnet) := by
  have hfits := (subnet.fits_attributeAt place).1
  have haddress := Address.leading?_bytes_append subnet.address []
  rw [List.append_nil] at haddress
  have hread : readAll Fields.absorb {}
      [.word16 SubnetAttribute.family subnet.address.family.code,
        .leaf SubnetAttribute.address subnet.address.bytes,
        .byte SubnetAttribute.length subnet.length] =
          .ok ⟨some subnet.address.family.code, some subnet.address.bytes,
            some subnet.length⟩ := by
    rw [readAll_cons_of_ok (absorb_family _ _)]
    rfl
  have hsubnet : Fields.subnet? ⟨some subnet.address.family.code, some subnet.address.bytes,
      some subnet.length⟩ = some subnet := by
    simp [Fields.subnet?, haddress]
  rw [attributeAt, view, ofAttributes, foldlM_views_encodeAll _ _ hfits, hread]
  exact congrArg Except.ok hsubnet

end Subnet

/-! Records of peers. -/

namespace Peer

theorem absorb_publicKey (peer : Peer) (key : Key) :
    peer.absorb (view (.leaf PeerAttribute.publicKey key.bytes)) =
      .ok { peer with publicKey := key } :=
  congrArg (Except.map fun key => ({ peer with publicKey := key } : Peer)) (Payload.key_bytes key)

theorem absorb_presharedKey (peer : Peer) (key : Key) :
    peer.absorb (view (.leaf PeerAttribute.presharedKey key.bytes)) =
      .ok (if key = Octets.zero 32 then peer else { peer with presharedKey := some key }) :=
  congrArg (Except.map fun key => if key = Octets.zero 32 then peer
    else { peer with presharedKey := some key }) (Payload.key_bytes key)

theorem absorb_keepalive (peer : Peer) (seconds : UInt16) :
    peer.absorb (view (.word16 PeerAttribute.keepalive seconds)) =
      .ok { peer with keepalive := seconds } :=
  congrArg (Except.map fun seconds => ({ peer with keepalive := seconds } : Peer))
    (Payload.word16_word16 seconds)

theorem absorb_allowedIps (peer : Peer) {ranges : List Subnet}
    (hfits : (Attribute.nest PeerAttribute.allowedIps
      (ranges.mapIdx Subnet.attributeAt)).Fits) :
    peer.absorb (view (.nest PeerAttribute.allowedIps (ranges.mapIdx Subnet.attributeAt))) =
      .ok { peer with allowedIps := peer.allowedIps ++ ranges } := by
  have hread : (views (encodeAll (ranges.mapIdx Subnet.attributeAt))).mapM
      (fun entry => Subnet.ofAttributes entry.payload) = .ok (ranges.map some) :=
    mapM_views_mapIdx hfits.1 fun subnet _ place _ => Subnet.ofAttributes_attributeAt place subnet
  have hknown : (ranges.map some).filterMap id = ranges := by simp
  refine (congrArg (Except.map fun found : List (Option Subnet) =>
    ({ peer with allowedIps := peer.allowedIps ++ found.filterMap id } : Peer)) hread).trans ?_
  rw [Except.map, hknown]

theorem readAll_presharedKey (peer : Peer) (key : Option Key) :
    readAll absorb peer
        (key.map fun key => .leaf PeerAttribute.presharedKey key.bytes).toList =
      .ok { peer with
        presharedKey := (key.filter (· ≠ Octets.zero 32)).or peer.presharedKey } := by
  cases key with
  | none => rfl
  | some key =>
      rw [Option.map_some, Option.toList_some, readAll_cons_of_ok (absorb_presharedKey peer key)]
      by_cases hzero : key = Octets.zero 32
      · rw [if_pos hzero, Option.filter_some_neg (by simpa using hzero)]
        rfl
      · rw [if_neg hzero, Option.filter_some_pos (by simpa using hzero)]
        rfl

theorem readAll_keepalive (peer : Peer) (seconds : Option UInt16) :
    readAll absorb peer (seconds.map (Attribute.word16 PeerAttribute.keepalive)).toList =
      .ok { peer with keepalive := seconds.getD peer.keepalive } := by
  cases seconds with
  | none => rfl
  | some seconds => exact readAll_cons_of_ok (absorb_keepalive peer seconds) []

theorem readAll_allowedIps (peer : Peer) {ranges : List Subnet}
    (hfits : FitsAll (if ranges = [] then []
      else [.nest PeerAttribute.allowedIps (ranges.mapIdx Subnet.attributeAt)])) :
    readAll absorb peer (if ranges = [] then []
        else [.nest PeerAttribute.allowedIps (ranges.mapIdx Subnet.attributeAt)]) =
      .ok { peer with allowedIps := peer.allowedIps ++ ranges } := by
  split
  · rename_i hempty
    rw [hempty, List.append_nil]
    rfl
  · rename_i hranges
    rw [if_neg hranges] at hfits
    exact readAll_cons_of_ok (absorb_allowedIps peer hfits.1) []

end Peer

namespace PeerChange

/-- The peer that the record of a change describes. -/
def peer (change : PeerChange) : Peer where
  publicKey := change.publicKey
  presharedKey := change.presharedKey.filter (· ≠ Octets.zero 32)
  keepalive := change.keepalive.getD 0
  allowedIps := change.allowedIps

theorem ofAttributes_attributes {record : PeerChange} (hfits : FitsAll record.attributes) :
    Peer.ofAttributes (encodeAll record.attributes) = .ok record.peer := by
  have hranges := (fitsAll_append.mp hfits.2).2
  have hflags (peer : Peer) : readAll Peer.absorb peer (if record.remove then
      [.word32 PeerAttribute.flags removeFlag] else []) = .ok peer := by
    cases record.remove <;> rfl
  rw [Peer.ofAttributes, foldlM_views_encodeAll _ _ hfits, attributes,
    readAll_cons_of_ok (Peer.absorb_publicKey _ _), List.append_assoc, List.append_assoc,
    readAll_append_of_ok (hflags _), readAll_append_of_ok (Peer.readAll_presharedKey _ _),
    readAll_append_of_ok (Peer.readAll_keepalive _ _), Peer.readAll_allowedIps _ hranges,
    Option.or_none]
  rfl

end PeerChange

/-! Replies. -/

namespace Snapshot

theorem absorb_name_eq (snapshot : Snapshot) (name : String) :
    snapshot.absorb (view (.text DeviceAttribute.name name)) =
      .ok { snapshot with name := some (Utf8.beforeZero name) } :=
  congrArg (Except.map fun name => ({ snapshot with name := some name } : Snapshot))
    (Payload.text_encode name)

theorem absorb_name (snapshot : Snapshot) {name : String} (hname : '\x00' ∉ name.toList) :
    snapshot.absorb (view (.text DeviceAttribute.name name)) =
      .ok { snapshot with name := some name } := by
  rw [absorb_name_eq, Utf8.beforeZero_of_notMem hname]

theorem absorb_privateKey (snapshot : Snapshot) (key : Key) :
    snapshot.absorb (view (.leaf DeviceAttribute.privateKey key.bytes)) =
      .ok { snapshot with privateKey := some key } :=
  congrArg (Except.map fun key => ({ snapshot with privateKey := some key } : Snapshot))
    (Payload.key_bytes key)

theorem absorb_listenPort (snapshot : Snapshot) (port : UInt16) :
    snapshot.absorb (view (.word16 DeviceAttribute.listenPort port)) =
      .ok { snapshot with listenPort := port } :=
  congrArg (Except.map fun port => ({ snapshot with listenPort := port } : Snapshot))
    (Payload.word16_word16 port)

theorem readAll_privateKey (snapshot : Snapshot) (key : Option Key) :
    readAll absorb snapshot
        (key.map fun key => .leaf DeviceAttribute.privateKey key.bytes).toList =
      .ok { snapshot with privateKey := key.or snapshot.privateKey } := by
  cases key with
  | none => rfl
  | some key => exact readAll_cons_of_ok (absorb_privateKey snapshot key) []

theorem readAll_listenPort (snapshot : Snapshot) (port : Option UInt16) :
    readAll absorb snapshot (port.map (Attribute.word16 DeviceAttribute.listenPort)).toList =
      .ok { snapshot with listenPort := port.getD snapshot.listenPort } := by
  cases port with
  | none => rfl
  | some port => exact readAll_cons_of_ok (absorb_listenPort snapshot port) []

theorem readAll_peers (snapshot : Snapshot) {α : Type} {build : Nat → α → Attribute}
    {result : α → Peer} {records : List α}
    (hfits : FitsAll (if records = [] then []
      else [.nest DeviceAttribute.peers (records.mapIdx build)]))
    (hread : ∀ record ∈ records, ∀ place, (build place record).Fits →
      Peer.ofAttributes (build place record).view.payload = .ok (result record)) :
    readAll absorb snapshot (if records = [] then []
        else [.nest DeviceAttribute.peers (records.mapIdx build)]) =
      .ok { snapshot with peers := Peer.joined snapshot.peers (records.map result) } := by
  split
  · rename_i hempty
    rw [hempty]
    rfl
  · rename_i hrecords
    rw [if_neg hrecords] at hfits
    have hpeers := mapM_views_mapIdx hfits.1.1 hread
    have habsorb : snapshot.absorb (view (.nest DeviceAttribute.peers (records.mapIdx build))) =
        .ok { snapshot with peers := Peer.joined snapshot.peers (records.map result) } :=
      congrArg (Except.map fun found : List Peer =>
        ({ snapshot with peers := found.foldl Peer.join snapshot.peers } : Snapshot)) hpeers
    exact readAll_cons_of_ok habsorb []

theorem absorbReply_append (snapshot : Snapshot) (header : CommandHeader)
    {items : List Attribute} (hfits : FitsAll items) :
    snapshot.absorbReply (header.bytes ++ encodeAll items) = readAll absorb snapshot items := by
  rw [absorbReply, Bytes.cut?_append header.length_bytes]
  exact foldlM_views_encodeAll absorb snapshot hfits

theorem foldlM_absorbReply {α : Type} {items : α → List Attribute}
    {update : Snapshot → α → Snapshot} (header : CommandHeader) {replies : List α}
    (hread : ∀ reply ∈ replies, ∀ snapshot,
      readAll absorb snapshot (items reply) = .ok (update snapshot reply))
    (hfits : ∀ reply ∈ replies, FitsAll (items reply)) (snapshot : Snapshot) :
    (replies.map fun reply => header.bytes ++ encodeAll (items reply)).foldlM absorbReply
        snapshot = .ok (replies.foldl update snapshot) := by
  induction replies generalizing snapshot with
  | nil => rfl
  | cons reply replies ih =>
      obtain ⟨hfirst, hrest⟩ := List.forall_mem_cons.mp hread
      obtain ⟨hfit, hfitsRest⟩ := List.forall_mem_cons.mp hfits
      rw [List.map_cons, List.foldlM_cons, absorbReply_append _ _ hfit, hfirst]
      exact ih hrest hfitsRest (update snapshot reply)

end Snapshot

/-! Requests. -/

/-- What a reader makes of a request when it takes it for a reply. -/
def Snapshot.overlay (name : String) (snapshot : Snapshot) (part : DeviceChange) : Snapshot :=
  { snapshot with
    name := some name
    privateKey := part.privateKey.or snapshot.privateKey
    listenPort := part.listenPort.getD snapshot.listenPort
    peers := Peer.joined snapshot.peers (part.peers.map PeerChange.peer) }

namespace DeviceChange

theorem readAll_attributes_eq (snapshot : Snapshot) {part : DeviceChange} {name : String}
    (hfits : FitsAll (part.attributes name)) :
    readAll Snapshot.absorb snapshot (part.attributes name) =
      .ok (snapshot.overlay (Utf8.beforeZero name) part) := by
  have hpeers := (fitsAll_append.mp hfits.2).2
  rw [attributes, readAll_cons_of_ok (Snapshot.absorb_name_eq snapshot name), List.append_assoc,
    readAll_append_of_ok (Snapshot.readAll_privateKey _ _),
    readAll_append_of_ok (Snapshot.readAll_listenPort _ _)]
  exact Snapshot.readAll_peers _ hpeers fun record _ place hrecord =>
    PeerChange.ofAttributes_attributes hrecord.1

theorem readAll_attributes (snapshot : Snapshot) {part : DeviceChange} {name : String}
    (hname : '\x00' ∉ name.toList) (hfits : FitsAll (part.attributes name)) :
    readAll Snapshot.absorb snapshot (part.attributes name) =
      .ok (snapshot.overlay name part) := by
  rw [readAll_attributes_eq snapshot hfits, Utf8.beforeZero_of_notMem hname]

end DeviceChange

end TunnelControl
