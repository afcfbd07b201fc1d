import TunnelControl.Device.Attributes
import TunnelControl.Device.Snapshot
import TunnelControl.Netlink.Attribute
import TunnelControl.Netlink.FamilyHeader

/-!
Reading a device from the replies of a dump. Attributes of an unknown type are passed over at
every level, and a later attribute overrides an earlier one. A device with many peers comes in
several replies, and a peer may be cut between two of them.
-/

namespace TunnelControl

open Netlink

namespace Subnet

structure Fields where
  family : Option UInt16 := none
  address : Option Bytes := none
  length : Option UInt8 := none

def Fields.absorb (fields : Fields) (view : Attribute.View) : Except Error Fields :=
  if view.type = SubnetAttribute.family then
    return { fields with family := some (← Payload.word16 view.payload) }
  else if view.type = SubnetAttribute.address then
    return { fields with address := some view.payload }
  else if view.type = SubnetAttribute.length then
    return { fields with length := some (← Payload.byte view.payload) }
  else return fields

def Fields.subnet? (fields : Fields) : Option Subnet := do
  let family ← Family.ofCode? (← fields.family)
  let address ← Address.leading? family (← fields.address)
  return { address, length := ← fields.length }

def ofAttributes (data : Bytes) : Except Error (Option Subnet) := do
  let fields ← (Attribute.views data).foldlM Fields.absorb {}
  return fields.subnet?

end Subnet

namespace Peer

def absorb (peer : Peer) (view : Attribute.View) : Except Error Peer := do
  let payload := view.payload
  if view.type = PeerAttribute.publicKey then
    return { peer with publicKey := ← Payload.key payload }
  else if view.type = PeerAttribute.presharedKey then
    let key ← Payload.key payload
    return if key = Octets.zero 32 then peer else { peer with presharedKey := some key }
  else if view.type = PeerAttribute.endpoint then
    return { peer with endpoint := Endpoint.ofBytes? payload }
  else if view.type = PeerAttribute.keepalive then
    return { peer with keepalive := ← Payload.word16 payload }
  else if view.type = PeerAttribute.lastHandshake then
    return { peer with lastHandshake := Timestamp.ofBytes? payload }
  else if view.type = PeerAttribute.receivedBytes then
    return { peer with receivedBytes := ← Payload.word64 payload }
  else if view.type = PeerAttribute.sentBytes then
    return { peer with sentBytes := ← Payload.word64 payload }
  else if view.type = PeerAttribute.allowedIps then
    let ranges ← (Attribute.views payload).mapM fun entry => Subnet.ofAttributes entry.payload
    return { peer with allowedIps := peer.allowedIps ++ ranges.filterMap id }
  else return peer

def ofAttributes (data : Bytes) : Except Error Peer :=
  (Attribute.views data).foldlM absorb {}

end Peer

namespace Snapshot

def absorb (snapshot : Snapshot) (view : Attribute.View) : Except Error Snapshot := do
  let payload := view.payload
  if view.type = DeviceAttribute.index then
    return { snapshot with index := some (← Payload.word32 payload) }
  else if view.type = DeviceAttribute.name then
    return { snapshot with name := some (← Payload.text payload) }
  else if view.type = DeviceAttribute.privateKey then
    return { snapshot with privateKey := some (← Payload.key payload) }
  else if view.type = DeviceAttribute.publicKey then
    return { snapshot with publicKey := some (← Payload.key payload) }
  else if view.type = DeviceAttribute.listenPort then
    return { snapshot with listenPort := ← Payload.word16 payload }
  else if view.type = DeviceAttribute.peers then
    let records ← (Attribute.views payload).mapM fun entry => Peer.ofAttributes entry.payload
    return { snapshot with peers := records.foldl Peer.join snapshot.peers }
  else return snapshot

/-- Takes up one reply. A reply without room for the command's record says nothing. -/
def absorbReply (snapshot : Snapshot) (reply : Bytes) : Except Error Snapshot :=
  match Bytes.cut? CommandHeader.size reply with
  | some (_, attributes) => (Attribute.views attributes).foldlM absorb snapshot
  | none => return snapshot

def ofReplies (replies : List Bytes) : Except Error Snapshot :=
  replies.foldlM absorbReply {}

/-- The sizes of the replies that say nothing, up to the first reply that cannot be read. -/
def skipped (snapshot : Snapshot) : List Bytes → List Nat
  | [] => []
  | reply :: rest =>
      match snapshot.absorbReply reply with
      | .error _ => []
      | .ok next =>
          if reply.length < CommandHeader.size then reply.length :: skipped next rest
          else skipped next rest

end Snapshot

end TunnelControl
