import TunnelControl.Address.Subnet
import TunnelControl.Device.Attributes
import TunnelControl.Key.Basic
import TunnelControl.Netlink.Attribute

namespace TunnelControl

open Netlink

structure PeerChange where
  publicKey : Key
  presharedKey : Option Key := none
  /-- Seconds between keepalives; zero turns them off. -/
  keepalive : Option UInt16 := none
  allowedIps : List Subnet := []
  remove : Bool := false
deriving DecidableEq, Repr

structure DeviceChange where
  privateKey : Option Key := none
  listenPort : Option UInt16 := none
  peers : List PeerChange := []
deriving DecidableEq, Repr

/-! What a change looks like in a request. -/

namespace Subnet

def attributeAt (place : Nat) (subnet : Subnet) : Attribute :=
  .nest (UInt16.ofNat place)
    [.word16 SubnetAttribute.family subnet.address.family.code,
      .leaf SubnetAttribute.address subnet.address.bytes,
      .byte SubnetAttribute.length subnet.length]

end Subnet

namespace PeerChange

def removeFlag : UInt32 := 1

def attributes (peer : PeerChange) : List Attribute :=
  .leaf PeerAttribute.publicKey peer.publicKey.bytes ::
    ((if peer.remove then [.word32 PeerAttribute.flags removeFlag] else []) ++
      (peer.presharedKey.map fun key => .leaf PeerAttribute.presharedKey key.bytes).toList ++
      (peer.keepalive.map (.word16 PeerAttribute.keepalive)).toList ++
      if peer.allowedIps = [] then []
      else
        [.nest PeerAttribute.allowedIps
          (peer.allowedIps.mapIdx Subnet.attributeAt)])

def attributeAt (place : Nat) (peer : PeerChange) : Attribute :=
  .nest (UInt16.ofNat place) peer.attributes

end PeerChange

namespace DeviceChange

def attributes (name : String) (change : DeviceChange) : List Attribute :=
  .text DeviceAttribute.name name ::
    ((change.privateKey.map fun key => .leaf DeviceAttribute.privateKey key.bytes).toList ++
      (change.listenPort.map (.word16 DeviceAttribute.listenPort)).toList ++
      if change.peers = [] then []
      else [.nest DeviceAttribute.peers (change.peers.mapIdx PeerChange.attributeAt)])

end DeviceChange

/-! How much room a change takes. -/

def attributeCost (payload : Nat) : Nat :=
  Bytes.align (attributeHeader + payload)

namespace Subnet

def cost (subnet : Subnet) : Nat :=
  attributeCost
    (attributeCost 2 + attributeCost subnet.address.family.size + attributeCost 1)

end Subnet

namespace PeerChange

/-- The room of a peer's record and of the header of its list of allowed addresses, without
their entries. -/
def baseCost (peer : PeerChange) : Nat :=
  attributeHeader + attributeCost 32 + attributeHeader +
    (if peer.remove then attributeCost 4 else 0) +
    (if peer.presharedKey.isSome then attributeCost 32 else 0) +
    (if peer.keepalive.isSome then attributeCost 2 else 0)

/-- The record under which a peer goes on in the next request. -/
def continuation (peer : PeerChange) : PeerChange :=
  { publicKey := peer.publicKey }

end PeerChange

namespace DeviceChange

def budget : Nat := attributeLimit - attributeHeader

/-- Requests while peers are spread over them: those that are full, the one being filled and the
room that its peers take. -/
structure Packing where
  full : List DeviceChange := []
  current : DeviceChange
  used : Nat := 0

namespace Packing

def advance (packing : Packing) : Packing :=
  { full := packing.full ++ [packing.current], current := {}, used := 0 }

def place (packing : Packing) (record : PeerChange) : Packing :=
  { packing with
    current := { packing.current with peers := packing.current.peers ++ [record] } }

/-- Adds allowed addresses to a record until the room ends, then goes on in the next request. -/
def fill (packing : Packing) (record : PeerChange) : List Subnet → Packing
  | [] => packing.place record
  | subnet :: rest =>
      if packing.used + subnet.cost ≤ budget then
        fill { packing with used := packing.used + subnet.cost }
          { record with allowedIps := record.allowedIps ++ [subnet] } rest
      else
        let next := (packing.place record).advance
        let record := record.continuation
        fill { next with used := record.baseCost + subnet.cost }
          { record with allowedIps := [subnet] } rest

def add (packing : Packing) (peer : PeerChange) : Packing :=
  let packing :=
    if budget < packing.used + peer.baseCost ∧ packing.current.peers ≠ [] then packing.advance
    else packing
  fill { packing with used := packing.used + peer.baseCost } { peer with allowedIps := [] }
    peer.allowedIps

end Packing

/-- The requests that apply a change, in order. The settings of the device itself go into the
first. -/
def requests (change : DeviceChange) : List DeviceChange :=
  let start : Packing := { current := { change with peers := [] } }
  let packing := change.peers.foldl Packing.add start
  packing.full ++ [packing.current]

end DeviceChange

end TunnelControl
