import TunnelControl.Interface.Control
import TunnelControl.Netlink.Exchange
import TunnelControl.Netlink.FamilyHeader

/-!
The addresses of an interface: reading the one of each family, and assigning them. An address of
the older family goes through the control socket, one of the newer through a message.
-/

namespace TunnelControl

open Netlink

structure InterfaceAddresses where
  ipv4 : String := ""
  ipv6 : String := ""
deriving DecidableEq, Repr

namespace InterfaceAddresses

def isEmpty (addresses : InterfaceAddresses) : Bool :=
  addresses.ipv4.isEmpty && addresses.ipv6.isEmpty

def put (addresses : InterfaceAddresses) (subnet : Subnet) : InterfaceAddresses :=
  match subnet.address with
  | .v4 _ => { addresses with ipv4 := subnet.text }
  | .v6 _ => { addresses with ipv6 := subnet.text }

end InterfaceAddresses

namespace InterfaceEntry

def maskLength (family : Family) (mask : Option Bytes) : Nat :=
  match mask.bind (Octets.leading? family.size) with
  | some octets => Mask.prefixLength octets
  | none => 0

/-- The subnet of an entry that has an address of a known family. -/
def subnet? (entry : InterfaceEntry) : Option Subnet := do
  let data ← entry.address
  let family ← Family.ofCode? entry.family
  let address ← Address.leading? family data
  return { address, length := UInt8.ofNat (maskLength family entry.mask) }

/-- The last address of each family that is listed under the name. -/
def addressesOf (name : String) (entries : List InterfaceEntry) : InterfaceAddresses :=
  let named := entries.filter fun entry => entry.name = some name
  (named.filterMap subnet?).foldl InterfaceAddresses.put {}

end InterfaceEntry

/-! The request that assigns an address of the newer family. -/

namespace AddressRequest

def addressAttribute : UInt16 := 1

def localAttribute : UInt16 := 2

def draft (index : UInt32) (address : IPv6) (length : UInt8) (acknowledge : Bool) : Draft :=
  let flags := Flag.request ||| Flag.create ||| Flag.replace
  let flags := if acknowledge then flags ||| Flag.acknowledge else flags
  let header : AddressHeader :=
    { family := Family.v6.code.toUInt8
      prefixLength := length
      flags := AddressHeader.permanent
      index }
  ((Draft.start MessageType.newAddress flags).append header.bytes).addAll
    [.leaf addressAttribute address.bytes, .leaf localAttribute address.bytes]

def frame (processId index : UInt32) (address : IPv6) (length : UInt8) (acknowledge : Bool) :
    Except Error Bytes :=
  (((draft index address length acknowledge).setSequence 1).setPort processId).finish

def exchange (processId index : UInt32) (address : IPv6) (length : UInt8) (acknowledge : Bool) :
    Exchange Unit := do
  let frame ← frame processId index address length acknowledge
  if acknowledge then Socket.sendAcknowledged frame else Socket.send frame

end AddressRequest

namespace Host

def assignIPv6 (settings : Settings) (name : String) (address : IPv6) (length : UInt8) :
    Operation Unit := do
  let index ← indexOf name
  let processId := (← get).processId
  SocketOperation.onNewSocket .route settings <|
    SocketOperation.exchange .request <|
      AddressRequest.exchange processId index address length settings.acknowledgeIPv6

/-- The addresses of the named interface. A list that holds anything is given back after use. -/
def addressesOf (name : String) : Operation InterfaceAddresses := do
  let host ← get
  match host.addresses with
  | .error errno =>
      set (host.note [.addressesListed])
      throw (.listAddresses errno)
  | .ok entries =>
      let released := if entries = [] then [] else [Event.addressesReleased]
      set (host.note (.addressesListed :: released))
      return InterfaceEntry.addressesOf name entries

def readSlot (family : Family) (text : String) : Operation Subnet :=
  match Subnet.ofTextIn family text with
  | .ok subnet => return subnet
  | .error fault => throw (.ofSubnetFault fault)

def assign (settings : Settings) (name : String) (subnet : Subnet) : Operation Unit :=
  match subnet.address with
  | .v4 address => assignIPv4 name address subnet.length
  | .v6 address => assignIPv6 settings name address subnet.length

def assignSlot (settings : Settings) (name : String) (family : Family) (text : String) :
    Operation Unit := do
  if text.isEmpty then return ()
  assign settings name (← readSlot family text)

/-- Assigns the addresses of both families, the older first. What was assigned stays when the
rest fails. -/
def assignAddresses (settings : Settings) (name : String) (addresses : InterfaceAddresses) :
    Operation Unit := do
  assignSlot settings name .v4 addresses.ipv4
  assignSlot settings name .v6 addresses.ipv6

end Host

end TunnelControl
