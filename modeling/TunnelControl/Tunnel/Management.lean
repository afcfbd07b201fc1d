import TunnelControl.Device.Channel
import TunnelControl.Host.Basic
import TunnelControl.Link
import TunnelControl.Tunnel.Report

/-!
Managing tunnels by name. Every operation opens the sockets that it needs and stops at the first
exchange that fails; what the exchange was for decides the kind of failure.
-/

namespace TunnelControl.Tunnel

open Netlink SocketOperation

variable [Base64.Codec] [Curve.Product]

def withFamily (settings : Settings) (run : FamilyInfo → SocketOperation α) : Operation α :=
  onNewSocket .generic settings do
    let family ← exchange .request (Socket.resolve settings.tunnelFamily)
    run family

/-- The device with this name. Whatever goes wrong, the device counts as not found. -/
def fetch (family : FamilyInfo) (name : String) : SocketOperation Snapshot :=
  exchange (fun error => .deviceNotFound name (some error)) (Socket.device family name)

def configure (family : FamilyInfo) (name : String) (change : DeviceChange) :
    SocketOperation Unit :=
  exchange (.configureDevice name) (Socket.applyChange family name change)

def describe (settings : Settings) (name : String) : Operation DeviceReport :=
  withFamily settings fun family => do
    return .ofSnapshot name (← fetch family name)

def names (settings : Settings) : Operation (List String) :=
  onNewSocket .route settings do
    let links ← exchange .request Socket.tunnelLinks
    return links.filterMap Link.name

def describeAll (settings : Settings) : Operation (List DeviceReport) := do
  let names ← names settings
  if names = [] then return []
  withFamily settings fun family =>
    names.mapM fun name => do return .ofSnapshot name (← fetch family name)

def create (settings : Settings) (name : String) (port : UInt16) : Operation DeviceReport := do
  onNewSocket .route settings (exchange (.addDevice name) (Socket.addLink name))
  withFamily settings fun family => do
    let snapshot ← fetch family name
    let privateKey ← Host.drawPrivateKey
    configure family name { privateKey := some privateKey, listenPort := some port }
    return .ofSnapshot name
      { snapshot with
        privateKey := some privateKey
        publicKey := some (Key.publicKey privateKey)
        listenPort := port }

def deletionFailure (name : String) (error : Error) : Failure :=
  if error.isNotFound then .deviceNotFound name none else .deleteDevice name error

def delete (settings : Settings) (name : String) : Operation Unit := do
  let index ← Host.indexOf name
  onNewSocket .route settings (exchange (deletionFailure name) (Socket.removeLink index))

/-- The subnets among the texts; each of the others is passed over with a warning. -/
def readAllowed (name : String) : List String → Operation (List Subnet)
  | [] => return []
  | text :: rest => do
      match Subnet.ofText text with
      | .ok subnet => return subnet :: (← readAllowed name rest)
      | .error fault =>
          Host.warn (.allowedIp name text (.ofSubnetFault fault))
          readAllowed name rest

/-- Adds a peer with new keys. The report is the only place where its private key appears. -/
def addPeer (settings : Settings) (name : String) (allowedIps : List String)
    (keepalive : UInt16) : Operation PeerReport :=
  withFamily settings fun family => do
    let _ ← fetch family name
    let privateKey ← Host.drawPrivateKey
    let presharedKey ← Host.drawSharedKey
    let publicKey := Key.publicKey privateKey
    let subnets ← readAllowed name allowedIps
    let change : PeerChange :=
      { publicKey
        presharedKey := some presharedKey
        keepalive := if keepalive = 0 then none else some keepalive
        allowedIps := subnets }
    configure family name { peers := [change] }
    return {
      allowedIps := subnets.map Subnet.text
      keepalive
      publicKey := Key.text publicKey
      privateKey := Key.text privateKey
      presharedKey := Key.text presharedKey }

def peers (settings : Settings) (name : String) : Operation (List PeerReport) :=
  withFamily settings fun family => do
    return (← fetch family name).peers.map .ofPeer

/-- Removes the peer whose key has exactly this text. -/
def deletePeer (settings : Settings) (name publicKey : String) : Operation Unit :=
  withFamily settings fun family => do
    match (← fetch family name).findPeer publicKey with
    | none => throw (.peerNotFound name publicKey)
    | some peer =>
        exchange (.configureDevice name) (Socket.removePeer family name peer.publicKey)

end TunnelControl.Tunnel
