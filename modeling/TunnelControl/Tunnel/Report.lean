import TunnelControl.Device.Snapshot

namespace TunnelControl

structure DeviceReport where
  name : String := ""
  listenPort : UInt16 := 0
  peers : UInt64 := 0
  publicKey : String := ""
  privateKey : String := ""
deriving DecidableEq, Repr

structure PeerReport where
  allowedIps : List String := []
  endpoint : String := ""
  lastHandshake : Int64 := 0
  keepalive : UInt16 := 0
  receivedBytes : UInt64 := 0
  sentBytes : UInt64 := 0
  publicKey : String := ""
  /-- Known only when the peer has just been added. -/
  privateKey : String := ""
  presharedKey : String := ""
deriving DecidableEq, Repr

section

variable [Base64.Codec]

def Key.textOrEmpty (key : Option Key) : String :=
  (key.map Key.text).getD ""

/-- The report on a device, under the name asked for if it states none itself. -/
def DeviceReport.ofSnapshot (name : String) (snapshot : Snapshot) : DeviceReport where
  name := snapshot.name.getD name
  listenPort := snapshot.listenPort
  peers := UInt64.ofNat snapshot.peers.length
  publicKey := Key.textOrEmpty snapshot.publicKey
  privateKey := Key.textOrEmpty snapshot.privateKey

def PeerReport.ofPeer (peer : Peer) : PeerReport where
  allowedIps := peer.allowedIps.map Subnet.text
  endpoint := (peer.endpoint.map Endpoint.text).getD ""
  lastHandshake := peer.handshakeSeconds
  keepalive := peer.keepalive
  receivedBytes := peer.receivedBytes
  sentBytes := peer.sentBytes
  publicKey := Key.text peer.publicKey
  presharedKey := Key.textOrEmpty peer.presharedKey

def Snapshot.findPeer (snapshot : Snapshot) (publicKey : String) : Option Peer :=
  snapshot.peers.find? fun peer => Key.text peer.publicKey = publicKey

end

end TunnelControl
