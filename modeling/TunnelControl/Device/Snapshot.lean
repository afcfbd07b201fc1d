import TunnelControl.Address.Endpoint
import TunnelControl.Address.Subnet
import TunnelControl.Device.Timestamp
import TunnelControl.Key.Basic

namespace TunnelControl

structure Peer where
  publicKey : Key := Octets.zero 32
  presharedKey : Option Key := none
  endpoint : Option Endpoint := none
  keepalive : UInt16 := 0
  lastHandshake : Option Timestamp := none
  receivedBytes : UInt64 := 0
  sentBytes : UInt64 := 0
  allowedIps : List Subnet := []
deriving DecidableEq, Repr

namespace Peer

def handshakeSeconds (peer : Peer) : Int64 :=
  match peer.lastHandshake.bind Timestamp.sinceEpoch? with
  | some seconds => seconds.toInt64
  | none => 0

/-- Adds the record of a peer to those before it. A record with the key of the last one continues
it: only its allowed addresses count. -/
def join : List Peer → Peer → List Peer
  | [], record => [record]
  | [last], record =>
      if last.publicKey = record.publicKey then
        [{ last with allowedIps := last.allowedIps ++ record.allowedIps }]
      else [last, record]
  | first :: second :: rest, record => first :: join (second :: rest) record

end Peer

structure Snapshot where
  index : Option UInt32 := none
  name : Option String := none
  privateKey : Option Key := none
  publicKey : Option Key := none
  listenPort : UInt16 := 0
  peers : List Peer := []
deriving DecidableEq, Repr

end TunnelControl
