import TunnelControl.Failure
import TunnelControl.Interface.Addressing
import TunnelControl.Json.Access
import TunnelControl.Json.Reader
import TunnelControl.Settings
import TunnelControl.Tunnel.Report

namespace TunnelControl

namespace InterfaceAddresses

def toJson (addresses : InterfaceAddresses) : Json :=
  .record [("ipv4", .text addresses.ipv4), ("ipv6", .text addresses.ipv6)]

def ofJson? (json : Json) : Option InterfaceAddresses := do
  match ← json.fields? ["ipv4", "ipv6"] with
  | [some ipv4, some ipv6] => return { ipv4 := ← ipv4.text?, ipv6 := ← ipv6.text? }
  | _ => none

end InterfaceAddresses

namespace DeviceReport

def toJson (report : DeviceReport) : Json :=
  .record
    [("name", .text report.name),
      ("listen_port", .natural report.listenPort.toNat),
      ("peers", .natural report.peers.toNat),
      ("public_key", .text report.publicKey),
      ("private_key", .text report.privateKey)]

def ofJson? (json : Json) : Option DeviceReport := do
  match ← json.fields? ["name", "listen_port", "peers", "public_key", "private_key"] with
  | [some name, some listenPort, some peers, some publicKey, some privateKey] =>
      return {
        name := ← name.text?
        listenPort := ← listenPort.word16?
        peers := ← peers.word64?
        publicKey := ← publicKey.text?
        privateKey := ← privateKey.text? }
  | _ => none

end DeviceReport

namespace PeerReport

def toJson (report : PeerReport) : Json :=
  .record
    [("allowed_ips", .array (report.allowedIps.map .text)),
      ("endpoint", .text report.endpoint),
      ("last_handshake", .integer report.lastHandshake.toInt),
      ("keepalive", .natural report.keepalive.toNat),
      ("rx_bytes", .natural report.receivedBytes.toNat),
      ("tx_bytes", .natural report.sentBytes.toNat),
      ("public_key", .text report.publicKey),
      ("private_key", .text report.privateKey),
      ("preshared_key", .text report.presharedKey)]

def ofJson? (json : Json) : Option PeerReport := do
  match ← json.fields? ["allowed_ips", "endpoint", "last_handshake", "keepalive", "rx_bytes",
      "tx_bytes", "public_key", "private_key", "preshared_key"] with
  | [some allowedIps, some endpoint, some lastHandshake, some keepalive, some receivedBytes,
      some sentBytes, some publicKey, some privateKey, some presharedKey] =>
      return {
        allowedIps := ← allowedIps.list? Json.text?
        endpoint := ← endpoint.text?
        lastHandshake := ← lastHandshake.signed64?
        keepalive := ← keepalive.word16?
        receivedBytes := ← receivedBytes.word64?
        sentBytes := ← sentBytes.word64?
        publicKey := ← publicKey.text?
        privateKey := ← privateKey.text?
        presharedKey := ← presharedKey.text? }
  | _ => none

end PeerReport

namespace NameList

def toJson (names : List String) : Json :=
  .array (names.map .text)

def ofJson? (json : Json) : Option (List String) :=
  json.list? Json.text?

end NameList

namespace Settings

def toJson (settings : Settings) : Json :=
  .record
    [("ipv6_ack", .bool settings.acknowledgeIPv6),
      ("recv_buffer_size", .natural settings.receiveBuffer.toNat),
      ("wireguard_family", .text settings.tunnelFamily)]

def fieldOr (default : α) (read? : Json → Option α) : Option Json → Option α
  | some json => read? json
  | none => some default

def ofJson? (json : Json) : Option Settings := do
  match ← json.fields? ["ipv6_ack", "recv_buffer_size", "wireguard_family"] with
  | [acknowledge, receiveBuffer, tunnelFamily] =>
      let standard : Settings := {}
      return {
        acknowledgeIPv6 := ← fieldOr standard.acknowledgeIPv6 Json.bool? acknowledge
        receiveBuffer := ← fieldOr standard.receiveBuffer Json.word64? receiveBuffer
        tunnelFamily := ← fieldOr standard.tunnelFamily Json.text? tunnelFamily }
  | _ => none

end Settings

namespace Failure.Kind

def form : Kind → String
  | .outOfMemory => "NoMem"
  | .controlSocket => "CtlSocketFailed"
  | .netlinkSocket => "NetlinkSocketFailed"
  | .readFlags => "GetDevFlagsFailed"
  | .writeFlags => "SetDevFlagsFailed"
  | .unfitText => "InvalidIpStr"
  | .badAddress => "InvalidIp"
  | .badLength => "InvalidIpPrefix"
  | .assignAddress => "DevIpSetFailed"
  | .assignMask => "DevNetmaskSetFailed"
  | .deviceNotFound => "DevNotFound"
  | .request => "NetlinkSendFailed"
  | .listAddresses => "GetifaddrsFailed"
  | .addDevice => "DevAddFailed"
  | .configureDevice => "DevSetFailed"
  | .peerNotFound => "PeerNotFound"
  | .deleteDevice => "DevDelFailed"
  | .badKey => "InvalidKey"

def ofForm? (form : String) : Option Kind :=
  all.find? (·.form = form)

def toJson (kind : Kind) : Json :=
  .text kind.form

/-- A kind is its name, or a record with the name as its only member and no value. -/
def ofJson? : Json → Option Kind
  | .string text => do ofForm? (← text)
  | .object [(name, .null)] => do ofForm? (← name)
  | _ => none

end Failure.Kind

end TunnelControl
