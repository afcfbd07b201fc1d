import TunnelControl.Address.Subnet
import TunnelControl.Key.Basic
import TunnelControl.Netlink.Error

/-!
How an operation on interfaces or tunnels can fail. Each failure is of one of eighteen kinds with
a fixed number, and it keeps what it was about and the error beneath it.
-/

namespace TunnelControl

namespace Failure

inductive Kind where
  | outOfMemory
  | controlSocket
  | netlinkSocket
  | readFlags
  | writeFlags
  | unfitText
  | badAddress
  | badLength
  | assignAddress
  | assignMask
  | deviceNotFound
  | request
  | listAddresses
  | addDevice
  | configureDevice
  | peerNotFound
  | deleteDevice
  | badKey
deriving DecidableEq, Repr

namespace Kind

def all : List Kind :=
  [.outOfMemory, .controlSocket, .netlinkSocket, .readFlags, .writeFlags, .unfitText, .badAddress,
    .badLength, .assignAddress, .assignMask, .deviceNotFound, .request, .listAddresses, .addDevice,
    .configureDevice, .peerNotFound, .deleteDevice, .badKey]

def code (kind : Kind) : Nat :=
  all.idxOf kind + 1

def ofCode? (code : Nat) : Option Kind :=
  all.find? (·.code = code)

def name : Kind → String
  | .outOfMemory => "NOMEM"
  | .controlSocket => "CTL_SOCKET_FAILED"
  | .netlinkSocket => "NETLINK_SOCKET_FAILED"
  | .readFlags => "GET_DEV_FLAGS_FAILED"
  | .writeFlags => "SET_DEV_FLAGS_FAILED"
  | .unfitText => "INVALID_IP_STR"
  | .badAddress => "INVALID_IP"
  | .badLength => "INVALID_IP_PREFIX"
  | .assignAddress => "DEV_IP_SET_FAILED"
  | .assignMask => "DEV_NETMASK_SET_FAILED"
  | .deviceNotFound => "DEV_NOT_FOUND"
  | .request => "NETLINK_SEND_FAILED"
  | .listAddresses => "GETIFADDRS_FAILED"
  | .addDevice => "DEV_ADD_FAILED"
  | .configureDevice => "DEV_SET_FAILED"
  | .peerNotFound => "PEER_NOT_FOUND"
  | .deleteDevice => "DEV_DEL_FAILED"
  | .badKey => "INVALID_KEY"

theorem ofCode?_code (kind : Kind) : ofCode? kind.code = some kind := by
  cases kind <;> rfl

end Kind

end Failure

inductive Failure where
  | outOfMemory
  | controlSocket (errno : Int)
  | netlinkSocket (source : Netlink.Error)
  | readFlags (name : String) (errno : Int)
  | writeFlags (name : String) (errno : Int)
  | unfitText (text : String)
  | badAddress (text : String)
  | badLength (text : String)
  | assignAddress (name : String) (errno : Int)
  | assignMask (name : String) (errno : Int)
  /-- There is no such device; the kernel's answer is kept if it was asked by message. -/
  | deviceNotFound (name : String) (source : Option Netlink.Error)
  | request (source : Netlink.Error)
  | listAddresses (errno : Int)
  | addDevice (name : String) (source : Netlink.Error)
  | configureDevice (name : String) (source : Netlink.Error)
  | peerNotFound (name publicKey : String)
  | deleteDevice (name : String) (source : Netlink.Error)
  | badKey (detail : String)
deriving DecidableEq, Repr

namespace Failure

def kind : Failure → Kind
  | outOfMemory => .outOfMemory
  | controlSocket .. => .controlSocket
  | netlinkSocket .. => .netlinkSocket
  | readFlags .. => .readFlags
  | writeFlags .. => .writeFlags
  | unfitText .. => .unfitText
  | badAddress .. => .badAddress
  | badLength .. => .badLength
  | assignAddress .. => .assignAddress
  | assignMask .. => .assignMask
  | deviceNotFound .. => .deviceNotFound
  | request .. => .request
  | listAddresses .. => .listAddresses
  | addDevice .. => .addDevice
  | configureDevice .. => .configureDevice
  | peerNotFound .. => .peerNotFound
  | deleteDevice .. => .deleteDevice
  | badKey .. => .badKey

def ofSubnetFault : Subnet.Fault → Failure
  | .unfit text => unfitText text
  | .badAddress text => badAddress text
  | .badLength text => badLength text

def ofKeyFault (fault : Key.Fault) : Failure :=
  badKey fault.message

inductive Source where
  | memory
  | system (errno : Int)
  | netlink (error : Netlink.Error)
deriving DecidableEq, Repr

def Source.message : Source → String
  | .memory =>
      "memory allocation failed because the computed capacity exceeded the collection's maximum"
  | .system errno => Errno.text errno
  | .netlink error => error.message

def Source.errno? : Source → Option Int
  | .memory => none
  | .system errno => some errno
  | .netlink error => error.errno?

def source? : Failure → Option Source
  | outOfMemory => some .memory
  | controlSocket errno | listAddresses errno => some (.system errno)
  | readFlags _ errno | writeFlags _ errno => some (.system errno)
  | assignAddress _ errno | assignMask _ errno => some (.system errno)
  | netlinkSocket source | request source => some (.netlink source)
  | addDevice _ source | configureDevice _ source => some (.netlink source)
  | deleteDevice _ source => some (.netlink source)
  | deviceNotFound _ source => source.map .netlink
  | unfitText _ | badAddress _ | badLength _ | peerNotFound .. | badKey _ => none

def errno? (failure : Failure) : Option Int :=
  failure.source?.bind Source.errno?

def message : Failure → String
  | outOfMemory => "out of memory: " ++ Source.message .memory
  | controlSocket errno => s!"cannot open control socket: {Errno.text errno}"
  | netlinkSocket source => s!"cannot open netlink socket: {source.message}"
  | readFlags name errno => s!"SIOCGIFFLAGS on {name} failed: {Errno.text errno}"
  | writeFlags name errno => s!"SIOCSIFFLAGS on {name} failed: {Errno.text errno}"
  | unfitText text => s!"invalid address string: {text}"
  | badAddress text => s!"invalid IP address: {text}"
  | badLength text => s!"invalid prefix length: {text}"
  | assignAddress name errno => s!"SIOCSIFADDR on {name} failed: {Errno.text errno}"
  | assignMask name errno => s!"SIOCSIFNETMASK on {name} failed: {Errno.text errno}"
  | deviceNotFound name _ => s!"device not found: {name}"
  | request source => s!"netlink request failed: {source.message}"
  | listAddresses errno => s!"getifaddrs failed: {Errno.text errno}"
  | addDevice name source => s!"cannot add WireGuard device {name}: {source.message}"
  | configureDevice name source =>
      s!"cannot configure WireGuard device {name}: {source.message}"
  | peerNotFound name publicKey => s!"peer not found on {name}: {publicKey}"
  | deleteDevice name source => s!"cannot delete device {name}: {source.message}"
  | badKey detail => s!"invalid key: {detail}"

end Failure

end TunnelControl
