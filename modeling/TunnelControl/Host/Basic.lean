import TunnelControl.Failure
import TunnelControl.Host.Script
import TunnelControl.Netlink.Socket
import TunnelControl.Key.Basic
import TunnelControl.Settings

/-!
The machine that operations run on: what it will answer, and what it was asked so far. An operation
opens the sockets that it needs, and their exchanges become part of the machine's record.
-/

namespace TunnelControl

structure InterfaceEntry where
  name : Option String := none
  family : UInt16 := 0
  address : Option Bytes := none
  mask : Option Bytes := none
deriving DecidableEq, Repr

inductive ControlReply where
  | granted (data : Bytes)
  | refused (errno : Int)
deriving DecidableEq, Repr

inductive Warning where
  | shortReply (size : Nat)
  | allowedIp (device text : String) (fault : Failure)
deriving DecidableEq, Repr

def Warning.fields : Warning → List (String × String)
  | .shortReply size =>
      [("message", "short WireGuard reply skipped"), ("len", toString size)]
  | .allowedIp device text fault =>
      [("message", "skipping allowed IP"), ("ifname", device), ("allowed_ip", text),
        ("error", fault.message)]

structure Host where
  scripts : List Script := []
  /-- How any further netlink socket behaves. -/
  spare : Protocol → Script := fun _ => {}
  /-- The error of each opening of the control socket; any further one goes through. -/
  controls : List Int := []
  /-- What the records handed to the control socket meet; any further one is taken. -/
  controlReplies : List ControlReply := []
  indices : List (String × UInt32) := []
  addresses : Except Int (List InterfaceEntry) := .ok []
  entropy : Bytes := []
  processId : UInt32 := 4321
  trace : List Event := []
  warnings : List Warning := []

abbrev Operation (α : Type) := ExceptT Failure (StateM Host) α

namespace Host

def note (host : Host) (events : List Event) : Host :=
  { host with trace := host.trace ++ events }

def noteExchange (host : Host) (socket : Netlink.Socket) : Host :=
  { host with
    trace := host.trace ++ socket.trace
    warnings := host.warnings ++ socket.skipped.map .shortReply }

def warn (warning : Warning) : Operation Unit :=
  modify fun host => { host with warnings := host.warnings ++ [warning] }

def draw (count : Nat) : Operation (Octets count) := do
  let host ← get
  let drawn := host.entropy.take count
  set { host with entropy := host.entropy.drop count }
  return ⟨drawn ++ List.replicate (count - drawn.length) 0, by
    have : drawn.length ≤ count := List.length_take_le _ _
    simp
    omega⟩

def drawPrivateKey : Operation Key := do
  return Key.clamp (← draw 32)

def drawSharedKey : Operation Key :=
  draw 32

/-- The number of the interface with this name. A name with a zero in it is no interface's. -/
def indexOf (name : String) : Operation UInt32 := do
  let host ← get
  let index := if '\x00' ∈ name.toList then 0 else (host.indices.lookup name).getD 0
  if index = 0 then throw (.deviceNotFound name none)
  return index

def openSocket (protocol : Protocol) (settings : Settings) : Operation Netlink.Socket := do
  let host ← get
  let script := host.scripts.headD (host.spare protocol)
  let (outcome, events) := Netlink.Socket.establish protocol script
  set ({ host with scripts := host.scripts.tail }.note events)
  match outcome with
  | .ok socket => return socket.withBuffer settings.receiveBuffer.toNat
  | .error error => throw (.netlinkSocket error)

end Host

abbrev SocketOperation (α : Type) := StateT Netlink.Socket (ExceptT Failure (StateM Host)) α

namespace SocketOperation

def exchange (classify : Netlink.Error → Failure) (run : Netlink.Exchange α) :
    SocketOperation α := fun socket => do
  let (outcome, socket) := run.run { socket with trace := [], skipped := [] }
  modify fun host => host.noteExchange socket
  match outcome with
  | .ok result => return (result, socket)
  | .error error => throw (classify error)

def onNewSocket (protocol : Protocol) (settings : Settings) (run : SocketOperation α) :
    Operation α := do
  let socket ← Host.openSocket protocol settings
  run.run' socket

end SocketOperation

end TunnelControl
