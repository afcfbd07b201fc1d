import TunnelControl.Host.Script
import TunnelControl.Netlink.Error

/-!
An open netlink socket and the steps that an exchange on it is made of. The socket numbers its
requests from one, and it keeps what is still to come from the kernel beside what was asked of it.
-/

namespace TunnelControl.Netlink

structure Socket where
  port : UInt32
  sequence : UInt32 := 1
  /-- The most that one receive takes; the rest of a longer datagram is lost. -/
  bufferSize : Nat := 32768
  sends : List Int := []
  arrivals : List Arrival := []
  answer : Bytes → List Arrival := fun _ => []
  trace : List Event := []
  skipped : List Nat := []

abbrev Exchange (α : Type) := ExceptT Error (StateM Socket) α

namespace Socket

/-- The least size of a receive buffer that is asked for. -/
def leastBuffer : Nat := 4096

def ofScript (script : Script) : Socket where
  port := script.port
  sends := script.sends
  arrivals := script.arrivals
  answer := script.answer

def establish (protocol : Protocol) (script : Script) : Except Error Socket × List Event :=
  let event := Event.opened protocol script.openErrno
  if script.openErrno ≠ 0 then (.error (.io script.openErrno), [event])
  else if script.bindErrno ≠ 0 then (.error (.io script.bindErrno), [event])
  else if script.addressErrno ≠ 0 then (.error (.io script.addressErrno), [event])
  else (.ok (ofScript script), [event])

def withBuffer (socket : Socket) (size : Nat) : Socket :=
  { socket with bufferSize := max size leastBuffer }

def note (socket : Socket) (event : Event) : Socket :=
  { socket with trace := socket.trace ++ [event] }

def drawSequence : Exchange UInt32 := do
  let socket ← get
  set { socket with sequence := socket.sequence + 1 }
  return socket.sequence

def ownPort : Exchange UInt32 := do
  return (← get).port

def send (frame : Bytes) : Exchange Unit := do
  let socket ← get
  let errno := socket.sends.headD 0
  let socket := { socket with sends := socket.sends.tail }.note (.sent frame errno)
  if errno = 0 then
    set { socket with arrivals := socket.arrivals ++ socket.answer frame }
  else
    set socket
    throw (.io errno)

/-- Takes one datagram, cut to the buffer. When nothing is left the kernel would have to be
waited for. -/
def receive : Exchange Bytes := do
  let socket ← get
  match socket.arrivals with
  | [] =>
      set (socket.note (.received 0 Errno.wouldBlock))
      throw (.io Errno.wouldBlock)
  | .failure errno :: rest =>
      set ({ socket with arrivals := rest }.note (.received 0 errno))
      throw (.io errno)
  | .datagram data :: rest =>
      let data := data.take socket.bufferSize
      set ({ socket with arrivals := rest }.note (.received data.length 0))
      return data

end Socket

end TunnelControl.Netlink
