import TunnelControl.Host.Event

namespace TunnelControl

inductive Arrival where
  | datagram (data : Bytes)
  | failure (errno : Int)
deriving DecidableEq, Repr

/-- Whether the socket can be set up, what becomes of the frames sent, and what is there to be
received: what is queued from the start, and behind it what each frame that goes through is
answered with. -/
structure Script where
  openErrno : Int := 0
  bindErrno : Int := 0
  addressErrno : Int := 0
  port : UInt32 := 1000
  sends : List Int := []
  arrivals : List Arrival := []
  answer : Bytes → List Arrival := fun _ => []

end TunnelControl
