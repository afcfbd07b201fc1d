import TunnelControl.Bytes

/-!
What the kernel is asked for, in the order in which it is asked. A number of zero says that the
request went through; any other is the error it met.
-/

namespace TunnelControl

inductive Protocol where
  | route
  | generic
deriving DecidableEq, Repr

def Protocol.code : Protocol → Nat
  | .route => 0
  | .generic => 16

inductive ControlCode where
  | assignAddress
  | assignMask
  | readFlags
  | writeFlags
deriving DecidableEq, Repr

def ControlCode.code : ControlCode → Nat
  | .assignAddress => 0x8916
  | .assignMask => 0x891C
  | .readFlags => 0x8913
  | .writeFlags => 0x8914

inductive Event where
  | opened (protocol : Protocol) (errno : Int)
  | sent (frame : Bytes) (errno : Int)
  | received (size : Nat) (errno : Int)
  | controlOpened (errno : Int)
  | controlled (code : ControlCode) (record : Bytes) (errno : Int)
  | addressesListed
  | addressesReleased
deriving DecidableEq, Repr

end TunnelControl
