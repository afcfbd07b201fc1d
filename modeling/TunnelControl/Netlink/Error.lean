import TunnelControl.Errno
import TunnelControl.Text.Utf8

namespace TunnelControl.Netlink

inductive MessageFault where
  | badLength (length available : Nat)
  | tooLong (length : Nat)
  | acknowledgementExpected
  | shortFamilyHeader
  | noFamilyId
  | described (text : String)
deriving DecidableEq, Repr

def MessageFault.message : MessageFault → String
  | .badLength length available =>
      s!"nlmsg_len {length} outside datagram of {available} bytes"
  | .tooLong length => s!"{length} byte message"
  | .acknowledgementExpected => "expected ACK message"
  | .shortFamilyHeader => "GENL header too short"
  | .noFamilyId => "missing family ID"
  | .described text => text

inductive AttributeFault where
  | truncated (kind : String)
  | empty (kind : String)
  | notText (fault : Utf8.Fault)
  | oversized (length : Nat)
  | described (text : String)
deriving DecidableEq, Repr

def AttributeFault.message : AttributeFault → String
  | .truncated kind => s!"truncated {kind} attribute"
  | .empty kind => s!"empty {kind} attribute"
  | .notText fault => s!"invalid UTF-8: {fault.message}"
  | .oversized length => s!"attribute of {length} bytes exceeds the 65535 byte limit"
  | .described text => text

inductive Error where
  | io (errno : Int)
  | kernel (errno : Int)
  | truncated (expected actual : Nat)
  | invalidMessage (fault : MessageFault)
  | invalidAttribute (fault : AttributeFault)
  | malformed (what : String)
  | familyNotFound (name : String)
deriving DecidableEq, Repr

namespace Error

def errnoLimit : Int := 0x7FFFFFFF

def ofStatus (status : Int) : Error :=
  .kernel (min (status.natAbs : Int) errnoLimit)

def errno? : Error → Option Int
  | .io errno => some errno
  | .kernel errno => some errno
  | _ => none

def isNotFound : Error → Bool
  | .kernel errno => errno = Errno.noEntry ∨ errno = Errno.noDevice
  | .familyNotFound _ => true
  | _ => false

def isAlreadyExists : Error → Bool
  | .kernel errno => errno = Errno.alreadyExists
  | _ => false

def message : Error → String
  | .io errno => s!"I/O error: {Errno.text errno}"
  | .kernel errno => s!"kernel error: {Errno.text errno} (errno {errno})"
  | .truncated expected actual =>
      s!"message truncated: expected {expected} bytes, got {actual}"
  | .invalidMessage fault => s!"invalid message: {fault.message}"
  | .invalidAttribute fault => s!"invalid attribute: {fault.message}"
  | .malformed what => s!"parse error: {what}"
  | .familyNotFound name => s!"generic netlink family not found: {name}"

end Error

end TunnelControl.Netlink
