import TunnelControl.Address.Printer
import TunnelControl.Address.Reader

namespace TunnelControl

structure Subnet where
  address : Address
  length : UInt8
deriving DecidableEq, Repr

namespace Subnet

inductive Fault where
  | unfit (text : String)
  | badAddress (text : String)
  | badLength (text : String)
deriving DecidableEq, Repr

/-- The size in bytes that the address part of a text must stay below. -/
def addressLimit : Nat := 51

def lengthLimit : Nat := 4

/-- The address part and the length part of a text. Without a slash the length is that of a
single address of the family that the text looks like. -/
def split (text : String) : Except Fault (String × String) :=
  let front := String.ofList (text.toList.takeWhile (· ≠ '/'))
  match text.toList.dropWhile (· ≠ '/') with
  | [] =>
      if text.utf8ByteSize < addressLimit then
        .ok (text, String.ofList (Decimal.digits (Family.ofText text).fullLength))
      else .error (.unfit text)
  | _ :: rest =>
      let back := String.ofList rest
      if front.utf8ByteSize < addressLimit ∧ back.utf8ByteSize < lengthLimit then
        .ok (front, back)
      else .error (.unfit text)

def checkLength (family : Family) (length : Nat) : Except Fault UInt8 :=
  if length ≤ family.fullLength then .ok (UInt8.ofNat length)
  else .error (.badLength (String.ofList (Decimal.digits length)))

def lengthOfText (family : Family) (text : String) : Except Fault UInt8 :=
  match Decimal.signed? text.toList with
  | some length =>
      if length < UInt32.size then checkLength family length else .error (.badLength text)
  | none => .error (.badLength text)

def addressOfText (family : Family) (text : String) : Except Fault Address :=
  match Address.ofText? family text with
  | some address => .ok address
  | none => .error (.badAddress text)

/-- The subnet of a known family that a text writes: the text is split first, then the address is
read, then the length. -/
def ofTextIn (family : Family) (text : String) : Except Fault Subnet := do
  let (address, length) ← split text
  let address ← addressOfText family address
  let length ← lengthOfText family length
  return { address, length }

def ofText (text : String) : Except Fault Subnet :=
  ofTextIn (Family.ofText text) text

def chars (subnet : Subnet) : List Char :=
  subnet.address.chars ++ '/' :: Decimal.digits subnet.length.toNat

def text (subnet : Subnet) : String :=
  String.ofList subnet.chars

end Subnet

end TunnelControl
