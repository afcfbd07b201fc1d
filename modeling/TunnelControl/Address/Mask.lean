import TunnelControl.Address.Basic

/-!
Network masks and prefix lengths. A prefix length is the number of ones that a mask starts with,
whatever comes after the first zero.
-/

namespace TunnelControl.Mask

def leadingOnes {width : Nat} (mask : BitVec width) : Nat :=
  ((List.range width).takeWhile fun index => mask.getMsbD index).length

/-- The mask of `length` ones; a length beyond the width gives all ones. -/
def ones (width length : Nat) : BitVec width :=
  BitVec.allOnes width <<< (width - length)

def bits {size : Nat} (octets : Octets size) : BitVec (8 * size) :=
  BitVec.ofNat (8 * size) (Bytes.bigEndian octets.bytes)

def prefixLength {size : Nat} (mask : Octets size) : Nat :=
  leadingOnes (bits mask)

def ofPrefixLength (size length : Nat) : Octets size :=
  ⟨Bytes.ofBigEndian size (ones (8 * size) length).toNat, Bytes.length_ofBigEndian _ _⟩

end TunnelControl.Mask
