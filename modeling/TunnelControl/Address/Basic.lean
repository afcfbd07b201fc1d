import TunnelControl.Bytes

namespace TunnelControl

abbrev IPv4 := Octets 4

abbrev IPv6 := Octets 16

inductive Family where
  | v4
  | v6
deriving DecidableEq, Repr

namespace Family

/-- A text with a colon anywhere is of the newer family. -/
def ofText (text : String) : Family :=
  if ':' ∈ text.toList then .v6 else .v4

def size : Family → Nat
  | .v4 => 4
  | .v6 => 16

def fullLength (family : Family) : Nat :=
  8 * family.size

def code : Family → UInt16
  | .v4 => 2
  | .v6 => 10

def ofCode? (code : UInt16) : Option Family :=
  if code = Family.v4.code then some .v4
  else if code = Family.v6.code then some .v6
  else none

@[simp] theorem ofCode?_code (family : Family) : ofCode? family.code = some family := by
  cases family <;> rfl

end Family

inductive Address where
  | v4 (octets : IPv4)
  | v6 (octets : IPv6)
deriving DecidableEq, Repr

namespace Address

def family : Address → Family
  | .v4 _ => .v4
  | .v6 _ => .v6

def bytes : Address → Bytes
  | .v4 octets => octets.bytes
  | .v6 octets => octets.bytes

def leading? (family : Family) (data : Bytes) : Option Address :=
  match family with
  | .v4 => (Octets.leading? 4 data).map .v4
  | .v6 => (Octets.leading? 16 data).map .v6

@[simp] theorem length_bytes (address : Address) :
    address.bytes.length = address.family.size := by
  cases address with
  | v4 octets => exact octets.size_eq
  | v6 octets => exact octets.size_eq

theorem leading?_bytes_append (address : Address) (rest : Bytes) :
    leading? address.family (address.bytes ++ rest) = some address := by
  cases address <;> simp [family, bytes, leading?, Octets.leading?_append]

end Address

end TunnelControl
