import TunnelControl.Address.Basic
import TunnelControl.Text.Decimal
import TunnelControl.Text.Hexadecimal

/-!
The written form of an address. The older family is four decimal numbers; the newer is eight
hexadecimal groups of which the first longest run of two zeros or more is left out, unless the
address embeds one of the older family.
-/

namespace TunnelControl

namespace IPv4

def chars (address : IPv4) : List Char :=
  ['.'].intercalate (address.bytes.map fun byte => Decimal.digits byte.toNat)

end IPv4

namespace IPv6

def pairs : Bytes → List Nat
  | first :: second :: rest => (first.toNat * 256 + second.toNat) :: pairs rest
  | _ => []

def groups (address : IPv6) : List Nat :=
  pairs address.bytes

def longestZeros : List Nat → Nat × Nat
  | [] => (0, 0)
  | group :: rest =>
      let here := ((group :: rest).takeWhile (· = 0)).length
      let (start, length) := longestZeros rest
      if length ≤ here then (0, here) else (start + 1, length)

def groupChars (groups : List Nat) : List Char :=
  [':'].intercalate (groups.map Hexadecimal.digits)

def compressed (groups : List Nat) : List Char :=
  let (start, length) := longestZeros groups
  if 1 < length then
    groupChars (groups.take start) ++ [':', ':'] ++ groupChars (groups.drop (start + length))
  else groupChars groups

def embedding : Bytes :=
  List.replicate 10 0 ++ [0xFF, 0xFF]

def embedded? (address : IPv6) : Option IPv4 :=
  if address.bytes.take 12 = embedding then Octets.ofBytes? 4 (address.bytes.drop 12) else none

def chars (address : IPv6) : List Char :=
  match embedded? address with
  | some inner => "::ffff:".toList ++ IPv4.chars inner
  | none => compressed (groups address)

end IPv6

namespace Address

def chars : Address → List Char
  | .v4 octets => IPv4.chars octets
  | .v6 octets => IPv6.chars octets

def text (address : Address) : String :=
  String.ofList address.chars

end Address

end TunnelControl
