import TunnelControl.Address.Basic
import TunnelControl.Text.Decimal
import TunnelControl.Text.Hexadecimal

/-!
Reading addresses. A reader takes as much of a text as it can use and returns the rest; a text is
an address only if nothing is left.
-/

namespace TunnelControl

namespace IPv4

def octet? (chars : List Char) : Option (UInt8 × List Char) :=
  let digits := chars.takeWhile Char.isDigit
  let rest := chars.dropWhile Char.isDigit
  if 3 < digits.length then none
  else if digits.head? = some '0' ∧ 1 < digits.length then none
  else do
    let value ← Decimal.number? digits
    if value < 256 then some (UInt8.ofNat value, rest) else none

def dottedOctet? : List Char → Option (UInt8 × List Char)
  | '.' :: rest => octet? rest
  | _ => none

def take? (chars : List Char) : Option (IPv4 × List Char) := do
  let (a, rest) ← octet? chars
  let (b, rest) ← dottedOctet? rest
  let (c, rest) ← dottedOctet? rest
  let (d, rest) ← dottedOctet? rest
  some (⟨[a, b, c, d], rfl⟩, rest)

def ofChars? (chars : List Char) : Option IPv4 :=
  match take? chars with
  | some (address, []) => some address
  | _ => none

end IPv4

namespace IPv6

def group? (chars : List Char) : Option (Nat × List Char) :=
  let digits := chars.takeWhile Hexadecimal.isDigit
  let rest := chars.dropWhile Hexadecimal.isDigit
  if digits = [] ∨ 4 < digits.length then none
  else some (Hexadecimal.continued 0 digits, rest)

def afterColon? (first : Bool) (chars : List Char) : Option (List Char) :=
  match first, chars with
  | true, chars => some chars
  | false, ':' :: rest => some rest
  | false, _ => none

structure Groups where
  values : List Nat
  dotted : Bool
  rest : List Char
deriving DecidableEq, Repr

def dottedGroups (address : IPv4) : List Nat :=
  [Bytes.bigEndian (address.bytes.take 2), Bytes.bigEndian (address.bytes.drop 2)]

/-- At most `room` groups. Where two are left a dotted address may take their place, and it is
the last. -/
def takeGroups (first : Bool) : Nat → List Char → Groups
  | 0, chars => ⟨[], false, chars⟩
  | room + 1, chars =>
      match if 1 ≤ room then afterColon? first chars >>= IPv4.take? else none with
      | some (address, rest) => ⟨dottedGroups address, true, rest⟩
      | none =>
          match afterColon? first chars >>= group? with
          | some (value, rest) =>
              let more := takeGroups false room rest
              { more with values := value :: more.values }
          | none => ⟨[], false, chars⟩

def ofGroups? (groups : List Nat) : Option IPv6 :=
  Octets.ofBytes? 16 (groups.flatMap (Bytes.ofBigEndian 2))

/-- Eight groups, or fewer around a double colon that stands for one zero group or more. -/
def ofChars? (chars : List Char) : Option IPv6 :=
  let front := takeGroups true 8 chars
  if front.values.length = 8 then
    if front.rest = [] then ofGroups? front.values else none
  else if front.dotted then none
  else
    match front.rest with
    | ':' :: ':' :: rest =>
        let back := takeGroups true (7 - front.values.length) rest
        let zeros := 8 - (front.values.length + back.values.length)
        if back.rest = [] then
          ofGroups? (front.values ++ List.replicate zeros 0 ++ back.values)
        else none
    | _ => none

end IPv6

namespace Address

def ofText? (family : Family) (text : String) : Option Address :=
  match family with
  | .v4 => (IPv4.ofChars? text.toList).map .v4
  | .v6 => (IPv6.ofChars? text.toList).map .v6

end Address

end TunnelControl
