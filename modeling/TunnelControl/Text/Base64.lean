import TunnelControl.Bytes

/-!
Bytes as text in groups of four characters for three bytes. Only the one written form of a byte
string is read back: the last group is filled up with `=`, and the bits that it does not use are
zero.
-/

namespace TunnelControl.Base64

def alphabet : List Char :=
  "ABCDEFGHIJKLMNOPQRSTUVWXYZabcdefghijklmnopqrstuvwxyz0123456789+/".toList

def symbol (value : Nat) : Char :=
  alphabet.getD (value % 64) 'A'

def value? (char : Char) : Option Nat :=
  let code := char.toNat
  if 'A'.toNat ≤ code ∧ code ≤ 'Z'.toNat then some (code - 'A'.toNat)
  else if 'a'.toNat ≤ code ∧ code ≤ 'z'.toNat then some (code - 'a'.toNat + 26)
  else if '0'.toNat ≤ code ∧ code ≤ '9'.toNat then some (code - '0'.toNat + 52)
  else if char = '+' then some 62
  else if char = '/' then some 63
  else none

def encode : Bytes → List Char
  | [] => []
  | [a] =>
      let bits := a.toNat * 16
      [symbol (bits / 64), symbol bits, '=', '=']
  | [a, b] =>
      let bits := (a.toNat * 256 + b.toNat) * 4
      [symbol (bits / 4096), symbol (bits / 64), symbol bits, '=']
  | a :: b :: c :: rest =>
      let bits := (a.toNat * 256 + b.toNat) * 256 + c.toNat
      symbol (bits / 262144) :: symbol (bits / 4096) :: symbol (bits / 64) :: symbol bits ::
        encode rest

def lastByte? (first second : Char) : Option Bytes := do
  let bits := (← value? first) * 64 + (← value? second)
  if bits % 16 = 0 then some [UInt8.ofNat (bits / 16)] else none

def lastBytes? (first second third : Char) : Option Bytes := do
  let bits := ((← value? first) * 64 + (← value? second)) * 64 + (← value? third)
  if bits % 4 = 0 then some [UInt8.ofNat (bits / 1024), UInt8.ofNat (bits / 4)] else none

def group? (first second third fourth : Char) : Option Bytes := do
  let bits := (((← value? first) * 64 + (← value? second)) * 64 + (← value? third)) * 64 +
    (← value? fourth)
  some [UInt8.ofNat (bits / 65536), UInt8.ofNat (bits / 256), UInt8.ofNat bits]

def decode? : List Char → Option Bytes
  | [] => some []
  | [a, b, '=', '='] => lastByte? a b
  | [a, b, c, '='] => lastBytes? a b c
  | a :: b :: c :: d :: rest => do
      let group ← group? a b c d
      let tail ← decode? rest
      some (group ++ tail)
  | _ => none

/-- A way to write bytes as text, and to read text that writes bytes. -/
class Codec where
  encode : Bytes → List Char
  decode? : List Char → Option Bytes

instance : Codec := ⟨encode, decode?⟩

end TunnelControl.Base64
