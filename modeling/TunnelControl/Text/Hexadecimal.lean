namespace TunnelControl.Hexadecimal

def digit? (char : Char) : Option Nat :=
  let code := char.toNat
  if '0'.toNat ≤ code ∧ code ≤ '9'.toNat then some (code - '0'.toNat)
  else if 'a'.toNat ≤ code ∧ code ≤ 'f'.toNat then some (code - 'a'.toNat + 10)
  else if 'A'.toNat ≤ code ∧ code ≤ 'F'.toNat then some (code - 'A'.toNat + 10)
  else none

def isDigit (char : Char) : Bool :=
  (digit? char).isSome

/-- The number that digits continue; what is no digit counts as zero. -/
def continued (value : Nat) (chars : List Char) : Nat :=
  chars.foldl (fun value char => value * 16 + (digit? char).getD 0) value

def digits (value : Nat) : List Char :=
  Nat.toDigits 16 value

end TunnelControl.Hexadecimal
