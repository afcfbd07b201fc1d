namespace TunnelControl.Decimal

/-- The digits of a number, without leading zeros. -/
def digits (value : Nat) : List Char :=
  Nat.toDigits 10 value

def digit? (char : Char) : Option Nat :=
  if char.isDigit then some (char.toNat - '0'.toNat) else none

def continue? (value : Nat) : List Char → Option Nat
  | [] => some value
  | char :: rest => do continue? (value * 10 + (← digit? char)) rest

/-- A number is one digit or more; leading zeros count for nothing. -/
def number? : List Char → Option Nat
  | [] => none
  | chars => continue? 0 chars

def signed? : List Char → Option Nat
  | '+' :: rest => number? rest
  | chars => number? chars

end TunnelControl.Decimal
