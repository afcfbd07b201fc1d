import TunnelControl.Bytes

/-!
Multiples of the base point of the curve `v² = u³ + 486662u² + u` over the integers modulo
`2²⁵⁵ - 19`. A point is known by its first coordinate alone, kept as a fraction while a ladder
climbs the bits of the factor.
-/

namespace TunnelControl.Curve

def modulus : Nat := (1 <<< 255) - 19

def base : Nat := 9

def add (left right : Nat) : Nat :=
  (left + right) % modulus

def sub (left right : Nat) : Nat :=
  (left + (modulus - right % modulus)) % modulus

def mul (left right : Nat) : Nat :=
  left * right % modulus

def bitsDown : List Nat :=
  (List.range 255).reverse

def pow (value exponent : Nat) : Nat :=
  bitsDown.foldl
    (fun result bit =>
      let square := mul result result
      if exponent.testBit bit then mul square value else square)
    1

def inverse (value : Nat) : Nat :=
  pow value (modulus - 2)

structure Rungs where
  lowNumerator : Nat
  lowDenominator : Nat
  highNumerator : Nat
  highDenominator : Nat

namespace Rungs

def exchanged (rungs : Rungs) : Rungs where
  lowNumerator := rungs.highNumerator
  lowDenominator := rungs.highDenominator
  highNumerator := rungs.lowNumerator
  highDenominator := rungs.lowDenominator

/-- Doubles the low point and adds the two points, whose difference has the coordinate `start`. -/
def climb (start : Nat) (rungs : Rungs) : Rungs :=
  let sum := add rungs.lowNumerator rungs.lowDenominator
  let difference := sub rungs.lowNumerator rungs.lowDenominator
  let sumSquare := mul sum sum
  let differenceSquare := mul difference difference
  let spread := sub sumSquare differenceSquare
  let crossed := mul (sub rungs.highNumerator rungs.highDenominator) sum
  let straight := mul (add rungs.highNumerator rungs.highDenominator) difference
  let total := add crossed straight
  let gap := sub crossed straight
  { lowNumerator := mul sumSquare differenceSquare
    lowDenominator := mul spread (add sumSquare (mul 121665 spread))
    highNumerator := mul total total
    highDenominator := mul start (mul gap gap) }

def step (start : Nat) (rungs : Rungs) (bit : Bool) : Rungs :=
  if bit then (climb start rungs.exchanged).exchanged else climb start rungs

end Rungs

/-- The first coordinate of a multiple of the point with the given first coordinate. -/
def multiple (factor point : Nat) : Nat :=
  let start : Rungs := ⟨1, 0, point, 1⟩
  let result := bitsDown.foldl (fun rungs bit => rungs.step point (factor.testBit bit)) start
  mul result.lowNumerator (inverse result.lowDenominator)

/-- The multiples of the base point. A factor and the first coordinate of its multiple stand in 32
bytes each. -/
class Product where
  ofBase : Octets 32 → Octets 32

end TunnelControl.Curve
