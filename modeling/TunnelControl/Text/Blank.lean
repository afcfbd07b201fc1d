/-!
Blank characters, as the standard's property of white space lists them, and texts without the
blanks at their ends.
-/

namespace TunnelControl.Blank

def ranges : List (Nat × Nat) :=
  [(0x0009, 0x000D), (0x0020, 0x0020), (0x0085, 0x0085), (0x00A0, 0x00A0), (0x1680, 0x1680),
    (0x2000, 0x200A), (0x2028, 0x2029), (0x202F, 0x202F), (0x205F, 0x205F), (0x3000, 0x3000)]

def isBlank (char : Char) : Bool :=
  ranges.any fun (low, high) => low ≤ char.toNat && char.toNat ≤ high

def strip (chars : List Char) : List Char :=
  ((chars.dropWhile isBlank).reverse.dropWhile isBlank).reverse

end TunnelControl.Blank
