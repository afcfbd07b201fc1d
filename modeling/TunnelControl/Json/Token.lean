import TunnelControl.Json.Basic
import TunnelControl.Text.Decimal
import TunnelControl.Text.Hexadecimal

/-!
The tokens of the interchange format. A token says how many characters it takes, so that the rest
of a text is always shorter.
-/

namespace TunnelControl.Json

inductive Token where
  | openArray
  | closeArray
  | openObject
  | closeObject
  | comma
  | colon
  | null
  | bool (value : Bool)
  | number (numeral : Numeral)
  | string (text : Option String)
deriving DecidableEq, Repr

namespace Token

/-- A part of a string: a character, or half of one or more written as a number. -/
inductive Piece where
  | plain (char : Char)
  | unit (value : Nat)
deriving DecidableEq, Repr

def unit? (digits : List Char) : Option Nat :=
  if digits.all Hexadecimal.isDigit then some (Hexadecimal.continued 0 digits) else none

def escaped? : Char → Option Char
  | '"' => some '"'
  | '\\' => some '\\'
  | '/' => some '/'
  | 'b' => some '\x08'
  | 'f' => some '\x0C'
  | 'n' => some '\n'
  | 'r' => some '\r'
  | 't' => some '\t'
  | _ => none

/-- The parts of a string up to its closing quote, and the number of characters they take. -/
def pieces? : List Char → Option (List Piece × Nat)
  | [] => none
  | '"' :: _ => some ([], 1)
  | '\\' :: 'u' :: a :: b :: c :: d :: rest => do
      let value ← unit? [a, b, c, d]
      let (pieces, size) ← pieces? rest
      return (.unit value :: pieces, size + 6)
  | '\\' :: letter :: rest => do
      let char ← escaped? letter
      let (pieces, size) ← pieces? rest
      return (.plain char :: pieces, size + 2)
  | char :: rest => do
      if char.toNat < 0x20 ∨ char = '\\' then none
      let (pieces, size) ← pieces? rest
      return (.plain char :: pieces, size + 1)

/-- The characters of a string. Two halves of a character must stand together. -/
def assemble? : List Piece → Option (List Char)
  | [] => some []
  | .plain char :: rest => return char :: (← assemble? rest)
  | .unit high :: .unit low :: rest =>
      if high < 0xD800 ∨ 0xDFFF < high then
        return Char.ofNat high :: (← assemble? (.unit low :: rest))
      else if high < 0xDC00 ∧ 0xDC00 ≤ low ∧ low ≤ 0xDFFF then
        return Char.ofNat (0x10000 + (high - 0xD800) * 0x400 + (low - 0xDC00)) ::
          (← assemble? rest)
      else none
  | .unit value :: rest =>
      if value < 0xD800 ∨ 0xDFFF < value then return Char.ofNat value :: (← assemble? rest)
      else none

def digitCount (chars : List Char) : Nat :=
  (chars.takeWhile Char.isDigit).length

def fractionSize? : List Char → Option Nat
  | '.' :: rest => if digitCount rest = 0 then none else some (1 + digitCount rest)
  | _ => some 0

def exponentSize? : List Char → Option Nat
  | letter :: rest =>
      if letter = 'e' ∨ letter = 'E' then
        let sign := if rest.head? = some '+' ∨ rest.head? = some '-' then 1 else 0
        let digits := digitCount (rest.drop sign)
        if digits = 0 then none else some (1 + sign + digits)
      else some 0
  | [] => some 0

/-- A number and its size. Only zero itself starts with a zero. -/
def number? (chars : List Char) : Option (Numeral × Nat) := do
  let sign := if chars.head? = some '-' then 1 else 0
  let digits := (chars.drop sign).takeWhile Char.isDigit
  if digits.head? = some '0' ∧ 1 < digits.length then none
  let magnitude ← Decimal.number? digits
  let rest := chars.drop (sign + digits.length)
  let fraction ← fractionSize? rest
  let exponent ← exponentSize? (rest.drop fraction)
  let size := sign + digits.length + fraction + exponent
  return (⟨sign = 1, magnitude, fraction + exponent = 0⟩, size)

def read? (first : Char) (rest : List Char) : Option (Token × Nat) :=
  match first with
  | '[' => some (.openArray, 0)
  | ']' => some (.closeArray, 0)
  | '\x7b' => some (.openObject, 0)
  | '\x7d' => some (.closeObject, 0)
  | ',' => some (.comma, 0)
  | ':' => some (.colon, 0)
  | 'n' => if rest.take 3 = ['u', 'l', 'l'] then some (.null, 3) else none
  | 't' => if rest.take 3 = ['r', 'u', 'e'] then some (.bool true, 3) else none
  | 'f' => if rest.take 4 = ['a', 'l', 's', 'e'] then some (.bool false, 4) else none
  | '"' => do
      let (pieces, size) ← pieces? rest
      return (.string ((assemble? pieces).map String.ofList), size)
  | _ => do
      let (numeral, size) ← number? (first :: rest)
      return (.number numeral, size - 1)

def isBlank (char : Char) : Bool :=
  char = ' ' || char = '\n' || char = '\t' || char = '\r'

def all? : List Char → Option (List Token)
  | [] => some []
  | first :: rest =>
      if isBlank first then all? rest
      else do
        let (token, size) ← read? first rest
        return token :: (← all? (rest.drop size))
termination_by chars => chars.length
decreasing_by all_goals (simp; try omega)

end Token

end TunnelControl.Json
