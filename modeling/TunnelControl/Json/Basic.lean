namespace TunnelControl

/-- A number as it was written: its digits before any fraction or exponent. -/
structure Numeral where
  negative : Bool
  magnitude : Nat
  whole : Bool
deriving DecidableEq, Repr

/-- A value. A string is missing where escapes in it form no character. -/
inductive Json where
  | null
  | bool (value : Bool)
  | number (numeral : Numeral)
  | string (text : Option String)
  | array (items : List Json)
  | object (members : List (Option String × Json))

namespace Json

def text (value : String) : Json :=
  .string (some value)

def natural (value : Nat) : Json :=
  .number ⟨false, value, true⟩

def integer (value : Int) : Json :=
  .number ⟨value < 0, value.natAbs, true⟩

def record (members : List (String × Json)) : Json :=
  .object (members.map fun (name, value) => (some name, value))

def hexPair (value : Nat) : List Char :=
  [Nat.digitChar (value / 16 % 16), Nat.digitChar (value % 16)]

/-- A character inside quotes. Only quotes, backslashes and control characters are escaped. -/
def quotedChar (char : Char) : List Char :=
  if char = '"' then ['\\', '"']
  else if char = '\\' then ['\\', '\\']
  else if char = '\n' then ['\\', 'n']
  else if char = '\r' then ['\\', 'r']
  else if char = '\t' then ['\\', 't']
  else if char = '\x08' then ['\\', 'b']
  else if char = '\x0C' then ['\\', 'f']
  else if char.toNat < 0x20 then ['\\', 'u', '0', '0'] ++ hexPair char.toNat
  else [char]

def quoted (text : String) : List Char :=
  '"' :: text.toList.flatMap quotedChar ++ ['"']

mutual

def chars : Json → List Char
  | .null => "null".toList
  | .bool true => "true".toList
  | .bool false => "false".toList
  | .number numeral =>
      (if numeral.negative then ['-'] else []) ++ Nat.toDigits 10 numeral.magnitude
  | .string text => quoted (text.getD "")
  | .array items => '[' :: itemChars items ++ [']']
  | .object members => '\x7b' :: memberChars members ++ ['\x7d']

def itemChars : List Json → List Char
  | [] => []
  | [item] => chars item
  | item :: rest => chars item ++ ',' :: itemChars rest

def memberChars : List (Option String × Json) → List Char
  | [] => []
  | [(name, value)] => quoted (name.getD "") ++ ':' :: chars value
  | (name, value) :: rest => quoted (name.getD "") ++ ':' :: chars value ++ ',' :: memberChars rest

end

def render (value : Json) : String :=
  String.ofList value.chars

end Json

end TunnelControl
