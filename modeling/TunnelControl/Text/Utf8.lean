import TunnelControl.Bytes

/-!
Text as bytes. A sequence starts with a leading byte that says which bytes may follow it, each
within a range of its own; a byte string that is not text is faulted at the first sequence that
cannot be completed.
-/

namespace TunnelControl.Utf8

def encode (text : String) : Bytes :=
  text.toList.flatMap String.utf8EncodeChar

def continuations (lead : UInt8) : Option (List (Nat × Nat)) :=
  let lead := lead.toNat
  if lead < 0x80 then some []
  else if lead < 0xC2 then none
  else if lead < 0xE0 then some [(0x80, 0xBF)]
  else if lead = 0xE0 then some [(0xA0, 0xBF), (0x80, 0xBF)]
  else if lead = 0xED then some [(0x80, 0x9F), (0x80, 0xBF)]
  else if lead < 0xF0 then some [(0x80, 0xBF), (0x80, 0xBF)]
  else if lead = 0xF0 then some [(0x90, 0xBF), (0x80, 0xBF), (0x80, 0xBF)]
  else if lead < 0xF4 then some [(0x80, 0xBF), (0x80, 0xBF), (0x80, 0xBF)]
  else if lead = 0xF4 then some [(0x80, 0x8F), (0x80, 0xBF), (0x80, 0xBF)]
  else none

/-- How many of the first bytes lie in their ranges, up to the first that does not. -/
def matching : List (Nat × Nat) → Bytes → Nat
  | (low, high) :: ranges, byte :: rest =>
      if low ≤ byte.toNat ∧ byte.toNat ≤ high then matching ranges rest + 1 else 0
  | _, _ => 0

/-- The code point of a complete sequence: the low bits of the leading byte, then six bits of
each byte that follows. -/
def codePoint (lead : UInt8) (tail : Bytes) : Nat :=
  let first :=
    match tail.length with
    | 0 => lead.toNat
    | 1 => lead.toNat % 32
    | 2 => lead.toNat % 16
    | _ => lead.toNat % 8
  tail.foldl (fun value byte => value * 64 + byte.toNat % 64) first

inductive Sequence where
  | char (char : Char) (tail : Nat)
  | broken (tail : Nat)
  | unfinished
deriving DecidableEq, Repr

/-- The sequence that a leading byte starts; `tail` counts the bytes after it that belong to
the sequence. -/
def Sequence.read (lead : UInt8) (rest : Bytes) : Sequence :=
  match continuations lead with
  | none => .broken 0
  | some ranges =>
      let tail := matching ranges rest
      if tail = ranges.length then .char (Char.ofNat (codePoint lead (rest.take tail))) tail
      else if tail = rest.length then .unfinished
      else .broken tail

inductive Fault where
  | invalid (length index : Nat)
  | incomplete (index : Nat)
deriving DecidableEq, Repr

def Fault.message : Fault → String
  | .invalid length index => s!"invalid utf-8 sequence of {length} bytes from index {index}"
  | .incomplete index => s!"incomplete utf-8 byte sequence from index {index}"

def decodeFrom (before : List Char) (index : Nat) : Bytes → Except Fault (List Char)
  | [] => .ok before.reverse
  | lead :: rest =>
      match Sequence.read lead rest with
      | .char char tail => decodeFrom (char :: before) (index + 1 + tail) (rest.drop tail)
      | .broken tail => .error (.invalid (tail + 1) index)
      | .unfinished => .error (.incomplete index)
termination_by data => data.length
decreasing_by simp only [List.length_drop, List.length_cons]; omega

def decode (data : Bytes) : Except Fault String :=
  (decodeFrom [] 0 data).map String.ofList

def replacement : Char := '\uFFFD'

def decodeLossyFrom (before : List Char) : Bytes → List Char
  | [] => before.reverse
  | lead :: rest =>
      match Sequence.read lead rest with
      | .char char tail => decodeLossyFrom (char :: before) (rest.drop tail)
      | .broken tail => decodeLossyFrom (replacement :: before) (rest.drop tail)
      | .unfinished => (replacement :: before).reverse
termination_by data => data.length
decreasing_by all_goals (simp only [List.length_drop, List.length_cons]; omega)

def decodeLossy (data : Bytes) : String :=
  String.ofList (decodeLossyFrom [] data)

end TunnelControl.Utf8
