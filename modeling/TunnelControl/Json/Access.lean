import TunnelControl.Json.Basic

namespace TunnelControl.Json

def text? : Json → Option String
  | .string text => text
  | _ => none

def bool? : Json → Option Bool
  | .bool value => some value
  | _ => none

def below? (limit : Nat) : Json → Option Nat
  | .number ⟨false, magnitude, true⟩ => if magnitude < limit then some magnitude else none
  | _ => none

def word16? (value : Json) : Option UInt16 :=
  (value.below? UInt16.size).map UInt16.ofNat

def word64? (value : Json) : Option UInt64 :=
  (value.below? UInt64.size).map UInt64.ofNat

/-- A signed number of 64 bits; a negative zero is not one. -/
def signed64? : Json → Option Int64
  | .number ⟨false, magnitude, true⟩ =>
      if magnitude < 0x8000000000000000 then some (Int64.ofNat magnitude) else none
  | .number ⟨true, magnitude, true⟩ =>
      if 0 < magnitude ∧ magnitude ≤ 0x8000000000000000 then some (Int64.ofInt (-magnitude))
      else none
  | _ => none

def list? (item? : Json → Option α) : Json → Option (List α)
  | .array items => items.mapM item?
  | _ => none

def members? (members : List (Option String × Json)) : Option (List (String × Json)) :=
  members.mapM fun (name, value) => name.map fun name => (name, value)

/-- The one member of this name: it may be missing, but not be there twice. -/
def unique? (members : List (String × Json)) (name : String) : Option (Option Json) :=
  match members.filter fun member => member.1 = name with
  | [] => some none
  | [(_, value)] => some (some value)
  | _ => none

/-- The values of a record's fields, in order. They are either named, among members of other
names, or listed in order, where the last may be missing. -/
def fields? (names : List String) : Json → Option (List (Option Json))
  | .array items =>
      if items.length ≤ names.length then
        some (items.map some ++ List.replicate (names.length - items.length) none)
      else none
  | .object members => do
      let members ← members? members
      names.mapM (unique? members)
  | _ => none

end TunnelControl.Json
