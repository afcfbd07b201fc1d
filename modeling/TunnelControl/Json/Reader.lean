import TunnelControl.Json.Token

/-!
Reading a value. A machine takes one token after another and keeps the containers that are still
open on a stack.
-/

namespace TunnelControl.Json

inductive Frame where
  | array (items : List Json)
  | object (members : List (Option String × Json)) (name : Option String)

inductive Expected where
  | value
  | valueOrEnd
  | name
  | nameOrEnd
  | colon
  | separator
deriving DecidableEq, Repr

inductive Reading where
  | within (stack : List Frame) (expected : Expected)
  | finished (value : Json)

namespace Reading

def start : Reading :=
  .within [] .value

def supply (value : Json) : List Frame → Reading
  | [] => .finished value
  | .array items :: rest => .within (.array (value :: items) :: rest) .separator
  | .object members name :: rest =>
      .within (.object ((name, value) :: members) none :: rest) .separator

def close? (token : Token) : List Frame → Option Reading
  | .array items :: rest =>
      if token = .closeArray then some (supply (.array items.reverse) rest) else none
  | .object members _ :: rest =>
      if token = .closeObject then some (supply (.object members.reverse) rest) else none
  | [] => none

def begin? (stack : List Frame) : Token → Option Reading
  | .null => some (supply .null stack)
  | .bool value => some (supply (.bool value) stack)
  | .number numeral => some (supply (.number numeral) stack)
  | .string text => some (supply (.string text) stack)
  | .openArray => some (.within (.array [] :: stack) .valueOrEnd)
  | .openObject => some (.within (.object [] none :: stack) .nameOrEnd)
  | _ => none

def name? : List Frame → Token → Option Reading
  | .object members _ :: rest, .string name => some (.within (.object members name :: rest) .colon)
  | _, _ => none

def step? (reading : Reading) (token : Token) : Option Reading :=
  match reading with
  | .finished _ => none
  | .within stack expected =>
      match expected with
      | .value => begin? stack token
      | .valueOrEnd => if token = .closeArray then close? token stack else begin? stack token
      | .name => name? stack token
      | .nameOrEnd => if token = .closeObject then close? token stack else name? stack token
      | .colon => if token = .colon then some (.within stack .value) else none
      | .separator =>
          if token = .comma then
            match stack with
            | .array _ :: _ => some (.within stack .value)
            | .object .. :: _ => some (.within stack .name)
            | [] => none
          else close? token stack

def value? : Reading → Option Json
  | .finished value => some value
  | .within .. => none

end Reading

def parse? (text : String) : Option Json := do
  let tokens ← Token.all? text.toList
  (← tokens.foldlM Reading.step? Reading.start).value?

end TunnelControl.Json
