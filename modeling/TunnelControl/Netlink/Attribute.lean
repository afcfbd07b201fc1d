import TunnelControl.Key.Basic
import TunnelControl.Netlink.Error

namespace TunnelControl.Netlink

def attributeHeader : Nat := 4

def attributeLimit : Nat := 65535

def nestedFlag : UInt16 := 0x8000

def typeMask : UInt16 := 0x3FFF

inductive Attribute where
  | leaf (type : UInt16) (payload : Bytes)
  | nest (type : UInt16) (children : List Attribute)

namespace Attribute

def byte (type : UInt16) (value : UInt8) : Attribute :=
  .leaf type [value]

def word16 (type : UInt16) (value : UInt16) : Attribute :=
  .leaf type (Bytes.word16 value)

def word32 (type : UInt16) (value : UInt32) : Attribute :=
  .leaf type (Bytes.word32 value)

def word64 (type : UInt16) (value : UInt64) : Attribute :=
  .leaf type (Bytes.word64 value)

def text (type : UInt16) (value : String) : Attribute :=
  .leaf type (Utf8.encode value ++ [0])

def frame (type : UInt16) (payload : Bytes) : Bytes :=
  Bytes.padded <|
    Bytes.word16 (UInt16.ofNat (attributeHeader + payload.length)) ++ Bytes.word16 type ++ payload

mutual

def encode : Attribute → Bytes
  | .leaf type payload => frame type payload
  | .nest type children => frame (type ||| nestedFlag) (encodeAll children)

def encodeAll : List Attribute → Bytes
  | [] => []
  | first :: rest => encode first ++ encodeAll rest

end

structure View where
  type : UInt16
  payload : Bytes
deriving DecidableEq, Repr

structure Header where
  length : UInt16
  type : UInt16
deriving DecidableEq, Repr

namespace Header

def bytes (header : Header) : Bytes :=
  Bytes.word16 header.length ++ Bytes.word16 header.type

def kind (header : Header) : UInt16 :=
  header.type &&& typeMask

def take? (data : Bytes) : Option (Header × Bytes) := do
  let (length, rest) ← Bytes.word16? data
  let (type, rest) ← Bytes.word16? rest
  return (⟨length, type⟩, rest)

def read (data : Bytes) : Except Error Header :=
  match take? data with
  | some (header, _) => .ok header
  | none => .error (.truncated attributeHeader data.length)

end Header

/-- The first attribute and what follows its padding. A length that is too small or reaches past
the end gives none; padding may be missing at the end. -/
def next? (data : Bytes) : Option (View × Bytes) := do
  let (header, rest) ← Header.take? data
  if header.length.toNat < attributeHeader then none
  else
    let size := header.length.toNat - attributeHeader
    let (payload, _) ← Bytes.cut? size rest
    some (⟨header.kind, payload⟩, rest.drop (Bytes.align size))

theorem length_lt_of_take? {data rest : Bytes} {header : Header}
    (h : Header.take? data = some (header, rest)) : rest.length < data.length := by
  simp only [Header.take?, Option.bind_eq_bind, Option.bind_eq_some_iff, Option.pure_def,
    Option.some.injEq, Prod.mk.injEq] at h
  obtain ⟨_, hlength, _, htype, -, rfl⟩ := h
  have h₁ := Bytes.width16.length_of_read? hlength
  have h₂ := Bytes.width16.length_of_read? htype
  omega

theorem length_lt_of_next? {data rest : Bytes} {view : View}
    (h : next? data = some (view, rest)) : rest.length < data.length := by
  simp only [next?, Option.bind_eq_bind, Option.bind_eq_some_iff] at h
  obtain ⟨⟨header, after⟩, htake, h⟩ := h
  have hafter := length_lt_of_take? htake
  split at h
  · cases h
  · simp only [Option.bind_eq_some_iff, Option.some.injEq, Prod.mk.injEq] at h
    obtain ⟨-, -, -, rfl⟩ := h
    simp only [List.length_drop]
    omega

/-- The attributes of a byte string, up to the first that is malformed. -/
def views (data : Bytes) : List View :=
  match h : next? data with
  | none => []
  | some (view, rest) =>
      have := length_lt_of_next? h
      view :: views rest
termination_by data.length

/-- Why one attribute cannot be taken: its length is too small for a header, or more bytes are
wanted. -/
inductive Refusal where
  | badLength
  | missing
deriving DecidableEq, Repr

/-- Takes one attribute and, if all of it is there, its padding. -/
def take (data : Bytes) : Except Refusal (View × Bytes) :=
  match Header.take? data with
  | none => .error .missing
  | some (header, rest) =>
      if header.length.toNat < attributeHeader then .error .badLength
      else
        match Bytes.cut? (header.length.toNat - attributeHeader) rest with
        | none => .error .missing
        | some (payload, rest) =>
            let gap := Bytes.align header.length.toNat - header.length.toNat
            match Bytes.cut? gap rest with
            | some (_, rest) => .ok (⟨header.kind, payload⟩, rest)
            | none => .ok (⟨header.kind, payload⟩, rest)

theorem length_lt_of_take {data rest : Bytes} {view : View}
    (h : take data = .ok (view, rest)) : rest.length < data.length := by
  unfold take at h
  split at h
  · cases h
  · rename_i header after htake
    have hafter := length_lt_of_take? htake
    split at h
    · cases h
    · split at h
      · cases h
      · rename_i payload behind hcut
        obtain ⟨rfl, -⟩ := Bytes.eq_append_of_cut? hcut
        simp only [List.length_append] at hafter
        dsimp only at h
        split at h
        · rename_i gap back hgap
          obtain ⟨rfl, -⟩ := Bytes.eq_append_of_cut? hgap
          cases h
          simp only [List.length_append] at hafter
          omega
        · cases h
          omega

def takeAll (data : Bytes) : List (View × Bytes) × Option Refusal :=
  if data = [] then ([], none)
  else
    match h : take data with
    | .error refusal => ([], some refusal)
    | .ok (view, rest) =>
        have := length_lt_of_take h
        let (taken, refusal) := takeAll rest
        ((view, rest) :: taken, refusal)
termination_by data.length

end Attribute

/-! Typed readers of a payload; bytes beyond the value are ignored. -/

namespace Payload

def demand (kind : String) : Option α → Except Error α
  | some value => .ok value
  | none => .error (.invalidAttribute (.truncated kind))

def byte : Bytes → Except Error UInt8
  | value :: _ => .ok value
  | [] => .error (.invalidAttribute (.empty "u8"))

def word16 (payload : Bytes) : Except Error UInt16 :=
  demand "u16" ((Bytes.word16? payload).map (·.1))

def word32 (payload : Bytes) : Except Error UInt32 :=
  demand "u32" ((Bytes.word32? payload).map (·.1))

def word64 (payload : Bytes) : Except Error UInt64 :=
  demand "u64" ((Bytes.word64? payload).map (·.1))

def key (payload : Bytes) : Except Error Key :=
  demand "key" (Octets.leading? 32 payload)

/-- The text before the first zero. -/
def text (payload : Bytes) : Except Error String :=
  match Utf8.decode (Bytes.untilZero payload) with
  | .ok text => .ok text
  | .error fault => .error (.invalidAttribute (.notText fault))

end Payload

end TunnelControl.Netlink
