import TunnelControl.Netlink.Attribute
import TunnelControl.Netlink.Message

namespace TunnelControl.Netlink

structure Draft where
  buffer : Array UInt8
  /-- The first length that was too large for an attribute. -/
  oversized : Option Nat := none

namespace Draft

structure Mark where
  offset : Nat
deriving DecidableEq, Repr

def start (type flags : UInt16) : Draft where
  buffer := (Header.bytes ⟨16, type, flags, 0, 0⟩).toArray

def size (draft : Draft) : Nat :=
  draft.buffer.size

def isEmpty (draft : Draft) : Bool :=
  draft.size = Header.size

def overwrite (buffer : Array UInt8) (offset : Nat) : Bytes → Array UInt8
  | [] => buffer
  | byte :: rest => overwrite (buffer.setIfInBounds offset byte) (offset + 1) rest

def put (draft : Draft) (offset : Nat) (data : Bytes) : Draft :=
  { draft with buffer := overwrite draft.buffer offset data }

/-- Adds bytes and brings the whole up to a multiple of four. -/
def append (draft : Draft) (data : Bytes) : Draft :=
  let buffer := draft.buffer ++ data
  { draft with buffer := buffer ++ Bytes.padding buffer.size }

/-- The number to state for a length: zero for one that is too large. -/
def stated (length : Nat) : UInt16 :=
  if length ≤ attributeLimit then UInt16.ofNat length else 0

/-- Remembers a length that is too large, unless one is remembered already. -/
def noteLength (draft : Draft) (length : Nat) : Draft :=
  if length ≤ attributeLimit then draft
  else { draft with oversized := draft.oversized <|> some length }

def leaf (draft : Draft) (type : UInt16) (payload : Bytes) : Draft :=
  let length := attributeHeader + payload.length
  (draft.noteLength length).append
    (Attribute.Header.bytes ⟨stated length, type⟩ ++ payload)

/-- Opens an attribute that holds those added until it is closed. -/
def openNest (draft : Draft) (type : UInt16) : Draft × Mark :=
  let mark : Mark := ⟨draft.size⟩
  let header : Attribute.Header := ⟨UInt16.ofNat attributeHeader, type ||| nestedFlag⟩
  ({ draft with buffer := draft.buffer ++ header.bytes }, mark)

/-- States the length of a nest: all that was added since it was opened. -/
def closeNest (draft : Draft) (mark : Mark) : Draft :=
  let length := draft.size - mark.offset
  ((draft.noteLength length).put mark.offset (Bytes.word16 (stated length))).append []

mutual

def add (draft : Draft) : Attribute → Draft
  | .leaf type payload => draft.leaf type payload
  | .nest type children =>
      let (opened, mark) := draft.openNest type
      (addAll opened children).closeNest mark

def addAll (draft : Draft) : List Attribute → Draft
  | [] => draft
  | first :: rest => addAll (draft.add first) rest

end

def setFlags (draft : Draft) (flags : UInt16) : Draft :=
  draft.put 6 (Bytes.word16 flags)

def setSequence (draft : Draft) (sequence : UInt32) : Draft :=
  draft.put 8 (Bytes.word32 sequence)

def setPort (draft : Draft) (port : UInt32) : Draft :=
  draft.put 12 (Bytes.word32 port)

def finish (draft : Draft) : Except Error Bytes :=
  match draft.oversized with
  | some length => .error (.invalidAttribute (.oversized length))
  | none =>
      if draft.size < UInt32.size then
        .ok (draft.put 0 (Bytes.word32 (UInt32.ofNat draft.size))).buffer.toList
      else .error (.invalidMessage (.tooLong draft.size))

/-! The kinds of request. -/

def dump (type : UInt16) : Draft :=
  start type (Flag.request ||| Flag.dump)

def acknowledged (type : UInt16) : Draft :=
  start type (Flag.request ||| Flag.acknowledge)

def exclusive (type : UInt16) : Draft :=
  start type (Flag.request ||| Flag.acknowledge ||| Flag.create ||| Flag.exclusive)

end Draft

end TunnelControl.Netlink
