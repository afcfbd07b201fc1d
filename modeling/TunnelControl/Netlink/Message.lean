import TunnelControl.Netlink.Error

namespace TunnelControl.Netlink

/-! Types of messages. -/

namespace MessageType

def verdict : UInt16 := 2

def done : UInt16 := 3

def newLink : UInt16 := 16

def deleteLink : UInt16 := 17

def getLink : UInt16 := 18

def newAddress : UInt16 := 20

end MessageType

/-! Flags of requests. -/

namespace Flag

def request : UInt16 := 0x001

def acknowledge : UInt16 := 0x004

def dump : UInt16 := 0x300

def replace : UInt16 := 0x100

def exclusive : UInt16 := 0x200

def create : UInt16 := 0x400

end Flag

structure Header where
  length : UInt32
  type : UInt16
  flags : UInt16
  sequence : UInt32
  /-- The sender: zero for the kernel, a port number for a socket. -/
  port : UInt32
deriving DecidableEq, Repr

namespace Header

def size : Nat := 16

def bytes (header : Header) : Bytes :=
  Bytes.word32 header.length ++ (Bytes.word16 header.type ++ (Bytes.word16 header.flags ++
    (Bytes.word32 header.sequence ++ Bytes.word32 header.port)))

def take? (data : Bytes) : Option (Header × Bytes) := do
  let (length, rest) ← Bytes.word32? data
  let (type, rest) ← Bytes.word16? rest
  let (flags, rest) ← Bytes.word16? rest
  let (sequence, rest) ← Bytes.word32? rest
  let (port, rest) ← Bytes.word32? rest
  return (⟨length, type, flags, sequence, port⟩, rest)

def read (data : Bytes) : Except Error Header :=
  match take? data with
  | some (header, _) => .ok header
  | none => .error (.truncated size data.length)

def isVerdict (header : Header) : Bool :=
  header.type = MessageType.verdict

def isDone (header : Header) : Bool :=
  header.type = MessageType.done

@[simp] theorem length_bytes (header : Header) : header.bytes.length = size := by
  simp [bytes, size]

@[simp] theorem take?_bytes_append (header : Header) (rest : Bytes) :
    take? (header.bytes ++ rest) = some (header, rest) := by
  simp [take?, bytes, List.append_assoc]

theorem length_lt_of_take? {data rest : Bytes} {header : Header}
    (h : take? data = some (header, rest)) : rest.length < data.length := by
  simp only [take?, Option.bind_eq_bind, Option.bind_eq_some_iff, Option.pure_def,
    Option.some.injEq, Prod.mk.injEq] at h
  obtain ⟨_, hlength, _, htype, _, hflags, _, hsequence, _, hport, -, rfl⟩ := h
  have h₁ := Bytes.width32.length_of_read? hlength
  have h₂ := Bytes.width16.length_of_read? htype
  have h₃ := Bytes.width16.length_of_read? hflags
  have h₄ := Bytes.width32.length_of_read? hsequence
  have h₅ := Bytes.width32.length_of_read? hport
  omega

end Header

structure Message where
  header : Header
  payload : Bytes
deriving DecidableEq, Repr

namespace Message

def bytes (message : Message) : Bytes :=
  Bytes.padded (message.header.bytes ++ message.payload)

/-- The messages of a datagram in order. A length below the header's size or beyond the end is
an error and ends the datagram; fewer bytes than a header are no message. -/
def ofDatagram (data : Bytes) : List (Except Error Message) :=
  match h : Header.take? data with
  | none => []
  | some (header, rest) =>
      have := Header.length_lt_of_take? h
      let length := header.length.toNat
      if length < Header.size then
        [.error (.invalidMessage (.badLength length data.length))]
      else
        match Bytes.cut? (length - Header.size) rest with
        | none => [.error (.invalidMessage (.badLength length data.length))]
        | some (payload, _) =>
            .ok ⟨header, payload⟩ :: ofDatagram (rest.drop (Bytes.align length - Header.size))
termination_by data.length
decreasing_by simp; omega

end Message

structure Verdict where
  status : Int
  request : Header
deriving DecidableEq, Repr

namespace Verdict

def size : Nat := 4 + Header.size

def take? (payload : Bytes) : Option Verdict := do
  let (status, rest) ← Bytes.word32? payload
  let (request, _) ← Header.take? rest
  return ⟨status.toInt32.toInt, request⟩

def read (payload : Bytes) : Except Error Verdict :=
  match take? payload with
  | some verdict => .ok verdict
  | none => .error (.truncated size payload.length)

def isAcknowledgement (verdict : Verdict) : Bool :=
  verdict.status = 0

/-- The error that the verdict reports, if it is not an acknowledgement. -/
def check (verdict : Verdict) : Except Error Unit :=
  if verdict.isAcknowledgement then .ok () else .error (.ofStatus verdict.status)

end Verdict

end TunnelControl.Netlink
