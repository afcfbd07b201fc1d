import TunnelControl.Netlink.Error

namespace TunnelControl.Netlink

structure LinkHeader where
  family : UInt8 := 0
  type : UInt16 := 0
  index : Int32 := 0
  flags : UInt32 := 0
  change : UInt32 := 0
deriving DecidableEq, Repr

namespace LinkHeader

def size : Nat := 16

def bytes (header : LinkHeader) : Bytes :=
  header.family :: 0 :: (Bytes.word16 header.type ++ (Bytes.word32 header.index.toUInt32 ++
    (Bytes.word32 header.flags ++ Bytes.word32 header.change)))

def take? : Bytes → Option (LinkHeader × Bytes)
  | family :: _ :: rest => do
      let (type, rest) ← Bytes.word16? rest
      let (index, rest) ← Bytes.word32? rest
      let (flags, rest) ← Bytes.word32? rest
      let (change, rest) ← Bytes.word32? rest
      return (⟨family, type, index.toInt32, flags, change⟩, rest)
  | _ => none

def read (data : Bytes) : Except Error LinkHeader :=
  match take? data with
  | some (header, _) => .ok header
  | none => .error (.truncated size data.length)

@[simp] theorem length_bytes (header : LinkHeader) : header.bytes.length = size := by
  simp [bytes, size]

@[simp] theorem take?_bytes_append (header : LinkHeader) (rest : Bytes) :
    take? (header.bytes ++ rest) = some (header, rest) := by
  simp [take?, bytes, List.append_assoc]

end LinkHeader

structure AddressHeader where
  family : UInt8 := 0
  prefixLength : UInt8 := 0
  flags : UInt8 := 0
  scope : UInt8 := 0
  index : UInt32 := 0
deriving DecidableEq, Repr

namespace AddressHeader

def size : Nat := 8

def permanent : UInt8 := 0x80

def bytes (header : AddressHeader) : Bytes :=
  header.family :: header.prefixLength :: header.flags :: header.scope ::
    Bytes.word32 header.index

def take? : Bytes → Option (AddressHeader × Bytes)
  | family :: prefixLength :: flags :: scope :: rest => do
      let (index, rest) ← Bytes.word32? rest
      return (⟨family, prefixLength, flags, scope, index⟩, rest)
  | _ => none

def read (data : Bytes) : Except Error AddressHeader :=
  match take? data with
  | some (header, _) => .ok header
  | none => .error (.truncated size data.length)

@[simp] theorem length_bytes (header : AddressHeader) : header.bytes.length = size := by
  simp [bytes, size]

@[simp] theorem take?_bytes_append (header : AddressHeader) (rest : Bytes) :
    take? (header.bytes ++ rest) = some (header, rest) := by
  simp [take?, bytes]

end AddressHeader

structure CommandHeader where
  command : UInt8
  version : UInt8
  reserved : UInt16 := 0
deriving DecidableEq, Repr

namespace CommandHeader

def size : Nat := 4

def bytes (header : CommandHeader) : Bytes :=
  header.command :: header.version :: Bytes.word16 header.reserved

def take? : Bytes → Option (CommandHeader × Bytes)
  | command :: version :: rest => do
      let (reserved, rest) ← Bytes.word16? rest
      return (⟨command, version, reserved⟩, rest)
  | _ => none

@[simp] theorem length_bytes (header : CommandHeader) : header.bytes.length = size := by
  simp [bytes, size]

@[simp] theorem take?_bytes_append (header : CommandHeader) (rest : Bytes) :
    take? (header.bytes ++ rest) = some (header, rest) := by
  simp [take?, bytes]

end CommandHeader

end TunnelControl.Netlink
