import TunnelControl.Address.Mask
import TunnelControl.Host.Basic

/-!
Records for the control socket. A record of forty bytes names an interface and carries either an
address or the interface's flags.
-/

namespace TunnelControl

namespace ControlRecord

def nameSize : Nat := 16

def bodySize : Nat := 24

/-- The name in its field. Bytes that leave no room for the zero are cut off. -/
def nameField (name : String) : Bytes :=
  let front := (Utf8.encode name).take (nameSize - 1)
  front ++ List.replicate (nameSize - front.length) 0

def make (name : String) (body : Bytes) : Bytes :=
  nameField name ++ (body ++ List.replicate (bodySize - body.length) 0)

def withAddress (name : String) (address : IPv4) : Bytes :=
  make name (Bytes.word16 Family.v4.code ++ [0, 0] ++ address.bytes)

def answered (record data : Bytes) : Bytes :=
  let data := data.take bodySize
  record.take nameSize ++ data ++ record.drop (nameSize + data.length)

def raised (record : Bytes) : Bytes :=
  record.modify nameSize (· ||| 1)

end ControlRecord

namespace Host

def openControl : Operation Unit := do
  let host ← get
  let errno := host.controls.headD 0
  set ({ host with controls := host.controls.tail }.note [.controlOpened errno])
  if errno ≠ 0 then throw (.controlSocket errno)

def control (code : ControlCode) (record : Bytes) (classify : Int → Failure) :
    Operation Bytes := do
  let host ← get
  let reply := host.controlReplies.headD (.granted [])
  let host := { host with controlReplies := host.controlReplies.tail }
  match reply with
  | .granted data =>
      set (host.note [.controlled code record 0])
      return ControlRecord.answered record data
  | .refused errno =>
      set (host.note [.controlled code record errno])
      throw (classify errno)

/-- Sets the address of an interface and then its mask. An address that was set stays when the
mask is refused. -/
def assignIPv4 (name : String) (address : IPv4) (length : UInt8) : Operation Unit := do
  openControl
  let _ ← control .assignAddress (ControlRecord.withAddress name address) (.assignAddress name)
  let mask := Mask.ofPrefixLength 4 length.toNat
  let _ ← control .assignMask (ControlRecord.withAddress name mask) (.assignMask name)

def bringUp (name : String) : Operation Unit := do
  openControl
  let record ← control .readFlags (ControlRecord.make name []) (.readFlags name)
  let _ ← control .writeFlags (ControlRecord.raised record) (.writeFlags name)

end Host

end TunnelControl
