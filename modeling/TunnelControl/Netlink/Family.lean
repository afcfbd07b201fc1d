import TunnelControl.Netlink.Exchange
import TunnelControl.Netlink.FamilyHeader

/-!
Families of requests that are registered by name. The kernel assigns each a number, which is asked
for by name; the number is then the type of the family's messages, and a record with a command
follows their header.
-/

namespace TunnelControl.Netlink

structure FamilyInfo where
  id : UInt16
  version : UInt8
deriving DecidableEq, Repr

namespace FamilyInfo

def registry : UInt16 := 0x10

def lookup : CommandHeader := ⟨3, 1, 0⟩

def idAttribute : UInt16 := 1

def nameAttribute : UInt16 := 2

def versionAttribute : UInt16 := 3

def absorb (found : Option UInt16 × UInt8) (view : Attribute.View) :
    Except Error (Option UInt16 × UInt8) :=
  if view.type = idAttribute then
    return (some (← Payload.word16 view.payload), found.2)
  else if view.type = versionAttribute then
    return (found.1, (← Payload.word32 view.payload).toUInt8)
  else return found

def ofAttributes (data : Bytes) : Except Error FamilyInfo := do
  let (id, version) ← (Attribute.views data).foldlM absorb (none, 0)
  match id with
  | some id => return ⟨id, version⟩
  | none => throw (.invalidMessage .noFamilyId)

/-- The first message that is neither a dump's end nor an acknowledgement decides. -/
def listener (name : String) : Listener Unit FamilyInfo := fun _ message =>
  if message.header.isDone then return .more ()
  else if message.header.isVerdict then do
    let verdict ← Verdict.read message.payload
    if verdict.status = -Errno.noEntry then throw (.familyNotFound name)
    verdict.check
    return .more ()
  else
    match CommandHeader.take? message.payload with
    | none => .error (.invalidMessage .shortFamilyHeader)
    | some (_, attributes) => return .done (← ofAttributes attributes)

def request (name : String) : Draft :=
  ((Draft.acknowledged registry).append lookup.bytes).add (.text nameAttribute name)

end FamilyInfo

namespace Socket

/-- Looks a family up by name. The acknowledgement may come before the reply or be left unread
behind it. -/
def resolve (name : String) : Exchange FamilyInfo := do
  let (sequence, frame) ← stamp (FamilyInfo.request name)
  send frame
  listen (FamilyInfo.listener name) sequence ()

def commanded (draft : Draft) (command version : UInt8) (attributes : List Attribute) : Draft :=
  (draft.append (CommandHeader.bytes ⟨command, version, 0⟩)).addAll attributes

def command (family : UInt16) (command version : UInt8) (attributes : List Attribute) :
    Exchange Unit :=
  request (commanded (.acknowledged family) command version attributes)

def commandDump (family : UInt16) (command version : UInt8) (attributes : List Attribute) :
    Exchange (List Bytes) :=
  dump (commanded (.dump family) command version attributes)

end Socket

end TunnelControl.Netlink
