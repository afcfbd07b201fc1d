import TunnelControl.Netlink.Exchange
import TunnelControl.Netlink.FamilyHeader

namespace TunnelControl

open Netlink

/-- A link as a dump reports it. A name or kind that is not text counts as missing. -/
structure Link where
  index : UInt32
  name : Option String := none
  kind : Option String := none
deriving DecidableEq, Repr

namespace Link

def tunnelKind : String := "wireguard"

def nameAttribute : UInt16 := 3

def infoAttribute : UInt16 := 18

def kindAttribute : UInt16 := 1

def isTunnel (link : Link) : Bool :=
  link.kind = some tunnelKind

def kindOf (information : Bytes) : Option String := do
  let view ← (Attribute.views information).find? (·.type = kindAttribute)
  (Payload.text view.payload).toOption

/-- What an attribute says about a link; a later attribute overrides an earlier one. -/
def absorb (link : Link) (view : Attribute.View) : Link :=
  if view.type = nameAttribute then { link with name := (Payload.text view.payload).toOption }
  else if view.type = infoAttribute then { link with kind := kindOf view.payload }
  else link

def absorbAll (link : Link) (data : Bytes) : Option Link :=
  if data = [] then some link
  else
    match h : Attribute.take data with
    | .error _ => none
    | .ok (view, rest) =>
        have := Attribute.length_lt_of_take h
        absorbAll (link.absorb view) rest
termination_by data.length

/-- The link that a payload describes: a record and then nothing but attributes. -/
def ofPayload (payload : Bytes) : Except Error Link :=
  match (do
    let (header, rest) ← LinkHeader.take? payload
    absorbAll { index := header.index.toUInt32 } rest : Option Link) with
  | some link => .ok link
  | none => .error (.malformed "link message")

/-! Requests. -/

def addition (name : String) : Draft :=
  ((Draft.exclusive MessageType.newLink).append (LinkHeader.bytes {})).addAll
    [.text nameAttribute name, .nest infoAttribute [.text kindAttribute tunnelKind]]

def removal (index : UInt32) : Draft :=
  (Draft.acknowledged MessageType.deleteLink).append
    (LinkHeader.bytes { index := index.toInt32 })

def enumeration : Draft :=
  (Draft.dump MessageType.getLink).append (LinkHeader.bytes {})

end Link

namespace Netlink.Socket

def addLink (name : String) : Exchange Unit :=
  request (Link.addition name)

def removeLink (index : UInt32) : Exchange Unit :=
  request (Link.removal index)

/-- The links that carry tunnels, in the kernel's order. -/
def tunnelLinks : Exchange (List Link) := do
  let links ← (← dump Link.enumeration).mapM fun payload => (Link.ofPayload payload : Except _ _)
  return links.filter Link.isTunnel

end Netlink.Socket

end TunnelControl
