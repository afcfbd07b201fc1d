import TunnelControl.Netlink.Draft
import TunnelControl.Netlink.Socket

/-!
The exchanges. Each sends a request and then listens: messages that carry the number of another
request are passed over, wherever they stand, and what the others mean is for the exchange to say,
one message at a time.
-/

namespace TunnelControl.Netlink

/-- What a message leads to: listening goes on, or it ends. -/
inductive Progress (σ α : Type) where
  | more (state : σ)
  | done (result : α)

abbrev Listener (σ α : Type) := σ → Message → Except Error (Progress σ α)

def Listener.hear (listener : Listener σ α) (sequence : UInt32) (state : σ) :
    List (Except Error Message) → Except Error (Progress σ α)
  | [] => .ok (.more state)
  | .error error :: _ => .error error
  | .ok message :: rest =>
      if message.header.sequence = sequence then
        match listener state message with
        | .ok (.more state) => listener.hear sequence state rest
        | outcome => outcome
      else listener.hear sequence state rest

namespace Socket

/-- Receives datagrams until the exchange ends, it fails or there is nothing to be received. The
arrivals to come are given apart from the socket. -/
def listenThrough (listener : Listener σ α) (sequence : UInt32) (socket : Socket) (state : σ) :
    List Arrival → Except Error α × Socket
  | [] =>
      (.error (.io Errno.wouldBlock),
        { socket with arrivals := [] }.note (.received 0 Errno.wouldBlock))
  | .failure errno :: rest =>
      (.error (.io errno), { socket with arrivals := rest }.note (.received 0 errno))
  | .datagram data :: rest =>
      let data := data.take socket.bufferSize
      let socket := { socket with arrivals := rest }.note (.received data.length 0)
      match listener.hear sequence state (Message.ofDatagram data) with
      | .error error => (.error error, socket)
      | .ok (.done result) => (.ok result, socket)
      | .ok (.more state) => listenThrough listener sequence socket state rest

def listen (listener : Listener σ α) (sequence : UInt32) (state : σ) : Exchange α :=
  fun socket => listenThrough listener sequence socket state socket.arrivals

/-- The first verdict ends the exchange; other messages are passed over, but a dump's end has no
place here. -/
def acknowledgement : Listener Unit Unit := fun _ message =>
  if message.header.isVerdict then do
    let verdict ← Verdict.read message.payload
    verdict.check
    return .done ()
  else if message.header.isDone then .error (.invalidMessage .acknowledgementExpected)
  else return .more ()

/-- Payloads are collected, the latest first, until the dump's end; a verdict that is an error
ends it too. -/
def collection : Listener (List Bytes) (List Bytes) := fun payloads message =>
  if message.header.isVerdict then do
    let verdict ← Verdict.read message.payload
    verdict.check
    return .more payloads
  else if message.header.isDone then return .done payloads.reverse
  else return .more (message.payload :: payloads)

def stamp (draft : Draft) : Exchange (UInt32 × Bytes) := do
  let sequence ← drawSequence
  let port ← ownPort
  let frame ← ((draft.setSequence sequence).setPort port).finish
  return (sequence, frame)

def sendAcknowledged (frame : Bytes) : Exchange Unit := do
  let header ← Header.read frame
  send frame
  listen acknowledgement header.sequence ()

def request (draft : Draft) : Exchange Unit := do
  let (_, frame) ← stamp draft
  sendAcknowledged frame

def dump (draft : Draft) : Exchange (List Bytes) := do
  let (sequence, frame) ← stamp draft
  send frame
  listen collection sequence []

end Socket

end TunnelControl.Netlink
