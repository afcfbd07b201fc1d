import TunnelControl.Proofs.Netlink.PackedMessages
import TunnelControl.Proofs.Netlink.SteadyAnswers
import TunnelControl.Proofs.Tunnel.LinkReading
import TunnelControl.Proofs.Tunnel.Requests

namespace TunnelControl

open Netlink Netlink.Attribute

namespace Netlink

structure Datagram where
  bytes : Bytes
  messages : List Message
  reads : Message.Reads bytes (messages.map .ok)

namespace Datagram

def arrival (datagram : Datagram) : Arrival :=
  .datagram datagram.bytes

def pack (messages : List Message) (hframed : ∀ message ∈ messages, message.Framed) :
    Datagram where
  bytes := Message.packet messages
  messages := messages
  reads := Message.ofDatagram_packet hframed ▸ Message.reads_ofDatagram _

theorem stream_arrivals {size : Nat} {datagrams : List Datagram}
    (hsize : ∀ datagram ∈ datagrams, datagram.bytes.length ≤ size) :
    Arrival.stream size (datagrams.map arrival) = (datagrams.flatMap messages).map .ok := by
  induction datagrams with
  | nil => rfl
  | cons datagram datagrams ih =>
      obtain ⟨hfirst, hrest⟩ := List.forall_mem_cons.mp hsize
      rw [List.map_cons, Arrival.stream, List.flatMap_cons, arrival, Arrival.items,
        List.take_of_length_le hfirst, datagram.reads.eq_ofDatagram, List.flatMap_cons,
        List.map_append]
      exact congrArg _ (ih hrest)

end Datagram

namespace Payload

theorem demand_read? {size : Nat} {α : Type} (width : Bytes.Width size α) (kind : String)
    (payload : Bytes) :
    demand kind ((width.read? payload).map (·.1)) =
      if payload.length < size then .error (.invalidAttribute (.truncated kind))
      else .ok (width.ofNat (Bytes.littleEndian (payload.take size))) := by
  split
  · rename_i hshort
    rw [width.read?_of_lt hshort]
    rfl
  · rename_i hlong
    rw [width.read?_of_le (Nat.not_lt.mp hlong)]
    rfl

theorem word16_eq (payload : Bytes) :
    word16 payload =
      if payload.length < 2 then .error (.invalidAttribute (.truncated "u16"))
      else .ok (UInt16.ofNat (Bytes.littleEndian (payload.take 2))) :=
  demand_read? Bytes.width16 "u16" payload

theorem word32_eq (payload : Bytes) :
    word32 payload =
      if payload.length < 4 then .error (.invalidAttribute (.truncated "u32"))
      else .ok (UInt32.ofNat (Bytes.littleEndian (payload.take 4))) :=
  demand_read? Bytes.width32 "u32" payload

end Payload

namespace FamilyInfo

/-! The attributes of a reply. -/

def fault? (view : View) : Option Error :=
  if view.type = idAttribute ∧ view.payload.length < 2 then
    some (.invalidAttribute (.truncated "u16"))
  else if view.type = versionAttribute ∧ view.payload.length < 4 then
    some (.invalidAttribute (.truncated "u32"))
  else none

def idIn (view : View) : UInt16 :=
  UInt16.ofNat (Bytes.littleEndian (view.payload.take 2))

def versionIn (view : View) : UInt8 :=
  UInt8.ofNat (Bytes.littleEndian (view.payload.take 4))

/-- What attributes say of a family, none of which may be too short. -/
def described (found : List View) : Except Error FamilyInfo :=
  match found.findSome? fault? with
  | some error => .error error
  | none =>
      match last? idAttribute found with
      | some view => .ok ⟨idIn view, (last? versionAttribute found).elim 0 versionIn⟩
      | none => .error (.invalidMessage .noFamilyId)

def overlay (known : Option UInt16 × UInt8) (view : View) : Option UInt16 × UInt8 :=
  (if view.type = idAttribute then some (idIn view) else known.1,
    if view.type = versionAttribute then versionIn view else known.2)

theorem absorb_eq (known : Option UInt16 × UInt8) (view : View) :
    absorb known view =
      match fault? view with
      | some error => .error error
      | none => .ok (overlay known view) := by
  have hne : idAttribute ≠ versionAttribute := by decide
  unfold absorb fault? overlay
  by_cases hid : view.type = idAttribute
  · have hversion : view.type ≠ versionAttribute := fun htype => hne (hid.symm.trans htype)
    rw [if_pos hid, Payload.word16_eq]
    by_cases hshort : view.payload.length < 2
    · simp only [hid, hshort, and_self, if_true]
      rfl
    · simp only [hid, hshort, hne, and_false, false_and, if_true, if_false]
      rfl
  · rw [if_neg hid]
    by_cases hversion : view.type = versionAttribute
    · rw [if_pos hversion, Payload.word32_eq]
      by_cases hshort : view.payload.length < 4
      · simp only [hversion, hshort, hne.symm, false_and, and_self, if_true, if_false]
        rfl
      · simp only [hversion, hshort, hne.symm, and_false, false_and, if_true, if_false]
        exact congrArg (fun version => Except.ok (known.1, version)) (UInt32.toUInt8_ofNat' _)
    · simp only [hid, hversion, false_and, if_false]
      rfl

theorem foldlM_absorb (known : Option UInt16 × UInt8) (found : List View) :
    found.foldlM absorb known =
      match found.findSome? fault? with
      | some error => .error error
      | none => .ok (found.foldl overlay known) := by
  induction found generalizing known with
  | nil => rfl
  | cons view found ih =>
      rw [List.foldlM_cons, absorb_eq, List.findSome?_cons, List.foldl_cons]
      cases fault? view with
      | some error => rfl
      | none => exact ih _

theorem ofAttributes_eq (data : Bytes) : ofAttributes data = described (views data) := by
  have hid := @part_foldl _ _ overlay Prod.fst idAttribute (some ∘ idIn) (fun _ _ => rfl)
    (none, 0) (views data)
  have hversion := @part_foldl _ _ overlay Prod.snd versionAttribute versionIn (fun _ _ => rfl)
    (none, 0) (views data)
  rw [ofAttributes, foldlM_absorb, described]
  cases (views data).findSome? fault? with
  | some error => rfl
  | none =>
      generalize (views data).foldl overlay (none, 0) = known at hid hversion
      obtain ⟨id, version⟩ := known
      dsimp only at hid hversion
      subst hid hversion
      cases last? idAttribute (views data) <;> rfl

/-! The messages of a lookup. -/

/-- The message decides what the request with this number finds: it answers it, and it is neither
the end of a dump nor an acknowledgement. -/
def decides (number : UInt32) (message : Message) : Bool :=
  message.header.sequence = number ∧ message.header.type ≠ MessageType.done ∧
    ¬ (message.header.type = MessageType.verdict ∧ 20 ≤ message.payload.length ∧
      Verdict.statusOf message.payload = 0)

/-- What is found when the message decides. -/
def answer (name : String) (message : Message) : Except Error FamilyInfo :=
  if message.header.type = MessageType.verdict then
    if message.payload.length < 20 then .error (.truncated 20 message.payload.length)
    else if Verdict.statusOf message.payload = -Errno.noEntry then .error (.familyNotFound name)
    else .error (.kernel (min (Verdict.statusOf message.payload).natAbs 0x7FFFFFFF))
  else if message.payload.length < 4 then .error (.invalidMessage .shortFamilyHeader)
  else described (views (message.payload.drop 4))

variable {name : String} {number : UInt32} {message : Message}

theorem attributes_of_reply (payload : Bytes) :
    (CommandHeader.take? payload).map (·.2) =
      if payload.length < 4 then none else some (payload.drop 4) := by
  match payload with
  | [] | [_] => rfl
  | [_, _] | [_, _, _] => rfl
  | command :: version :: low :: high :: rest => rfl

theorem listener_of_refusal (htype : message.header.type = MessageType.verdict)
    (hrefuses : ¬ (20 ≤ message.payload.length ∧ Verdict.statusOf message.payload = 0)) :
    listener name () message = (answer name message).map .done := by
  rw [listener_of_isVerdict name (decide_eq_true htype), answer, if_pos htype, Verdict.refusal?]
  by_cases hshort : message.payload.length < 20
  · rw [if_pos hshort, if_pos hshort]
    exact if_neg fun hmissing => Nat.not_le.mpr hshort hmissing.1
  · have hlong : 20 ≤ message.payload.length := Nat.not_lt.mp hshort
    have hstatus : Verdict.statusOf message.payload ≠ 0 := fun hzero => hrefuses ⟨hlong, hzero⟩
    rw [if_neg hshort, if_neg hstatus, if_neg hshort]
    dsimp only
    by_cases hmissing : Verdict.statusOf message.payload = -Errno.noEntry
    · rw [if_pos ⟨hlong, hmissing⟩, if_pos hmissing]
      rfl
    · rw [if_neg fun hboth => hmissing hboth.2, if_neg hmissing]
      rfl

theorem listener_of_reply (hverdict : message.header.type ≠ MessageType.verdict)
    (hdone : message.header.type ≠ MessageType.done) :
    listener name () message = (answer name message).map .done := by
  have hreply : message.header.isVerdict = false := decide_eq_false hverdict
  have hends : message.header.isDone = false := decide_eq_false hdone
  have hattributes := attributes_of_reply message.payload
  simp only [listener, hreply, hends, Bool.false_eq_true, if_false, answer, if_neg hverdict]
  split at hattributes
  · rename_i hshort
    rw [Option.map_eq_none_iff.mp hattributes, if_pos hshort]
    rfl
  · rename_i hlong
    obtain ⟨⟨header, attributes⟩, htake, rfl⟩ := Option.map_eq_some_iff.mp hattributes
    rw [htake, if_neg hlong, ← ofAttributes_eq]
    dsimp only
    cases ofAttributes (message.payload.drop 4) <;> rfl

theorem hear_of_decides (h : decides number message = true) (rest : List (Except Error Message)) :
    (listener name).hear number () (.ok message :: rest) = (answer name message).map .done := by
  obtain ⟨hnumber, hdone, haccepts⟩ := of_decide_eq_true h
  have hlistener : listener name () message = (answer name message).map .done := by
    by_cases htype : message.header.type = MessageType.verdict
    · exact listener_of_refusal htype fun haccepted => haccepts ⟨htype, haccepted⟩
    · exact listener_of_reply htype hdone
  rw [Listener.hear, if_pos hnumber, hlistener]
  cases answer name message <;> rfl

theorem hear_of_not_decides (h : ¬ decides number message = true)
    (rest : List (Except Error Message)) :
    (listener name).hear number () (.ok message :: rest) =
      (listener name).hear number () rest := by
  rw [Listener.hear]
  by_cases hnumber : message.header.sequence = number
  · have hlistener : listener name () message = .ok (.more ()) := by
      by_cases hdone : message.header.type = MessageType.done
      · have hends : message.header.isDone = true := decide_eq_true hdone
        rw [listener, if_pos hends]
        rfl
      · obtain ⟨htype, haccepted⟩ := Decidable.not_not.mp fun haccepts =>
          h (decide_eq_true ⟨hnumber, hdone, haccepts⟩)
        rw [listener_of_isVerdict name (decide_eq_true htype),
          (Verdict.refusal?_eq_none_iff message.payload).mpr haccepted]
    rw [if_pos hnumber, hlistener]
  · rw [if_neg hnumber]

/-- The first message that decides ends the listening, whatever stands before it. -/
theorem hear_eq_find? (messages : List Message) (error : Error)
    (back : List (Except Error Message)) :
    (listener name).hear number () (messages.map .ok ++ .error error :: back) =
      (((messages.find? (decides number)).elim (.error error) (answer name)).map .done) := by
  induction messages with
  | nil => rfl
  | cons message messages ih =>
      rw [List.map_cons, List.cons_append]
      by_cases hdecides : decides number message = true
      · rw [hear_of_decides hdecides, List.find?_cons_of_pos hdecides, Option.elim_some]
      · rw [hear_of_not_decides hdecides, List.find?_cons_of_neg hdecides, ih]

end FamilyInfo

namespace Socket

open Arrival

variable {name : String} {socket : Socket}

theorem finish_lookup (hname : name.utf8ByteSize ≤ 65530) :
    (socket.stamped (FamilyInfo.request name)).finish =
      .ok ((Request.lookup name).bytes socket.sequence socket.port) := by
  have hfits : Fits (.text FamilyInfo.nameAttribute name) := (fits_text_iff _ _).mpr hname
  have hencode := length_encode_le_of_fits hfits
  have hsize : (Request.lookup name).draft.size ≤ 16 + 4 + (attributeLimit + 1) := by
    rw [Request.draft, Draft.size_ofRecord _ _ (Request.length_record_mod_four _), Request.record,
      CommandHeader.length_bytes, Request.attributes, encodeAll, encodeAll, List.append_nil]
    exact Nat.add_le_add_left hencode _
  exact @Request.finish_eq_bytes (.lookup name) ⟨hfits, trivial⟩
    (Nat.lt_of_le_of_lt hsize (by decide)) socket.sequence socket.port

/-- The messages that decide what the request with this number finds, in order. -/
def telling (number : UInt32) (datagrams : List Datagram) : List Message :=
  (datagrams.flatMap Datagram.messages).filter (FamilyInfo.decides number)

theorem run_resolve_eq {datagrams : List Datagram} {errno : Int} {rest : List Arrival}
    (hname : name.utf8ByteSize ≤ 65530) (hsend : socket.sends.headD 0 = 0)
    (hsize : ∀ datagram ∈ datagrams, datagram.bytes.length ≤ socket.bufferSize)
    (hsupplied : Supplied
      (socket.arrivals ++ socket.answer ((Request.lookup name).bytes socket.sequence socket.port))
      (datagrams.map Datagram.arrival ++ [.failure errno]) rest) :
    ((resolve name).run socket).1 =
      (telling socket.sequence datagrams).head?.elim (.error (.io errno))
        (FamilyInfo.answer name) := by
  have hheard :=
    hear_incoming_of_ask (FamilyInfo.listener name) () socket (finish_lookup hname) hsend
  obtain ⟨back, hstream⟩ := hsupplied.stream_eq socket.bufferSize
  have hfront : stream socket.bufferSize (datagrams.map Datagram.arrival ++ [.failure errno]) =
      (datagrams.flatMap Datagram.messages).map .ok ++ [.error (.io errno)] := by
    rw [stream, List.flatMap_append]
    exact congrArg (· ++ _) (Datagram.stream_arrivals hsize)
  rw [incoming, hstream, hfront, List.append_assoc, List.singleton_append,
    FamilyInfo.hear_eq_find?, ← List.head?_filter] at hheard
  exact (Progress.map_done_inj hheard).symm

theorem run_resolve_offered_eq {datagrams : List Datagram} (hname : name.utf8ByteSize ≤ 65530)
    (hsend : socket.sends.headD 0 = 0)
    (hsize : ∀ datagram ∈ datagrams, datagram.bytes.length ≤ socket.bufferSize) :
    ((resolve name).run (socket.offered (datagrams.map Datagram.bytes))).1 =
      (telling socket.sequence datagrams).head?.elim (.error (.io Errno.wouldBlock))
        (FamilyInfo.answer name) := by
  have hqueue : (socket.offered (datagrams.map Datagram.bytes)).arrivals =
      datagrams.map Datagram.arrival := List.map_map
  have hsupplied : Supplied
      ((socket.offered (datagrams.map Datagram.bytes)).arrivals ++ [])
      (datagrams.map Datagram.arrival ++ [.failure Errno.wouldBlock]) [] := by
    rw [List.append_nil, hqueue]
    exact .exhausted _
  exact @run_resolve_eq name (socket.offered (datagrams.map Datagram.bytes)) datagrams
    Errno.wouldBlock [] hname hsend hsize hsupplied

/-- The first of the messages that decide is all that counts, wherever the datagrams have it and
whatever stands around it; if there is none, the receive that fails decides. -/
theorem resolve_follows_first_telling (hname : name.utf8ByteSize ≤ 65530)
    (hsend : socket.sends.headD 0 = 0) :
    let frame := (Request.lookup name).bytes socket.sequence socket.port
    (socket.stamped (FamilyInfo.request name)).finish = .ok frame ∧
    (∀ (datagrams : List Datagram) (errno : Int) (rest : List Arrival),
      (∀ datagram ∈ datagrams, datagram.bytes.length ≤ socket.bufferSize) →
      Supplied (socket.arrivals ++ socket.answer frame)
        (datagrams.map Datagram.arrival ++ [.failure errno]) rest →
        (telling socket.sequence datagrams = [] →
          ((resolve name).run socket).1 = .error (.io errno)) ∧
        ∀ message later, telling socket.sequence datagrams = message :: later →
          ((resolve name).run socket).1 = FamilyInfo.answer name message) ∧
    ∀ left right : List Datagram,
      (∀ datagram ∈ left ++ right, datagram.bytes.length ≤ socket.bufferSize) →
      (telling socket.sequence left).head? = (telling socket.sequence right).head? →
        ((resolve name).run (socket.offered (left.map Datagram.bytes))).1 =
          ((resolve name).run (socket.offered (right.map Datagram.bytes))).1 := by
  refine ⟨finish_lookup hname, fun datagrams errno rest hsize hsupplied => ?_,
    fun left right hsize hfirst => ?_⟩
  · rw [run_resolve_eq hname hsend hsize hsupplied]
    refine ⟨fun htelling => ?_, fun message later htelling => ?_⟩
    · rw [htelling, List.head?_nil, Option.elim_none]
    · rw [htelling, List.head?_cons, Option.elim_some]
  · obtain ⟨hleft, hright⟩ := List.forall_mem_append.mp hsize
    rw [run_resolve_offered_eq hname hsend hleft, run_resolve_offered_eq hname hsend hright, hfirst]

theorem resolve_follows_first_telling_past_acknowledgement :
    let stale : Message := ⟨⟨20, 16, 0, 9, 0⟩, [1, 2, 0, 0]⟩
    let acknowledged : Message := ⟨⟨36, 2, 0, 1, 0⟩, List.replicate 20 0⟩
    let reply : Message :=
      ⟨⟨36, 16, 0, 1, 0⟩, [1, 2, 0, 0, 6, 0, 1, 0, 26, 0, 0, 0, 8, 0, 3, 0, 1, 0, 0, 0]⟩
    let apart : List Datagram :=
      [.pack [stale, acknowledged] (by decide), .pack [reply] (by decide)]
    let together : List Datagram := [.pack [reply, acknowledged] (by decide)]
    let socket := ({ port := 7 } : Socket).offered (apart.map Datagram.bytes)
    "wg".utf8ByteSize ≤ 65530 ∧ socket.sends.headD 0 = 0 ∧
      (∀ datagram ∈ apart ++ together, datagram.bytes.length ≤ socket.bufferSize) ∧
      telling 1 apart = [reply] ∧ telling 1 together = [reply] ∧
      ((resolve "wg").run socket).1 = .ok ⟨26, 1⟩ ∧
      ((resolve "wg").run (socket.offered (together.map Datagram.bytes))).1 = .ok ⟨26, 1⟩ := by
  intro stale acknowledged reply apart together socket
  have hname : "wg".utf8ByteSize ≤ 65530 := by decide
  have hsize : ∀ datagram ∈ apart ++ together, datagram.bytes.length ≤ socket.bufferSize := by
    decide +kernel
  have hapart : telling 1 apart = [reply] := by decide +kernel
  have htogether : telling 1 together = [reply] := by decide +kernel
  have hanswer : FamilyInfo.answer "wg" reply = .ok ⟨26, 1⟩ := by decide +kernel
  obtain ⟨-, hfirst, hpackings⟩ := @resolve_follows_first_telling "wg" socket hname rfl
  have hfits : ∀ datagram ∈ apart, datagram.bytes.length ≤ socket.bufferSize :=
    fun datagram hmem => hsize datagram (List.mem_append_left _ hmem)
  have hresult := (hfirst apart Errno.wouldBlock [] hfits (.exhausted _)).2 reply [] hapart
  have hsame := hpackings apart together hsize
    ((congrArg List.head? hapart).trans (congrArg List.head? htogether).symm)
  exact ⟨hname, rfl, hsize, hapart, htogether, hresult.trans hanswer,
    hsame.symm.trans (hresult.trans hanswer)⟩

/-- What is said is narrowed: a refusal of `-2^31` to the largest positive number, a version of 257
to its low byte. An attribute that is too short is an error even when a later one of its type is
whole. -/
theorem resolve_narrows_what_is_said :
    let refusal : Message := ⟨⟨36, 2, 0, 1, 0⟩, [0, 0, 0, 0x80] ++ List.replicate 16 0⟩
    let wide : Message :=
      ⟨⟨36, 16, 0, 1, 0⟩, [1, 2, 0, 0, 6, 0, 1, 0, 26, 0, 0, 0, 8, 0, 3, 0, 1, 1, 0, 0]⟩
    let overridden : Message :=
      ⟨⟨44, 16, 0, 1, 0⟩, [1, 2, 0, 0, 5, 0, 1, 0, 9, 0, 0, 0, 6, 0, 1, 0, 26, 0, 0, 0,
        8, 0, 3, 0, 1, 0, 0, 0]⟩
    let found (message : Message) : Except Error FamilyInfo :=
      ((resolve "wireguard").run
        { port := 1000, arrivals := [.datagram (Message.packet [message])] }).1
    (Verdict.statusOf refusal.payload = -2147483648 ∧
      found refusal ≠ .error (.kernel 2147483648) ∧
      found refusal = .error (.kernel 2147483647)) ∧
    (views (wide.payload.drop 4) = [⟨1, [26, 0]⟩, ⟨3, [1, 1, 0, 0]⟩] ∧
      Bytes.littleEndian [1, 1, 0, 0] = 257 ∧
      (found wide).map (fun info => (info.id.toNat, info.version.toNat)) ≠ .ok (26, 257) ∧
      found wide = .ok ⟨26, 1⟩) ∧
    (views (overridden.payload.drop 4) = [⟨1, [9]⟩, ⟨1, [26, 0]⟩, ⟨3, [1, 0, 0, 0]⟩] ∧
      found overridden ≠ .ok ⟨26, 1⟩ ∧
      found overridden = .error (.invalidAttribute (.truncated "u16"))) := by
  decide +kernel

end Socket

end Netlink

end TunnelControl
