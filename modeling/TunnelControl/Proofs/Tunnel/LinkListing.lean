import TunnelControl.Proofs.Netlink.CutDatagrams
import TunnelControl.Proofs.Netlink.WrittenAttributes
import TunnelControl.Proofs.Tunnel.LinkReading
import TunnelControl.Proofs.Tunnel.RequestMaking

/-!
The listing of links. The kernel describes each link by a record with attributes in any order, the
kind of the link one level deeper than its name, and the links that carry tunnels are found by it.
-/

namespace TunnelControl

open Netlink Netlink.Attribute

/-! Texts in payloads. -/

def Spells (text : String) (payload : Bytes) : Prop :=
  '\x00' ∉ text.toList ∧
    (payload = Utf8.encode text ∨ ∃ rest, payload = Utf8.encode text ++ 0 :: rest)

theorem Spells.text_eq {text : String} {payload : Bytes} (h : Spells text payload) :
    Payload.text payload = .ok text := by
  obtain ⟨hzero, rfl | ⟨rest, rfl⟩⟩ := h
  · rw [Payload.text, Bytes.untilZero_of_notMem (Utf8.zero_notMem_encode hzero),
      Utf8.decode_encode]
  · rw [Payload.text, Bytes.untilZero_append_zero (Utf8.zero_notMem_encode hzero),
      Utf8.decode_encode]

namespace Link

/-! What a link's record leads to. -/

def payloadsOf (type : UInt16) (items : List Written) : List Bytes :=
  (items.filter (·.view.type = type)).map (·.payload)

theorem payloadsOf_cons_of_eq {type : UInt16} {item : Written} (h : item.view.type = type)
    (items : List Written) :
    payloadsOf type (item :: items) = item.payload :: payloadsOf type items := by
  rw [payloadsOf, List.filter_cons, if_pos (decide_eq_true h)]
  rfl

theorem payloadsOf_cons_of_ne {type : UInt16} {item : Written} (h : item.view.type ≠ type)
    (items : List Written) : payloadsOf type (item :: items) = payloadsOf type items := by
  rw [payloadsOf, List.filter_cons, if_neg fun htype => h (of_decide_eq_true htype)]
  rfl

/-- The text is carried by one attribute of this type, or there is no text and no attribute. -/
def Carries (type : UInt16) (text? : Option String) (items : List Written) : Prop :=
  List.Forall₂ Spells text?.toList (payloadsOf type items)

/-- The payload describes the link: behind its record, attributes in any order name it and may hold
information, and among that the kind. -/
def Describes (link : Link) (payload : Bytes) : Prop :=
  ∃ (header : LinkHeader) (items : List Written) (information : Option (List Written)),
    payload = header.bytes ++ items.flatMap Written.bytes ∧
    header.index.toUInt32 = link.index ∧
    Carries nameAttribute link.name items ∧
    payloadsOf infoAttribute items = (information.map (·.flatMap Written.bytes)).toList ∧
    Carries kindAttribute link.kind (information.getD [])

theorem absorbAll_flatMap_bytes (link : Link) (items : List Written) :
    absorbAll link (items.flatMap Written.bytes) =
      some ((items.map Written.view).foldl absorb link) := by
  rw [absorbAll_eq_some_iff, Written.views_flatMap_bytes]
  exact ⟨row_flatMap_bytes items, rfl⟩

theorem name_foldl_absorb (link : Link) (items : List Written) :
    ((items.map Written.view).foldl absorb link).name =
      (payloadsOf nameAttribute items).foldl
        (fun _ payload => (Payload.text payload).toOption) link.name := by
  induction items generalizing link with
  | nil => rfl
  | cons item items ih =>
      rw [List.map_cons, List.foldl_cons, ih, absorb]
      by_cases hname : item.view.type = nameAttribute
      · rw [if_pos hname, payloadsOf_cons_of_eq hname]
        rfl
      · rw [if_neg hname, payloadsOf_cons_of_ne hname]
        split <;> rfl

theorem kind_foldl_absorb (link : Link) (items : List Written) :
    ((items.map Written.view).foldl absorb link).kind =
      (payloadsOf infoAttribute items).foldl (fun _ payload => kindOf payload) link.kind := by
  induction items generalizing link with
  | nil => rfl
  | cons item items ih =>
      rw [List.map_cons, List.foldl_cons, ih, absorb]
      by_cases hinfo : item.view.type = infoAttribute
      · have hname : ¬ item.view.type = nameAttribute := by
          rw [hinfo]
          decide
        rw [if_neg hname, if_pos hinfo, payloadsOf_cons_of_eq hinfo]
        rfl
      · rw [if_neg hinfo, payloadsOf_cons_of_ne hinfo]
        split <;> rfl

theorem kindOf_flatMap_bytes (items : List Written) :
    kindOf (items.flatMap Written.bytes) =
      (payloadsOf kindAttribute items).head?.bind fun payload =>
        (Payload.text payload).toOption := by
  have hfirst : (items.map Written.view).find? (·.type = kindAttribute) =
      (items.find? (·.view.type = kindAttribute)).map Written.view := List.find?_map ..
  rw [kindOf, Written.views_flatMap_bytes, hfirst, payloadsOf, List.head?_map, List.head?_filter]
  cases items.find? (·.view.type = kindAttribute) <;> rfl

theorem Carries.payloadsOf_eq {type : UInt16} {text? : Option String} {items : List Written}
    (h : Carries type text? items) :
    payloadsOf type items = [] ∧ text? = none ∨
      ∃ payload, payloadsOf type items = [payload] ∧
        text? = (Payload.text payload).toOption := by
  rw [Carries] at h
  cases text? with
  | none =>
      rw [Option.toList_none, List.forall₂_nil_left_iff] at h
      exact .inl ⟨h, rfl⟩
  | some text =>
      rw [Option.toList_some, List.forall₂_cons_left_iff] at h
      obtain ⟨payload, rest, hspells, hrest, hpayloads⟩ := h
      rw [List.forall₂_nil_left_iff.mp hrest] at hpayloads
      exact .inr ⟨payload, hpayloads, by rw [hspells.text_eq]; rfl⟩

theorem Describes.ofPayload_eq {link : Link} {payload : Bytes} (h : link.Describes payload) :
    ofPayload payload = .ok link := by
  obtain ⟨header, items, information, rfl, hindex, hname, hinformation, hkind⟩ := h
  let read : Link := (items.map Written.view).foldl absorb { index := header.index.toUInt32 }
  have hindex' : read.index = link.index := (index_foldl_absorb _ _).trans hindex
  have hname' : read.name = link.name := by
    rw [name_foldl_absorb]
    rcases hname.payloadsOf_eq with ⟨hnone, hlink⟩ | ⟨payload, hpayload, hlink⟩
    · rw [hnone, hlink]
      rfl
    · rw [hpayload, hlink]
      rfl
  have hkind' : read.kind = link.kind := by
    rw [kind_foldl_absorb, hinformation]
    cases information with
    | none =>
        rcases hkind.payloadsOf_eq with ⟨-, hlink⟩ | ⟨payload, hpayload, -⟩
        · exact hlink.symm
        · cases hpayload
    | some inside =>
        have hread := kindOf_flatMap_bytes inside
        rcases hkind.payloadsOf_eq with ⟨hnone, hlink⟩ | ⟨payload, hpayload, hlink⟩
        · rw [Option.getD_some] at hnone
          rw [hnone] at hread
          exact hread.trans hlink.symm
        · rw [Option.getD_some] at hpayload
          rw [hpayload] at hread
          exact hread.trans hlink.symm
  have hlink : read = link := by
    cases link
    cases hindex'
    cases hname'
    cases hkind'
    rfl
  have habsorb := absorbAll_flatMap_bytes { index := header.index.toUInt32 } items
  simp only [ofPayload, LinkHeader.take?_bytes_append, Option.bind_eq_bind, Option.bind_some,
    habsorb]
  exact congrArg Except.ok hlink

theorem isTunnel_iff (link : Link) : link.isTunnel = true ↔ link.kind = some "wireguard" :=
  decide_eq_true_iff

def enumerationFrame (port : UInt32) : Bytes :=
  Netlink.Header.bytes ⟨32, MessageType.getLink, Flag.request ||| Flag.dump, 1, port⟩ ++
    LinkHeader.bytes {}

theorem finish_enumeration {socket : Socket} (hsequence : socket.sequence = 1) :
    (socket.stamped enumeration).finish = .ok (enumerationFrame socket.port) := by
  have hrecord : (LinkHeader.bytes {}).length % 4 = 0 := rfl
  have hnothing : FitsAll [] := trivial
  have hcontents := Draft.contents_ofRecord MessageType.getLink (Flag.request ||| Flag.dump)
    hrecord hnothing
  have hsize := @Draft.size_ofRecord MessageType.getLink (Flag.request ||| Flag.dump)
    (LinkHeader.bytes {}) [] hrecord
  have hoversized := Draft.oversized_ofRecord MessageType.getLink (Flag.request ||| Flag.dump)
    (LinkHeader.bytes {}) []
  have hfinish := Draft.finish_numbered hcontents hoversized (by rw [hsize]; decide)
    socket.sequence socket.port
  rw [hsequence] at hfinish
  rw [Socket.stamped, hsequence]
  exact hfinish

/-- The message describes the link under the number of the first request of a socket. -/
def Announces (link : Link) (message : Message) : Prop :=
  message.header.type = MessageType.newLink ∧ link.Describes message.payload

theorem Announces.type_eq {links : List Link} {messages : List Message}
    (h : List.Forall₂ Announces links messages) :
    ∀ message ∈ messages, message.header.type = MessageType.newLink := by
  induction h with
  | nil => nofun
  | cons hannounces _ ih => exact List.forall_mem_cons.mpr ⟨hannounces.1, ih⟩

end Link

/-! The dump of links. -/

namespace Netlink

namespace Dump

variable {sequence : UInt32}

theorem passes_of_data {message : Message}
    (h : message.header.sequence = sequence →
      message.header.type ≠ MessageType.verdict ∧ message.header.type ≠ MessageType.done) :
    Passes sequence (.ok message) := by
  refine ⟨fun hend => (h hend.1).2 hend.2, ?_⟩
  rw [fault?, if_neg fun hverdict => (h hverdict.1).1 hverdict.2]

theorem filterMap_payload? {front : List Message}
    (h : ∀ message ∈ front, message.header.sequence = sequence →
      message.header.type ≠ MessageType.verdict ∧ message.header.type ≠ MessageType.done) :
    (front.map .ok).filterMap (payload? sequence) =
      (front.filter (·.header.sequence = sequence)).map (·.payload) := by
  induction front with
  | nil => rfl
  | cons message front ih =>
      obtain ⟨hmessage, hfront⟩ := List.forall_mem_cons.mp h
      rw [List.map_cons, List.filterMap_cons, ih hfront, List.filter_cons, payload?]
      by_cases hsequence : message.header.sequence = sequence
      · rw [if_pos ⟨hsequence, hmessage hsequence⟩, if_pos (decide_eq_true hsequence)]
        rfl
      · rw [if_neg fun hdata => hsequence hdata.1,
          if_neg fun htrue => hsequence (of_decide_eq_true htrue)]

theorem collects_data {front : List Message} {final : Message}
    (h : ∀ message ∈ front, message.header.sequence = sequence →
      message.header.type ≠ MessageType.verdict ∧ message.header.type ≠ MessageType.done)
    (hend : IsEnd sequence (.ok final)) (back : List (Except Error Message)) :
    Collects sequence (front.map .ok ++ .ok final :: back)
      ((front.filter (·.header.sequence = sequence)).map (·.payload)) :=
  ⟨front.map .ok, .ok final, back, rfl,
    List.forall_mem_map.mpr fun message hmem => passes_of_data (h message hmem), hend,
    (filterMap_payload? h).symm⟩

end Dump

namespace Socket

theorem incoming_of_packets {socket : Socket} {frame : Bytes} {packets : List (List Message)}
    {rest : List Arrival}
    (harrivals : socket.arrivals ++ socket.answer frame =
      (packets.map Message.packet).map .datagram ++ rest)
    (hframed : ∀ message ∈ packets.flatten, message.Framed)
    (hsize : ∀ messages ∈ packets, (Message.packet messages).length ≤ socket.bufferSize) :
    ∃ later, socket.incoming frame = packets.flatten.map .ok ++ later := by
  refine ⟨Arrival.stream socket.bufferSize rest ++ [.error (.io Errno.wouldBlock)], ?_⟩
  rw [incoming, harrivals, Arrival.stream, List.flatMap_append, ← Arrival.stream, ← Arrival.stream,
    stream_packets hframed hsize, List.append_assoc]

theorem run_tunnelLinks {socket after : Socket} {payloads : List Bytes} {links : List Link}
    (hdump : (dump Link.enumeration).run socket = (.ok payloads, after))
    (hlinks : List.Forall₂ Link.Describes links payloads) :
    tunnelLinks.run socket = (.ok (links.filter Link.isTunnel), after) := by
  have hread : (payloads.mapM fun payload => (liftM (Link.ofPayload payload) : Exchange Link)).run
      after = (.ok links, after) := by
    clear hdump
    induction hlinks with
    | nil => rfl
    | @cons link payload links payloads hlink _ ih =>
        have hfirst := Exchange.run_lift (Link.ofPayload payload) after
        rw [hlink.ofPayload_eq] at hfirst
        rw [List.mapM_cons, hlink.ofPayload_eq, Exchange.run_bind_of_ok hfirst,
          Exchange.run_bind_of_ok ih]
        rfl
  rw [tunnelLinks, Exchange.run_bind_of_ok hdump, Exchange.run_bind_of_ok hread]
  rfl

end Socket

end Netlink

/-! The operation. -/

def Script.Opens (script : Script) : Prop :=
  script.openErrno = 0 ∧ script.bindErrno = 0 ∧ script.addressErrno = 0

theorem Host.run_openSocket_of_opens (protocol : Protocol) (settings : Settings) {host : Host}
    (h : (host.scripts.headD (host.spare protocol)).Opens) :
    (openSocket protocol settings).run host =
      (.ok ((Socket.ofScript (host.scripts.headD (host.spare protocol))).withBuffer
          settings.receiveBuffer.toNat),
        { host with scripts := host.scripts.tail }.note [.opened protocol 0]) := by
  obtain ⟨hopen, hbind, haddress⟩ := h
  rw [openSocket, run_get_bind]
  simp only [Socket.establish, hopen, hbind, haddress]
  rfl

namespace Tunnel

variable {settings : Settings} {host : Host}

theorem names_of_tunnelLinks {socket after : Socket} {middle : Host} {links : List Link}
    (hopen : (Host.openSocket .route settings).run host = (.ok socket, middle))
    (hlinks : Socket.tunnelLinks.run { socket with trace := [], skipped := [] } =
      (.ok links, after)) :
    ((names settings).run host).1 = .ok (links.filterMap Link.name) := by
  have hexchange := MakesOn.run_exchange_of_ok .request hlinks middle
  rw [names, SocketOperation.onNewSocket, Exchange.run_bind_of_ok hopen, MakesOn.run_run',
    StateT.run_bind, Exchange.run_bind_of_ok hexchange]
  rfl

/-- The names of tunnels are those of the links of their kind, in order, when the kernel describes
the links in any messages that fit into the buffer, among messages with other numbers. -/
theorem names_of_announced {script : Script} {links : List Link} {packets : List (List Message)}
    {front back : List Message} {final : Message} {rest : List Arrival}
    (hscript : host.scripts.headD (host.spare .route) = script) (hopens : script.Opens)
    (hsend : script.sends.headD 0 = 0)
    (harrivals : script.arrivals ++ script.answer (Link.enumerationFrame script.port) =
      (packets.map Message.packet).map .datagram ++ rest)
    (hframed : ∀ message ∈ packets.flatten, message.Framed)
    (hsize : ∀ messages ∈ packets,
      (Message.packet messages).length ≤ max settings.receiveBuffer.toNat Socket.leastBuffer)
    (hpackets : packets.flatten = front ++ final :: back)
    (hlinks : List.Forall₂ Link.Announces links (front.filter (·.header.sequence = 1)))
    (hfinal : final.header.sequence = 1 ∧ final.header.type = MessageType.done) :
    ((names settings).run host).1 =
      .ok (links.filterMap fun link => if link.kind = some "wireguard" then link.name else none) := by
  subst hscript
  have hopen := Host.run_openSocket_of_opens .route settings hopens
  let script := host.scripts.headD (host.spare .route)
  let opened := (Socket.ofScript script).withBuffer settings.receiveBuffer.toNat
  let socket := { opened with trace := [], skipped := [] }
  have hframe : (socket.stamped Link.enumeration).finish =
      .ok (Link.enumerationFrame script.port) := Link.finish_enumeration rfl
  obtain ⟨later, hincoming⟩ := @Socket.incoming_of_packets socket _ _ _ harrivals hframed hsize
  have hdata : ∀ message ∈ front, message.header.sequence = 1 →
      message.header.type ≠ MessageType.verdict ∧ message.header.type ≠ MessageType.done := by
    intro message hmem hsequence
    rw [Link.Announces.type_eq hlinks message (List.mem_filter.mpr ⟨hmem, decide_eq_true hsequence⟩)]
    decide
  have hcollects : Dump.Collects 1 (socket.incoming (Link.enumerationFrame script.port))
      ((front.filter (·.header.sequence = 1)).map (·.payload)) := by
    rw [hincoming, hpackets, List.map_append, List.map_cons, List.append_assoc]
    exact Dump.collects_data hdata hfinal _
  obtain ⟨after, hdump⟩ :=
    Exchange.exists_run_of_fst ((Socket.run_dump_eq_ok_iff hframe hsend).mpr hcollects)
  have hdescribed : List.Forall₂ Link.Describes links
      ((front.filter (·.header.sequence = 1)).map (·.payload)) :=
    List.forall₂_map_right_iff.mpr (hlinks.imp fun _ _ hannounces => hannounces.2)
  rw [names_of_tunnelLinks hopen (Socket.run_tunnelLinks hdump hdescribed),
    List.filterMap_filter]
  simp only [Link.isTunnel_iff]

theorem names_of_announced_among_others :
    let kind : Written := ⟨1, Utf8.encode "wireguard" ++ [0], [0, 0], by decide, by decide⟩
    let information : Written := ⟨0x8012, kind.bytes, [], by decide, by decide⟩
    let unit : Written := ⟨4, [220, 5, 0, 0], [], by decide, by decide⟩
    let tunnel : Written := ⟨3, Utf8.encode "wg0" ++ [0], [], by decide, by decide⟩
    let wired : Written := ⟨3, Utf8.encode "eth0" ++ [0], [9, 9, 9], by decide, by decide⟩
    let first : Message := ⟨⟨68, 16, 2, 1, 0⟩,
      LinkHeader.bytes { index := 7 } ++ [unit, tunnel, information].flatMap Written.bytes⟩
    let second : Message := ⟨⟨44, 16, 2, 1, 0⟩,
      LinkHeader.bytes { index := 2 } ++ [wired].flatMap Written.bytes⟩
    let foreign : Message := ⟨⟨20, 3, 2, 9, 0⟩, [0, 0, 0, 0]⟩
    let final : Message := ⟨⟨20, 3, 2, 1, 0⟩, [0, 0, 0, 0]⟩
    let packets := [[foreign, first], [second, final]]
    let script : Script := { answer := fun _ => (packets.map Message.packet).map .datagram }
    let links : List Link := [⟨7, some "wg0", some "wireguard"⟩, ⟨2, some "eth0", none⟩]
    script.Opens ∧ (∀ message ∈ packets.flatten, message.Framed) ∧
      List.Forall₂ Link.Announces links [first, second] ∧
      ((names {}).run { scripts := [script] }).1 = .ok ["wg0"] := by
  intro kind information unit tunnel wired first second foreign final packets script links
  have hopens : script.Opens := ⟨rfl, rfl, rfl⟩
  have hframed : ∀ message ∈ packets.flatten, message.Framed := by decide +kernel
  have hcarries : ∀ (type : UInt16) (text : String) (items : List Written),
      '\x00' ∉ text.toList → Link.payloadsOf type items = [Utf8.encode text ++ [0]] →
        Link.Carries type (some text) items := by
    intro type text items hzero hpayloads
    rw [Link.Carries, hpayloads]
    exact .cons ⟨hzero, .inr ⟨[], rfl⟩⟩ .nil
  have hfirst : Link.Describes ⟨7, some "wg0", some "wireguard"⟩ first.payload :=
    ⟨_, _, some [kind], rfl, rfl, hcarries _ "wg0" _ (by decide) (by decide +kernel),
      by decide +kernel, hcarries _ "wireguard" _ (by decide) (by decide +kernel)⟩
  have hsecond : Link.Describes ⟨2, some "eth0", none⟩ second.payload :=
    ⟨_, _, none, rfl, rfl, hcarries _ "eth0" _ (by decide) (by decide +kernel),
      by decide +kernel, .nil⟩
  have hlinks : List.Forall₂ Link.Announces links [first, second] :=
    .cons ⟨rfl, hfirst⟩ (.cons ⟨rfl, hsecond⟩ .nil)
  have hnames := @names_of_announced {} { scripts := [script] } script links packets
    [foreign, first, second] [] final [] rfl hopens rfl (List.append_nil _).symm hframed
    (by decide +kernel) rfl hlinks ⟨rfl, rfl⟩
  exact ⟨hopens, hframed, hlinks, hnames⟩

end Tunnel

end TunnelControl
