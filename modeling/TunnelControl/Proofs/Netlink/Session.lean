import Mathlib.Data.List.Forall2
import TunnelControl.Proofs.Netlink.Asking
import TunnelControl.Proofs.Netlink.Command

/-!
Sessions: several exchanges in a row on one socket. Each has a number of its own, and what it makes
of the queue depends only on the messages that carry this number. So no exchange takes an answer to
another for its own, whatever the others left in the queue.
-/

namespace TunnelControl

open Netlink

/-! What an exchange takes notice of. -/

namespace Netlink

def concerns (sequence : UInt32) : Except Error Message → Bool
  | .error _ => true
  | .ok message => message.header.sequence = sequence

variable {σ α : Type} {listener : Listener σ α} {sequence : UInt32} {size : Nat}

theorem Listener.hear_filter (state : σ) (items : List (Except Error Message)) :
    listener.hear sequence state (items.filter (concerns sequence)) =
      listener.hear sequence state items := by
  induction items generalizing state with
  | nil => rfl
  | cons item items ih =>
      cases item with
      | error error => rfl
      | ok message =>
          by_cases hown : message.header.sequence = sequence
          · have hkept : concerns sequence (.ok message) = true := decide_eq_true hown
            rw [List.filter_cons_of_pos hkept]
            simp only [hear, if_pos hown, ih]
          · have hpassed : ¬ concerns sequence (.ok message) = true :=
              fun hconcerns => hown (of_decide_eq_true hconcerns)
            rw [List.filter_cons_of_neg hpassed]
            simp only [hear, if_neg hown, ih]

end Netlink

namespace Arrival

/-- The exchange with this number takes the same from both arrivals. -/
def SameFor (size : Nat) (sequence : UInt32) (left right : Arrival) : Prop :=
  (left.items size).filter (concerns sequence) = (right.items size).filter (concerns sequence)

theorem SameFor.refl (size : Nat) (sequence : UInt32) (arrival : Arrival) :
    SameFor size sequence arrival arrival :=
  Eq.refl ((arrival.items size).filter (concerns sequence))

/-- Messages with other numbers come and go freely in a datagram. -/
theorem sameFor_packet {size : Nat} {sequence : UInt32} {left right : List Message}
    (hown : left.filter (·.header.sequence = sequence) = right.filter (·.header.sequence = sequence))
    (hframed : ∀ message ∈ left ++ right, message.Framed)
    (hleft : (Message.packet left).length ≤ size) (hright : (Message.packet right).length ≤ size) :
    SameFor size sequence (.datagram (Message.packet left)) (.datagram (Message.packet right)) := by
  have hfilter : ∀ messages : List Message,
      (messages.map Except.ok).filter (concerns sequence) =
        (messages.filter (·.header.sequence = sequence)).map Except.ok :=
    fun messages => List.filter_map
  obtain ⟨hframedLeft, hframedRight⟩ := List.forall_mem_append.mp hframed
  rw [SameFor, items, items, List.take_of_length_le hleft, List.take_of_length_le hright,
    Message.ofDatagram_packet hframedLeft, Message.ofDatagram_packet hframedRight, hfilter, hfilter,
    hown]

end Arrival

namespace Netlink

namespace Listener

variable {σ α : Type} {listener : Listener σ α} {sequence : UInt32} {size : Nat}

theorem hear_items_congr {left right : Arrival} (h : left.SameFor size sequence right) (state : σ) :
    listener.hear sequence state (right.items size) =
      listener.hear sequence state (left.items size) := by
  rw [← hear_filter, ← hear_filter state (left.items size), ← h]

theorem Hears.congr {state : σ} {heard other : List Arrival} {outcome : Except Error α}
    (hhears : listener.Hears sequence size state heard outcome)
    (hsame : List.Forall₂ (Arrival.SameFor size sequence) heard other) :
    listener.Hears sequence size state other outcome := by
  induction hhears generalizing other with
  | decided h =>
      cases hsame with
      | cons hfirst hrest =>
          cases hrest
          exact .decided ((hear_items_congr hfirst _).trans h)
  | undecided h _ ih =>
      cases hsame with
      | cons hfirst hrest =>
          exact .undecided ((hear_items_congr hfirst _).trans h) (ih hrest)

end Listener

/-! Exchanges that a program may ask for. -/

inductive Call where
  | resolve (name : String)
  | request (draft : Draft) (headed : Header.size ≤ draft.size)
  | dump (draft : Draft) (headed : Header.size ≤ draft.size)

inductive Reply where
  | family (info : FamilyInfo)
  | acknowledged
  | payloads (replies : List Bytes)
deriving DecidableEq, Repr

namespace Call

def run : Call → Exchange Reply
  | resolve name => Reply.family <$> Socket.resolve name
  | request draft _ => (fun _ => Reply.acknowledged) <$> Socket.request draft
  | dump draft _ => Reply.payloads <$> Socket.dump draft

def draft : Call → Draft
  | resolve name => FamilyInfo.request name
  | request draft _ => draft
  | dump draft _ => draft

theorem headed (call : Call) : Header.size ≤ call.draft.size := by
  cases call with
  | resolve name =>
      exact @Draft.size_header_le_ofRecord FamilyInfo.registry (Flag.request ||| Flag.acknowledge)
        FamilyInfo.lookup.bytes [.text FamilyInfo.nameAttribute name]
        (CommandHeader.length_bytes_mod_four _)
  | request draft headed => exact headed
  | dump draft headed => exact headed

private theorem run_map {α β : Type} (f : α → β) (exchange : Exchange α) (socket : Socket) :
    (f <$> exchange).run socket =
      ((exchange.run socket).1.map f, (exchange.run socket).2) := by
  rw [ExceptT.run_map]
  rfl

/-- Every call asks for an answer to its draft; calls differ in how they listen. -/
theorem exists_run_eq_ask (call : Call) :
    ∃ (σ α : Type) (listener : Listener σ α) (state : σ) (wrap : α → Reply), ∀ socket,
      call.run.run socket =
        (((Socket.ask call.draft listener state).run socket).1.map wrap,
          ((Socket.ask call.draft listener state).run socket).2) := by
  cases call with
  | resolve name => exact ⟨_, _, _, _, _, run_map _ _⟩
  | request draft headed =>
      refine ⟨_, _, Socket.acknowledgement, (), fun _ => .acknowledged, fun socket => ?_⟩
      rw [Call.draft, ← Socket.run_request_eq_ask headed]
      exact run_map _ _ socket
  | dump draft headed => exact ⟨_, _, _, _, _, run_map _ _⟩

end Call

/-! Sessions. -/

/-- What is seen of one exchange of a session. -/
structure Turn where
  number : UInt32
  sent : List (Bytes × Int)
  heard : List Arrival
  reply : Except Error Reply
deriving DecidableEq, Repr

def Turn.hearing (turn : Turn) (heard : List Arrival) : Turn :=
  { turn with heard }

theorem flatten_eq_nil_of_forall₂ {related : Turn → Arrival → Arrival → Prop} {turns : List Turn}
    {others : List (List Arrival)}
    (h : List.Forall₂ (fun turn other => List.Forall₂ (related turn) turn.heard other) turns others)
    (hempty : (turns.map Turn.heard).flatten = []) : others.flatten = [] := by
  induction h with
  | nil => rfl
  | cons hfirst _ ih =>
      rw [List.map_cons, List.flatten_cons, List.append_eq_nil_iff] at hempty
      rw [hempty.1] at hfirst
      cases hfirst
      exact ih hempty.2

def frameSent? : Event → Option (Bytes × Int)
  | .sent frame errno => some (frame, errno)
  | _ => none

namespace Call

def turn (call : Call) (socket : Socket) : Turn × Socket :=
  let (reply, after) := call.run.run socket
  ({ number := socket.sequence
     sent := after.trace.filterMap frameSent?
     heard := socket.arrivals.take (socket.arrivals.length - after.arrivals.length)
     reply },
    { after with trace := [] })

end Call

def session : List Call → Socket → List Turn × Socket
  | [], socket => ([], socket)
  | call :: calls, socket =>
      let (turn, socket) := call.turn socket
      let (turns, socket) := session calls socket
      (turn :: turns, socket)

theorem session_cons {call : Call} {socket next : Socket} {turn : Turn}
    (h : call.turn socket = (turn, next)) (calls : List Call) :
    session (call :: calls) socket =
      (turn :: (session calls next).1, (session calls next).2) := by
  rw [session, h]

/-! One exchange of a session. -/

namespace Socket

open Arrival

def behind (socket : Socket) (sends : List Int) (rest : List Arrival) (trace : List Event) :
    Socket :=
  { socket with sequence := socket.sequence + 1, sends, arrivals := rest, trace }

theorem filterMap_frameSent?_receipts (size : Nat) (heard : List Arrival) :
    (heard.map (receipt size)).filterMap frameSent? = [] :=
  filterMap_receipts size (fun _ _ => rfl) heard

variable {σ α : Type} {draft : Draft} {listener : Listener σ α} {state : σ} {socket after : Socket}
  {sent : Option (Bytes × Int)} {heard : List Arrival} {outcome : Except Error α}

theorem Asked.carries_number (h : Asked draft listener state socket sent heard outcome after)
    (hheaded : Header.size ≤ draft.size) :
    ∀ frame errno, (frame, errno) ∈ sent →
      ∃ header rest, Header.take? frame = some (header, rest) ∧
        header.sequence = socket.sequence := by
  have hnumbered : ∀ frame, (socket.stamped draft).finish = .ok frame →
      ∃ header rest, Header.take? frame = some (header, rest) ∧
        header.sequence = socket.sequence := by
    intro frame hframe
    obtain ⟨header, rest, htake, hsequence, -⟩ := Draft.header_of_finish_numbered hheaded hframe
    exact ⟨header, rest, htake, hsequence⟩
  intro frame errno hmem
  cases h with
  | unwritten hfinish => cases hmem
  | unsent hframe hsend =>
      cases hmem
      exact hnumbered _ hframe
  | sent hframe hsend hsupplied hhears =>
      cases hmem
      exact hnumbered _ hframe

/-- An exchange takes some arrivals from the front of the queue. From others that are the same to
it, with something else behind them, it makes the same and takes as many. When it finds the queue
empty, this holds if nothing is behind them either. -/
theorem Asked.exists_taken (h : Asked draft listener state socket sent heard outcome after)
    (hanswer : ∀ frame, socket.answer frame = []) :
    ∃ sends taken rest trace, after = socket.behind sends rest trace ∧
      socket.arrivals = taken ++ rest ∧
      trace.filterMap frameSent? = socket.trace.filterMap frameSent? ++ sent.toList ∧
      ∀ other back, List.Forall₂ (SameFor socket.bufferSize socket.sequence) taken other →
        (rest = [] → back = []) →
        ∃ trace', (ask draft listener state).run { socket with arrivals := other ++ back } =
            (outcome, socket.behind sends back trace') ∧
          trace'.filterMap frameSent? = socket.trace.filterMap frameSent? ++ sent.toList := by
  cases h with
  | unwritten hfinish =>
      refine ⟨socket.sends, [], socket.arrivals, socket.trace, rfl, rfl,
        (List.append_nil _).symm, ?_⟩
      intro other back hsame _
      cases hsame
      exact ⟨socket.trace, Asked.run (.unwritten hfinish), (List.append_nil _).symm⟩
  | @unsent frame hframe hsend =>
      have htrace : (socket.trace ++ [Event.sent frame (socket.sends.headD 0)]).filterMap frameSent? =
          socket.trace.filterMap frameSent? ++ [(frame, socket.sends.headD 0)] :=
        List.filterMap_append
      refine ⟨socket.sends.tail, [], socket.arrivals, _, rfl, rfl, htrace, ?_⟩
      intro other back hsame _
      cases hsame
      exact ⟨_, Asked.run (.unsent hframe hsend), htrace⟩
  | @sent frame heard rest outcome hframe hsend hsupplied hhears =>
      have htrace : ∀ heard : List Arrival,
          (socket.trace ++ [Event.sent frame 0] ++ heard.map (receipt socket.bufferSize)).filterMap
            frameSent? = socket.trace.filterMap frameSent? ++ [(frame, 0)] := by
        intro heard
        rw [List.filterMap_append, List.filterMap_append, filterMap_frameSent?_receipts,
          List.append_nil]
        rfl
      rw [hanswer, List.append_nil] at hsupplied
      have hother : ∀ {other heard' back : List Arrival},
          listener.Hears socket.sequence socket.bufferSize state heard' outcome →
          Supplied (other ++ back) heard' back →
          ∃ trace', (ask draft listener state).run { socket with arrivals := other ++ back } =
              (outcome, socket.behind socket.sends.tail back trace') ∧
            trace'.filterMap frameSent? = socket.trace.filterMap frameSent? ++ [(frame, 0)] := by
        intro other heard' back hhears' hsupplied'
        have hqueued : Supplied ((other ++ back) ++ socket.answer frame) heard' back := by
          rw [hanswer, List.append_nil]
          exact hsupplied'
        exact ⟨_, Asked.run (.sent hframe hsend hqueued hhears'), htrace heard'⟩
      generalize hqueue : socket.arrivals = queue at hsupplied
      cases hsupplied with
      | queued =>
          refine ⟨socket.sends.tail, heard, rest, _, rfl, rfl, htrace heard, ?_⟩
          intro other back hsame _
          exact hother (hhears.congr hsame) (.queued other back)
      | exhausted =>
          refine ⟨socket.sends.tail, queue, [], _, rfl, (List.append_nil queue).symm,
            htrace _, ?_⟩
          intro other back hsame hback
          rw [hback rfl]
          have hend := hhears.congr
            (List.rel_append hsame (.cons (SameFor.refl _ _ (.failure Errno.wouldBlock)) .nil))
          refine hother hend ?_
          rw [List.append_nil]
          exact .exhausted other

end Socket

open Arrival

theorem Call.exists_turn (call : Call) {socket : Socket}
    (hanswer : ∀ frame, socket.answer frame = []) (htrace : socket.trace = []) :
    ∃ turn sends rest, call.turn socket = (turn, socket.behind sends rest []) ∧
      turn.number = socket.sequence ∧
      (∀ frame errno, (frame, errno) ∈ turn.sent →
        ∃ header back, Header.take? frame = some (header, back) ∧
          header.sequence = turn.number) ∧
      socket.arrivals = turn.heard ++ rest ∧
      ∀ other back, List.Forall₂ (SameFor socket.bufferSize turn.number) turn.heard other →
        (rest = [] → back = []) →
        call.turn { socket with arrivals := other ++ back } =
          (turn.hearing other, socket.behind sends back []) := by
  obtain ⟨σ, α, listener, state, wrap, hrun⟩ := call.exists_run_eq_ask
  obtain ⟨sent, heard, outcome, after, hasked⟩ :=
    Socket.exists_asked call.draft listener state socket
  obtain ⟨sends, taken, rest, trace, rfl, harrivals, hsent, hother⟩ :=
    hasked.exists_taken hanswer
  have htaken : ∀ front back : List Arrival,
      (front ++ back).take ((front ++ back).length - back.length) = front := by
    intro front back
    rw [List.length_append, Nat.add_sub_cancel, List.take_left]
  have hturn : ∀ (front back : List Arrival) (trace : List Event),
      (Socket.ask call.draft listener state).run { socket with arrivals := front ++ back } =
        (outcome, socket.behind sends back trace) →
      trace.filterMap frameSent? = socket.trace.filterMap frameSent? ++ sent.toList →
      call.turn { socket with arrivals := front ++ back } =
        (⟨socket.sequence, sent.toList, front, outcome.map wrap⟩, socket.behind sends back []) := by
    intro front back trace hrun' hsent'
    rw [turn, hrun, hrun']
    dsimp only [Socket.behind]
    rw [htaken, hsent', htrace]
    rfl
  have hself : socket = { socket with arrivals := taken ++ rest } := by
    rw [← harrivals]
  refine ⟨⟨socket.sequence, sent.toList, taken, outcome.map wrap⟩, sends, rest, ?_, rfl, ?_,
    harrivals, ?_⟩
  · rw [hself]
    exact hturn taken rest trace (by rw [← hself, hasked.run]) hsent
  · intro frame errno hmem
    exact hasked.carries_number call.headed frame errno (Option.mem_toList.mp hmem)
  · intro other back hsame hback
    obtain ⟨trace', hrun', hsent'⟩ := hother other back hsame hback
    exact hturn other back trace' hrun' hsent'

/-! Whole sessions. -/

section

variable (calls : List Call) {socket : Socket} (hanswer : ∀ frame, socket.answer frame = [])
  (htrace : socket.trace = [])

include hanswer htrace

theorem session_numbers {start : Nat} (hstart : socket.sequence = UInt32.ofNat start) :
    (session calls socket).1.map Turn.number =
      (List.range' start calls.length).map UInt32.ofNat := by
  induction calls generalizing socket start with
  | nil => rfl
  | cons call calls ih =>
      obtain ⟨turn, sends, rest, hturn, hnumber, -⟩ := call.exists_turn hanswer htrace
      have hnext : (socket.behind sends rest []).sequence = UInt32.ofNat (start + 1) := by
        rw [UInt32.ofNat_add, ← hstart]
        rfl
      rw [session_cons hturn, List.map_cons, hnumber, hstart,
        @ih (socket.behind sends rest []) hanswer rfl _ hnext]
      rfl

theorem session_frames :
    ∀ turn ∈ (session calls socket).1, ∀ frame errno, (frame, errno) ∈ turn.sent →
      ∃ header back, Header.take? frame = some (header, back) ∧ header.sequence = turn.number := by
  induction calls generalizing socket with
  | nil => exact nofun
  | cons call calls ih =>
      obtain ⟨turn, sends, rest, hturn, -, hsent, -⟩ := call.exists_turn hanswer htrace
      rw [session_cons hturn]
      exact List.forall_mem_cons.mpr ⟨hsent, @ih (socket.behind sends rest []) hanswer rfl⟩

theorem session_arrivals :
    socket.arrivals = ((session calls socket).1.map Turn.heard).flatten ++
      (session calls socket).2.arrivals := by
  induction calls generalizing socket with
  | nil => rfl
  | cons call calls ih =>
      obtain ⟨turn, sends, rest, hturn, -, -, harrivals, -⟩ := call.exists_turn hanswer htrace
      have hrest := @ih (socket.behind sends rest []) hanswer rfl
      rw [session_cons hturn, harrivals, List.map_cons, List.flatten_cons, List.append_assoc]
      exact congrArg _ hrest

theorem session_congr {others : List (List Arrival)}
    (hsame : List.Forall₂
      (fun turn other => List.Forall₂ (SameFor socket.bufferSize turn.number) turn.heard other)
      (session calls socket).1 others) :
    session calls { socket with arrivals := others.flatten ++ (session calls socket).2.arrivals } =
      (List.zipWith Turn.hearing (session calls socket).1 others, (session calls socket).2) := by
  induction calls generalizing socket others with
  | nil =>
      cases hsame
      rfl
  | cons call calls ih =>
      obtain ⟨turn, sends, rest, hturn, -, -, -, hother⟩ := call.exists_turn hanswer htrace
      have hrest := @session_arrivals calls (socket.behind sends rest []) hanswer rfl
      rw [session_cons hturn] at hsame ⊢
      cases hsame with
      | @cons _ first _ others hfirst hlater =>
          -- An exchange that finds the queue empty leaves nothing for those behind it.
          have hback : rest = [] →
              others.flatten ++ (session calls (socket.behind sends rest [])).2.arrivals = [] := by
            intro hempty
            obtain ⟨hheard, hleft⟩ := List.append_eq_nil_iff.mp (hrest.symm.trans hempty)
            rw [hleft, List.append_nil]
            exact flatten_eq_nil_of_forall₂ hlater hheard
          rw [List.flatten_cons, List.append_assoc, session_cons (hother first _ hfirst hback)]
          have hlaterTurns := @ih (socket.behind sends rest []) hanswer rfl others hlater
          exact congrArg (fun later : List Turn × Socket => (turn.hearing first :: later.1, later.2))
            hlaterTurns

end

/-- An exchange on a new socket has a number of its own, and it neither answers to messages with
other numbers nor receives more or less because of them. -/
theorem session_keeps_to_own_numbers {calls : List Call} {port : UInt32} {size : Nat}
    {sends : List Int} {queue : List Arrival} {turns : List Turn} {after : Socket}
    (hcount : calls.length < UInt32.size)
    (hsession : session calls { port, bufferSize := size, sends, arrivals := queue } =
      (turns, after)) :
    turns.map (·.number.toNat) = List.range' 1 calls.length ∧
      (turns.map Turn.number).Nodup ∧
      (∀ turn ∈ turns, ∀ frame errno, (frame, errno) ∈ turn.sent →
        ∃ header rest, Header.take? frame = some (header, rest) ∧
          header.sequence = turn.number) ∧
      queue = (turns.map Turn.heard).flatten ++ after.arrivals ∧
      ∀ others, List.Forall₂
          (fun turn other => List.Forall₂ (SameFor size turn.number) turn.heard other)
          turns others →
        session calls
            { port, bufferSize := size, sends, arrivals := others.flatten ++ after.arrivals } =
          (List.zipWith Turn.hearing turns others, after) := by
  generalize hsocket :
    ({ port, bufferSize := size, sends, arrivals := queue } : Socket) = socket at hsession
  have hanswer : ∀ frame, socket.answer frame = [] := fun _ => by rw [← hsocket]
  have htrace : socket.trace = [] := by rw [← hsocket]
  have hnumbers := @session_numbers calls socket hanswer htrace 1 (by rw [← hsocket]; rfl)
  have hframes := session_frames calls hanswer htrace
  have harrivals := session_arrivals calls hanswer htrace
  have hothers := @session_congr calls socket hanswer htrace
  rw [hsession] at hnumbers hframes harrivals hothers
  subst hsocket
  have hvalues : turns.map (·.number.toNat) = List.range' 1 calls.length := by
    calc
      turns.map (·.number.toNat) = (turns.map Turn.number).map UInt32.toNat := by
        rw [List.map_map]
        rfl
      _ = (List.range' 1 calls.length).map fun number => (UInt32.ofNat number).toNat := by
        rw [hnumbers, List.map_map]
        rfl
      _ = (List.range' 1 calls.length).map id := by
        refine List.map_congr_left fun number hmem => ?_
        have hbounds := List.mem_range'_1.mp hmem
        rw [UInt32.toNat_ofNat']
        exact Nat.mod_eq_of_lt (show number < UInt32.size by omega)
      _ = List.range' 1 calls.length := List.map_id _
  have hdistinct : ((turns.map Turn.number).map UInt32.toNat).Nodup := by
    rw [List.map_map]
    exact hvalues ▸ List.nodup_range'
  exact ⟨hvalues,
    List.Pairwise.of_map UInt32.toNat
      (fun _ _ hvalue heq => hvalue (congrArg UInt32.toNat heq)) hdistinct,
    hframes, harrivals, fun others hsame => hothers hsame⟩

theorem session_keeps_to_own_numbers_past_leftovers :
    let reply : Message := ⟨⟨28, 16, 0, 1, 0⟩, [1, 1, 0, 0, 6, 0, 1, 0, 28, 0, 0, 0]⟩
    let acknowledged (number : UInt32) : Message := ⟨⟨36, 2, 0, number, 0⟩, List.replicate 20 0⟩
    let refused : Message := ⟨⟨36, 2, 0, 9, 0⟩, List.replicate 20 255⟩
    let datagram (messages : List Message) := Arrival.datagram (Message.packet messages)
    let calls : List Call := [.resolve "wg", .request (.acknowledged 16) (by decide)]
    let queue := [datagram [reply], datagram [acknowledged 1], datagram [acknowledged 2]]
    let others := [[datagram [refused, reply]], [datagram [], datagram [acknowledged 2]]]
    let turns : List Turn :=
      [⟨1, [([28, 0, 0, 0, 16, 0, 5, 0, 1, 0, 0, 0, 7, 0, 0, 0, 3, 1, 0, 0, 7, 0, 2, 0, 119, 103, 0,
          0], 0)], [datagram [reply]], .ok (.family ⟨28, 0⟩)⟩,
        ⟨2, [([16, 0, 0, 0, 16, 0, 5, 0, 2, 0, 0, 0, 7, 0, 0, 0], 0)],
          [datagram [acknowledged 1], datagram [acknowledged 2]], .ok .acknowledged⟩]
    calls.length < UInt32.size ∧
      ∃ after, session calls { port := 7, arrivals := queue } = (turns, after) ∧
        List.Forall₂
          (fun turn other => List.Forall₂ (SameFor 32768 turn.number) turn.heard other)
          turns others ∧
        session calls { port := 7, arrivals := others.flatten } =
          (List.zipWith Turn.hearing turns others, after) := by
  intro reply acknowledged refused datagram calls queue others turns
  have hcount : calls.length < UInt32.size := by decide
  obtain ⟨after, hsession, hleft⟩ : ∃ after,
      session calls { port := 7, arrivals := queue } = (turns, after) ∧ after.arrivals = [] := by
    have hturns : (session calls { port := 7, arrivals := queue }).1 = turns := by
      decide +kernel
    have hleft : (session calls { port := 7, arrivals := queue }).2.arrivals = [] := by
      decide +kernel
    generalize session calls { port := 7, arrivals := queue } = ended at hturns hleft ⊢
    exact ⟨ended.2, Prod.ext hturns rfl, hleft⟩
  have hreply : SameFor 32768 1 (datagram [reply]) (datagram [refused, reply]) :=
    sameFor_packet rfl (by decide +kernel) (by decide +kernel) (by decide +kernel)
  have hleftover : SameFor 32768 2 (datagram [acknowledged 1]) (datagram []) :=
    sameFor_packet rfl (by decide +kernel) (by decide +kernel) (by decide +kernel)
  have hsame : List.Forall₂
      (fun turn other => List.Forall₂ (SameFor 32768 turn.number) turn.heard other)
      turns others :=
    .cons (.cons hreply .nil) (.cons (.cons hleftover (.cons (SameFor.refl _ _ _) .nil)) .nil)
  obtain ⟨-, -, -, -, hothers⟩ := session_keeps_to_own_numbers hcount hsession
  have hrun := hothers others hsame
  rw [hleft, List.append_nil] at hrun
  exact ⟨hcount, after, hsession, hsame, hrun⟩

end Netlink

end TunnelControl
