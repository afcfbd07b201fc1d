import Mathlib.Data.List.SplitBy
import TunnelControl.Device.Reply
import TunnelControl.Proofs.Device.PeerJoining
import TunnelControl.Proofs.Netlink.CutDatagrams

/-!
What replies say about peers. Records in a row under one key make up one peer, across the ends of
lists and of replies: the first gives all but the allowed addresses, which are those of all records.
Nothing is lost, said twice or moved to another key, whatever bytes the replies are.
-/

namespace TunnelControl

open Netlink Netlink.Attribute

/-! Runs of records. -/

namespace Peer

def sameKey (first second : Peer) : Bool :=
  first.publicKey = second.publicKey

/-- The longest parts of a list in which all records have one key. -/
def runs (records : List Peer) : List (List Peer) :=
  records.splitBy sameKey

def ofRun? : List Peer → Option Peer
  | [] => none
  | first :: rest => some { first with allowedIps := (first :: rest).flatMap (·.allowedIps) }

/-- The allowed addresses of a peer, each with the key it belongs to. -/
def keyedIps (peer : Peer) : List (Key × Subnet) :=
  peer.allowedIps.map (peer.publicKey, ·)

theorem joined_sameKey (known : List Peer) (first : Peer) {rest : List Peer}
    (h : ∀ record ∈ rest, first.publicKey = record.publicKey) :
    joined (known ++ [first]) rest =
      known ++ [{ first with allowedIps := first.allowedIps ++ rest.flatMap (·.allowedIps) }] := by
  induction rest generalizing first with
  | nil => rw [List.flatMap_nil, List.append_nil]; rfl
  | cons record rest ih =>
      obtain ⟨hrecord, hrest⟩ := List.forall_mem_cons.mp h
      rw [joined, List.foldl_cons, join_append_singleton, if_pos hrecord, List.flatMap_cons,
        ← List.append_assoc]
      exact ih _ hrest

theorem publicKey_eq_of_chain {first : Peer} {rest : List Peer}
    (h : (first :: rest).IsChain fun before after => sameKey before after) :
    ∀ record ∈ rest, first.publicKey = record.publicKey := by
  induction rest generalizing first with
  | nil => exact nofun
  | cons second rest ih =>
      obtain ⟨hsecond, hrest⟩ := List.isChain_cons_cons.mp h
      have hkey : first.publicKey = second.publicKey := of_decide_eq_true hsecond
      refine List.forall_mem_cons.mpr ⟨hkey, fun record hmem => ?_⟩
      exact hkey.trans (ih hrest record hmem)

theorem publicKey_getLast {first : Peer} {rest : List Peer}
    (h : ∀ record ∈ rest, first.publicKey = record.publicKey) (hne : first :: rest ≠ []) :
    ((first :: rest).getLast hne).publicKey = first.publicKey := by
  rcases List.mem_cons.mp (List.getLast_mem hne) with hfirst | hrest
  · rw [hfirst]
  · exact (h _ hrest).symm

theorem join_of_ne {known : List Peer} {record : Peer}
    (h : ∀ last ∈ known.getLast?, last.publicKey ≠ record.publicKey) :
    join known record = known ++ [record] := by
  rcases List.eq_nil_or_concat known with rfl | ⟨before, last, rfl⟩
  · rfl
  · rw [List.concat_eq_append] at h ⊢
    rw [join_append_singleton, if_neg (h last List.getLast?_concat), List.append_assoc]
    rfl

theorem head?_ne_of_meet {first : Peer} {rest : List Peer} {runs : List (List Peer)}
    (hkeys : ∀ record ∈ rest, first.publicKey = record.publicKey) (hnil : [] ∉ runs)
    (hmeet : ((first :: rest) :: runs).IsChain fun before after =>
      ∃ hbefore hafter, sameKey (before.getLast hbefore) (after.head hafter) = false) :
    ∀ record ∈ runs.flatten.head?, first.publicKey ≠ record.publicKey := by
  intro record hrecord
  cases runs with
  | nil => cases hrecord
  | cons next runs =>
      cases next with
      | nil => exact absurd List.mem_cons_self hnil
      | cons head tail =>
          cases hrecord
          obtain ⟨⟨hbefore, hafter, hother⟩, -⟩ := List.isChain_cons_cons.mp hmeet
          rw [sameKey, publicKey_getLast hkeys] at hother
          exact of_decide_eq_false hother

theorem joined_flatten {runs : List (List Peer)} (hnil : [] ∉ runs)
    (hrun : ∀ run ∈ runs, run.IsChain fun before after => sameKey before after)
    (hmeet : runs.IsChain fun before after =>
      ∃ hbefore hafter, sameKey (before.getLast hbefore) (after.head hafter) = false)
    (known : List Peer)
    (hknown : ∀ last ∈ known.getLast?, ∀ record ∈ runs.flatten.head?,
      last.publicKey ≠ record.publicKey) :
    ∃ peers, joined known runs.flatten = known ++ peers ∧ runs.map ofRun? = peers.map some := by
  induction runs generalizing known with
  | nil => exact ⟨[], (List.append_nil known).symm, rfl⟩
  | cons run runs ih =>
      obtain ⟨hempty, hnils⟩ := not_or.mp fun h => hnil (List.mem_cons.mpr h)
      obtain ⟨hfirst, hruns⟩ := List.forall_mem_cons.mp hrun
      cases run with
      | nil => exact absurd rfl hempty
      | cons first rest =>
          have hkeys := publicKey_eq_of_chain hfirst
          let whole : Peer :=
            { first with allowedIps := first.allowedIps ++ rest.flatMap (·.allowedIps) }
          have hwhole : joined known (first :: rest) = known ++ [whole] := by
            rw [joined, List.foldl_cons, join_of_ne fun last hlast =>
              hknown last hlast first rfl]
            exact joined_sameKey known first hkeys
          have hnext : ∀ last ∈ (known ++ [whole]).getLast?, ∀ record ∈ runs.flatten.head?,
              last.publicKey ≠ record.publicKey := by
            intro last hlast record hrecord
            rw [List.getLast?_concat] at hlast
            cases hlast
            have hkey : first.publicKey ≠ record.publicKey :=
              head?_ne_of_meet hkeys hnils hmeet record hrecord
            exact hkey
          obtain ⟨peers, hpeers, hmade⟩ := ih hnils hruns hmeet.tail (known ++ [whole]) hnext
          refine ⟨whole :: peers, ?_, ?_⟩
          · rw [List.flatten_cons, joined_append, hwhole, hpeers, List.append_assoc]
            rfl
          · rw [List.map_cons, hmade, List.map_cons, ofRun?, List.flatMap_cons]

/-- Every run of records makes up one of the peers, in order. -/
theorem map_ofRun?_runs (records : List Peer) :
    (runs records).map ofRun? = (joined [] records).map some := by
  obtain ⟨peers, hpeers, hmade⟩ := joined_flatten (List.nil_notMem_splitBy sameKey records)
    (fun run hrun => List.isChain_of_mem_splitBy hrun)
    (List.isChain_getLast_head_splitBy sameKey records) [] nofun
  rw [List.flatten_splitBy] at hpeers
  rw [hpeers]
  exact hmade

/-! Joining keeps neighbours apart and leaves every allowed address with its key. -/

theorem Apart.join {peers : List Peer} (h : Apart peers) (record : Peer) :
    Apart (join peers record) := by
  rcases List.eq_nil_or_concat peers with rfl | ⟨before, last, rfl⟩
  · exact List.isChain_singleton record
  · rw [List.concat_eq_append] at h ⊢
    rw [join_append_singleton]
    by_cases hkey : last.publicKey = record.publicKey
    · rw [if_pos hkey]
      exact List.isChain_append.mpr ⟨h.left_of_append, List.isChain_singleton _,
        fun first hfirst second hsecond => by
          cases hsecond
          exact (List.isChain_append.mp h).2.2 first hfirst last rfl⟩
    · rw [if_neg hkey]
      exact List.isChain_append_cons_cons.mpr ⟨h, hkey, List.isChain_singleton record⟩

theorem apart_joined {peers : List Peer} (h : Apart peers) (records : List Peer) :
    Apart (joined peers records) := by
  induction records generalizing peers with
  | nil => exact h
  | cons record records ih => exact ih (h.join record)

theorem keyedIps_join (peers : List Peer) (record : Peer) :
    (join peers record).flatMap keyedIps = peers.flatMap keyedIps ++ record.keyedIps := by
  rcases List.eq_nil_or_concat peers with rfl | ⟨before, last, rfl⟩
  · rw [join, List.flatMap_singleton]
    rfl
  · rw [List.concat_eq_append, join_append_singleton]
    by_cases hkey : last.publicKey = record.publicKey
    · rw [if_pos hkey]
      simp only [List.flatMap_append, List.flatMap_singleton, keyedIps, List.map_append, hkey,
        List.append_assoc]
    · rw [if_neg hkey]
      simp only [List.flatMap_append, List.flatMap_cons, List.flatMap_nil, List.append_nil,
        List.append_assoc]

theorem keyedIps_joined (peers records : List Peer) :
    (joined peers records).flatMap keyedIps =
      peers.flatMap keyedIps ++ records.flatMap keyedIps := by
  induction records generalizing peers with
  | nil => exact (List.append_nil _).symm
  | cons record records ih =>
      rw [joined, List.foldl_cons, ← joined, ih, keyedIps_join, List.flatMap_cons,
        List.append_assoc]

end Peer

/-! Records in replies. -/

def Netlink.Attribute.View.peerEntries (view : View) : List View :=
  if view.type = DeviceAttribute.peers then views view.payload else []

theorem Netlink.Error.exists_of_bind_eq_ok {α β : Type} {first : Except Error α}
    {next : α → Except Error β} {result : β} (h : first >>= next = .ok result) :
    ∃ value, first = .ok value ∧ next value = .ok result := by
  cases first with
  | error error => cases h
  | ok value => exact ⟨value, rfl, h⟩

namespace Snapshot

/-- The elements of all lists of peers in replies, in order. A reply without room for the command's
record has none. -/
def peerEntries (replies : List Bytes) : List View :=
  (replies.filter (CommandHeader.size ≤ ·.length)).flatMap fun reply =>
    (views (reply.drop CommandHeader.size)).flatMap View.peerEntries

def readEntries (entries : List View) : Except Error (List Peer) :=
  entries.mapM fun entry => Peer.ofAttributes entry.payload

theorem readEntries_append {front back : List View} {first second : List Peer}
    (hfront : readEntries front = .ok first) (hback : readEntries back = .ok second) :
    readEntries (front ++ back) = .ok (first ++ second) := by
  rw [readEntries] at hfront hback
  rw [readEntries, List.mapM_append, hfront, hback]
  rfl

/-- The next snapshot has the peers of the records in these elements besides. -/
def Joins (snapshot : Snapshot) (entries : List View) (next : Snapshot) : Prop :=
  ∃ records, readEntries entries = .ok records ∧ next.peers = Peer.joined snapshot.peers records

theorem Joins.append {first second third : Snapshot} {front back : List View}
    (hfront : first.Joins front second) (hback : second.Joins back third) :
    first.Joins (front ++ back) third := by
  obtain ⟨records, hrecords, hsecond⟩ := hfront
  obtain ⟨more, hmore, hthird⟩ := hback
  refine ⟨records ++ more, readEntries_append hrecords hmore, ?_⟩
  rw [hthird, hsecond, Peer.joined_append]

theorem joins_nil {snapshot next : Snapshot} (h : next.peers = snapshot.peers) :
    snapshot.Joins [] next :=
  ⟨[], rfl, h⟩

theorem peers_absorb {snapshot next : Snapshot} {view : View}
    (h : snapshot.absorb view = .ok next) (hother : view.type ≠ DeviceAttribute.peers) :
    next.peers = snapshot.peers := by
  rw [absorb, if_neg hother] at h
  iterate 5
    split at h
    · obtain ⟨_, -, hnext⟩ := Error.exists_of_bind_eq_ok h
      cases hnext
      rfl
  cases h
  rfl

theorem absorb_peers {snapshot : Snapshot} {view : View} (h : view.type = DeviceAttribute.peers) :
    snapshot.absorb view = (readEntries (views view.payload)).map fun records =>
      { snapshot with peers := Peer.joined snapshot.peers records } := by
  rw [absorb, h]
  rfl

theorem joins_of_absorb {snapshot next : Snapshot} {view : View}
    (h : snapshot.absorb view = .ok next) : snapshot.Joins view.peerEntries next := by
  rw [View.peerEntries]
  by_cases hpeers : view.type = DeviceAttribute.peers
  · rw [if_pos hpeers]
    rw [absorb_peers hpeers] at h
    obtain ⟨records, hrecords, hnext⟩ := Error.exists_of_bind_eq_ok h
    cases hnext
    exact ⟨records, hrecords, rfl⟩
  · rw [if_neg hpeers]
    exact joins_nil (peers_absorb h hpeers)

theorem joins_foldlM {α : Type} {absorb : Snapshot → α → Except Error Snapshot}
    {entries : α → List View}
    (habsorb : ∀ snapshot item next, absorb snapshot item = .ok next →
      snapshot.Joins (entries item) next)
    {items : List α} {snapshot next : Snapshot} (h : items.foldlM absorb snapshot = .ok next) :
    snapshot.Joins (items.flatMap entries) next := by
  induction items generalizing snapshot with
  | nil =>
      cases h
      exact joins_nil rfl
  | cons item items ih =>
      rw [List.foldlM_cons] at h
      obtain ⟨middle, hitem, hitems⟩ := Error.exists_of_bind_eq_ok h
      exact (habsorb snapshot item middle hitem).append (ih hitems)

def replyEntries (reply : Bytes) : List View :=
  (views (reply.drop CommandHeader.size)).flatMap View.peerEntries

theorem replyEntries_of_short {reply : Bytes} (h : reply.length < CommandHeader.size) :
    replyEntries reply = [] := by
  rw [replyEntries, List.drop_eq_nil_of_le (Nat.le_of_lt h), views_nil, List.flatMap_nil]

theorem peerEntries_eq_flatMap (replies : List Bytes) :
    peerEntries replies = replies.flatMap replyEntries := by
  induction replies with
  | nil => rfl
  | cons reply replies ih =>
      rw [List.flatMap_cons, ← ih, peerEntries, List.filter_cons]
      split
      · rfl
      · rename_i hshort
        have hlength : reply.length < CommandHeader.size :=
          Nat.lt_of_not_le fun hle => hshort (decide_eq_true hle)
        rw [replyEntries_of_short hlength, List.nil_append, peerEntries]

theorem joins_of_absorbReply {snapshot next : Snapshot} {reply : Bytes}
    (h : snapshot.absorbReply reply = .ok next) : snapshot.Joins (replyEntries reply) next := by
  rw [absorbReply] at h
  split at h
  · rename_i header attributes hcut
    obtain ⟨rfl, hlength⟩ := Bytes.eq_append_of_cut? hcut
    rw [replyEntries, List.drop_left' hlength]
    exact @joins_foldlM _ _ View.peerEntries (fun _ _ _ => joins_of_absorb) _ _ _ h
  · rename_i hcut
    cases h
    rw [replyEntries_of_short ((Bytes.cut?_eq_none_iff _ _).mp hcut)]
    exact joins_nil rfl

/-- The peers that are read from replies are the runs of the records in them. Neighbours have
different keys, and the allowed addresses with their keys are those of the records, in order. -/
theorem peers_of_runs {replies : List Bytes} {snapshot : Snapshot}
    (h : ofReplies replies = .ok snapshot) :
    ∃ records, readEntries (peerEntries replies) = .ok records ∧
      snapshot.peers.map some = (Peer.runs records).map Peer.ofRun? ∧
      Peer.Apart snapshot.peers ∧
      snapshot.peers.flatMap Peer.keyedIps = records.flatMap Peer.keyedIps := by
  obtain ⟨records, hrecords, hpeers⟩ :=
    @joins_foldlM _ _ replyEntries (fun _ _ _ => joins_of_absorbReply) _ _ _ h
  rw [peerEntries_eq_flatMap]
  refine ⟨records, hrecords, ?_, ?_, ?_⟩
  · rw [hpeers, Peer.map_ofRun?_runs]
  · rw [hpeers]
    exact Peer.apart_joined List.isChain_nil records
  · rw [hpeers]
    exact Peer.keyedIps_joined [] records

/-- Two records under one key, the second of them behind an empty reply and a short one, and a
record without a key. -/
theorem peers_of_runs_across_replies :
    let range (last : UInt8) : Bytes :=
      frame PeerAttribute.allowedIps (frame 0 (frame SubnetAttribute.family [2, 0] ++
        (frame SubnetAttribute.address [10, 0, 0, last] ++ frame SubnetAttribute.length [32])))
    let record (last : UInt8) : Bytes :=
      frame 0 (frame PeerAttribute.publicKey (List.replicate 32 1) ++ range last)
    let replies : List Bytes :=
      [[0, 1, 0, 0] ++ frame DeviceAttribute.peers (record 1), [0, 1, 0, 0], [7],
        [0, 1, 0, 0] ++ (frame DeviceAttribute.peers (record 2) ++
          frame DeviceAttribute.peers (frame 0 []))]
    let snapshot : Snapshot :=
      { peers := [
          { publicKey := ⟨List.replicate 32 1, rfl⟩
            allowedIps := [⟨.v4 ⟨[10, 0, 0, 1], rfl⟩, 32⟩, ⟨.v4 ⟨[10, 0, 0, 2], rfl⟩, 32⟩] }, {}] }
    ofReplies replies = .ok snapshot ∧
      ∃ records, readEntries (peerEntries replies) = .ok records ∧
        snapshot.peers.map some = (Peer.runs records).map Peer.ofRun? ∧
        Peer.Apart snapshot.peers ∧
        snapshot.peers.flatMap Peer.keyedIps = records.flatMap Peer.keyedIps := by
  intro range record replies snapshot
  have hread : ofReplies replies = .ok snapshot := by decide +kernel
  exact ⟨hread, peers_of_runs hread⟩

end Snapshot

end TunnelControl
