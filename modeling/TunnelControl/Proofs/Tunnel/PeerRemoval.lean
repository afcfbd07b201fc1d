import TunnelControl.Proofs.Text.KeyText
import TunnelControl.Proofs.Tunnel.ChangeFrames

namespace TunnelControl

open Netlink Netlink.Attribute

theorem Snapshot.findPeer_eq_none_iff [Base64.Codec] {snapshot : Snapshot} {text : String} :
    snapshot.findPeer text = none ↔ ∀ peer ∈ snapshot.peers, Key.text peer.publicKey ≠ text := by
  simp [findPeer]

theorem Snapshot.findPeer_eq_some [Base64.Codec] {snapshot : Snapshot} {text : String} {peer : Peer}
    (h : snapshot.findPeer text = some peer) :
    peer ∈ snapshot.peers ∧ Key.text peer.publicKey = text :=
  ⟨List.mem_of_find?_eq_some h, by simpa using List.find?_some h⟩

namespace Tunnel

/-- What stands in a request that removes one peer and changes nothing else. -/
def removal (name : String) (key : Key) : List Attribute :=
  [.text DeviceAttribute.name name,
    .nest DeviceAttribute.peers
      [.nest 0
        [.leaf PeerAttribute.publicKey key.bytes,
          .word32 PeerAttribute.flags PeerChange.removeFlag]]]

/-- The frame is one message to the family, which removes the peer with this key. -/
def Removes (family : FamilyInfo) (name : String) (key : Key) (frame : Bytes) : Prop :=
  ∃ header : Netlink.Header, header.length.toNat = frame.length ∧ header.type = family.id ∧
    Message.ofDatagram frame =
      [.ok ⟨header, CommandHeader.bytes ⟨TunnelFamily.setDevice, TunnelFamily.version, 0⟩ ++
        encodeAll (removal name key)⟩]

variable {settings : Settings} {name text : String} {host middle : Host} {family : FamilyInfo}
  {snapshot : Snapshot} {socket : Socket}

theorem removes_of_carry {key : Key} {frames : List Bytes} {parts : List DeviceChange}
    (hcarry : Socket.Carry family name { peers := [{ publicKey := key, remove := true }] } parts
      frames)
    (hfront : parts <+: DeviceChange.requests { peers := [{ publicKey := key, remove := true }] })
    (hparts : parts ≠ []) : ∃ frame, frames = [frame] ∧ Removes family name key frame := by
  have hrequests : DeviceChange.requests { peers := [{ publicKey := key, remove := true }] } =
      [{ peers := [{ publicKey := key, remove := true }] }] := rfl
  cases hcarry with
  | nil => exact absurd rfl hparts
  | cons hframe hrest =>
      rw [hrequests, List.cons_prefix_cons, List.prefix_nil] at hfront
      obtain ⟨rfl, rfl⟩ := hfront
      cases hrest
      obtain ⟨hpart, hwritten⟩ := hframe
      obtain ⟨header, hlength, htype, -, -, hread⟩ := hwritten.read
      exact ⟨_, rfl, header, hlength, htype, hread⟩

section

variable [Base64.Codec]

theorem run_deletePeer_of_error {failure : Failure}
    (hlocate : (locate settings name).run host = (.error failure, middle)) :
    (deletePeer settings name text).run host = (.error failure, middle) := by
  rw [deletePeer, withFamily_fetch_eq, Exchange.run_bind_of_error hlocate]

theorem run_deletePeer_of_none
    (hlocate : (locate settings name).run host = (.ok ((family, snapshot), socket), middle))
    (hpeer : snapshot.findPeer text = none) :
    (deletePeer settings name text).run host = (.error (.peerNotFound name text), middle) := by
  rw [deletePeer, withFamily_fetch_eq, Exchange.run_bind_of_ok hlocate]
  simp only [hpeer]
  rfl

theorem snd_run_deletePeer_of_some {peer : Peer}
    (hlocate : (locate settings name).run host = (.ok ((family, snapshot), socket), middle))
    (hpeer : snapshot.findPeer text = some peer) :
    ((deletePeer settings name text).run host).2 =
      middle.noteExchange ((Socket.removePeer family name peer.publicKey).run
        { socket with trace := [], skipped := [] }).2 := by
  rw [deletePeer, withFamily_fetch_eq, Exchange.run_bind_of_ok hlocate]
  simp only [hpeer]
  rw [MakesOn.run_run', MakesOn.snd_run_exchange]

theorem exists_removal {peer : Peer}
    (hlocate : (locate settings name).run host = (.ok ((family, snapshot), socket), middle))
    (hpeer : snapshot.findPeer text = some peer) :
    ∃ events frame, ((deletePeer settings name text).run host).2.trace = middle.trace ++ events ∧
      Event.changes events = [frame] ∧ Removes family name peer.publicKey frame := by
  obtain ⟨events, parts, outcome, after, hrun, htrace, -, hcarry, hfront, hparts, -⟩ :=
    Socket.exists_changes family (name_fits_of_located hlocate)
      { peers := [{ publicKey := peer.publicKey, remove := true }] }
      { socket with trace := [], skipped := [] }
  obtain ⟨frame, hframe, hremoves⟩ := removes_of_carry hcarry hfront hparts
  refine ⟨events, frame, ?_, hframe, hremoves⟩
  rw [snd_run_deletePeer_of_some hlocate hpeer, Socket.removePeer, hrun]
  exact congrArg (middle.trace ++ ·) htrace

theorem run_peers (settings : Settings) (name : String) (host : Host) :
    (peers settings name).run host =
      (((locate settings name).run host).1.map fun found => found.1.2.peers.map .ofPeer,
        ((locate settings name).run host).2) := by
  rw [peers, withFamily_fetch_eq]
  rcases hlocate : (locate settings name).run host with ⟨failure | found, middle⟩
  · exact Exchange.run_bind_of_error hlocate
  · rw [Exchange.run_bind_of_ok hlocate]
    rfl

/-- The device is found, and one of its peers has a key with this text. -/
def HasPeer (settings : Settings) (name text : String) (host : Host) : Prop :=
  ∃ family snapshot socket middle,
    (locate settings name).run host = (.ok ((family, snapshot), socket), middle) ∧
      ∃ peer ∈ snapshot.peers, Key.text peer.publicKey = text

theorem hasPeer_of_report {reports : List PeerReport} {after : Host}
    (h : (peers settings name).run host = (.ok reports, after)) {report : PeerReport}
    (hreport : report ∈ reports) : HasPeer settings name report.publicKey host := by
  rw [run_peers] at h
  rcases hlocate : (locate settings name).run host with ⟨failure | found, middle⟩
  · rw [hlocate] at h
    cases h
  · rw [hlocate] at h
    cases h
    obtain ⟨⟨family, snapshot⟩, socket⟩ := found
    obtain ⟨peer, hpeer, rfl⟩ := List.mem_map.mp hreport
    exact ⟨family, snapshot, socket, middle, hlocate, peer, hpeer, rfl⟩

theorem not_hasPeer_of_error {failure : Failure}
    (hlocate : (locate settings name).run host = (.error failure, middle)) :
    ¬ HasPeer settings name text host := by
  rintro ⟨_, _, _, _, hfound, -⟩
  rw [hlocate] at hfound
  cases hfound

theorem not_hasPeer_of_none
    (hlocate : (locate settings name).run host = (.ok ((family, snapshot), socket), middle))
    (hpeer : snapshot.findPeer text = none) : ¬ HasPeer settings name text host := by
  rintro ⟨_, _, _, _, hfound, peer, hmem, htext⟩
  rw [hlocate] at hfound
  cases hfound
  exact Snapshot.findPeer_eq_none_iff.mp hpeer peer hmem htext

theorem exists_deletion (settings : Settings) (name text : String) (host : Host) :
    ∃ events, ((deletePeer settings name text).run host).2.trace = host.trace ++ events ∧
      (¬ HasPeer settings name text host ∧ Event.changes events = [] ∨
        ∃ family snapshot socket middle peer frame,
          (locate settings name).run host = (.ok ((family, snapshot), socket), middle) ∧
          snapshot.findPeer text = some peer ∧ Event.changes events = [frame] ∧
          Removes family name peer.publicKey frame) := by
  obtain ⟨found, outcome, middle, hlocate, htrace, hquiet⟩ := @exists_located settings name host
  rcases outcome with failure | ⟨⟨family, snapshot⟩, socket⟩
  · refine ⟨found, ?_, .inl ⟨not_hasPeer_of_error hlocate, hquiet⟩⟩
    rw [run_deletePeer_of_error hlocate, htrace]
  · cases hpeer : snapshot.findPeer text with
    | none =>
        refine ⟨found, ?_, .inl ⟨not_hasPeer_of_none hlocate hpeer, hquiet⟩⟩
        rw [run_deletePeer_of_none hlocate hpeer, htrace]
    | some peer =>
        obtain ⟨events, frame, hevents, hframe, hremoves⟩ := exists_removal hlocate hpeer
        refine ⟨found ++ events, ?_, .inr ⟨family, snapshot, socket, middle, peer, frame, hlocate,
          hpeer, ?_, hremoves⟩⟩
        · rw [hevents, htrace, List.append_assoc]
        · rw [Event.changes_append, hquiet, hframe, List.nil_append]

end

/-- The command to change the device is given exactly if the device was found and one of its peers
has a key with this text. It is given once, and it removes that peer, the only one that the text
can mean. Every key that the peers of the device are listed with can be given. -/
theorem deletePeer_removes_named [Base64.Codec] (hcodec : Base64.Codec.Standard)
    (settings : Settings) (name text : String) (host : Host) :
    ∃ events, ((deletePeer settings name text).run host).2.trace = host.trace ++ events ∧
      (Event.changes events ≠ [] ↔ HasPeer settings name text host) ∧
      (∀ family snapshot socket middle,
        (locate settings name).run host = (.ok ((family, snapshot), socket), middle) →
        ((∀ peer ∈ snapshot.peers, Key.text peer.publicKey ≠ text) →
          (deletePeer settings name text).run host = (.error (.peerNotFound name text), middle)) ∧
        ∀ peer ∈ snapshot.peers, Key.text peer.publicKey = text →
          (∀ key, Key.text key = text → key = peer.publicKey) ∧
          ∃ frame, Event.changes events = [frame] ∧ Removes family name peer.publicKey frame) ∧
      ∀ reports after, (peers settings name).run host = (.ok reports, after) →
        ∀ report ∈ reports, report.publicKey = text → Event.changes events ≠ [] := by
  obtain ⟨events, htrace, hevents⟩ := exists_deletion settings name text host
  have hgiven : Event.changes events ≠ [] ↔ HasPeer settings name text host := by
    rcases hevents with ⟨hnone, hquiet⟩ | ⟨_, _, _, _, peer, frame, hlocate, hpeer, hframe, -⟩
    · exact ⟨absurd hquiet, fun hpeer => absurd hpeer hnone⟩
    · rw [hframe]
      exact ⟨fun _ => ⟨_, _, _, _, hlocate, peer, Snapshot.findPeer_eq_some hpeer⟩,
        fun _ => List.cons_ne_nil frame []⟩
  refine ⟨events, htrace, hgiven, ?_, ?_⟩
  · intro family snapshot socket middle hlocate
    refine ⟨fun hother => run_deletePeer_of_none hlocate (Snapshot.findPeer_eq_none_iff.mpr hother),
      fun peer hmem htext => ?_⟩
    have hkey : ∀ key, Key.text key = text → key = peer.publicKey :=
      fun key hkey => Key.text_injective hcodec (hkey.trans htext.symm)
    refine ⟨hkey, ?_⟩
    rcases hevents with ⟨hnone, -⟩ | ⟨_, _, _, _, named, frame, hfound, hnamed, hframe, hremoves⟩
    · exact absurd ⟨_, _, _, _, hlocate, peer, hmem, htext⟩ hnone
    · rw [hlocate] at hfound
      cases hfound
      rw [← hkey _ (Snapshot.findPeer_eq_some hnamed).2]
      exact ⟨frame, hframe, hremoves⟩
  · rintro reports after hreports report hmem rfl
    exact hgiven.mpr (hasPeer_of_report hreports hmem)

theorem deletePeer_removes_named_second :
    let first : Key := ⟨List.replicate 32 7, rfl⟩
    let second : Key := ⟨List.replicate 32 9, rfl⟩
    let listed : Attribute :=
      .nest DeviceAttribute.peers
        [.nest 0 [.leaf PeerAttribute.publicKey first.bytes],
          .nest 1 [.leaf PeerAttribute.publicKey second.bytes]]
    let info : Message := ⟨⟨28, 16, 0, 1, 0⟩, [1, 2, 0, 0, 6, 0, 1, 0, 26, 0, 0, 0]⟩
    let device : Message := ⟨⟨104, 26, 2, 2, 0⟩, [0, 1, 0, 0] ++ listed.encode⟩
    let final : Message := ⟨⟨20, 3, 2, 2, 0⟩, [0, 0, 0, 0]⟩
    let arrivals := [Message.packet [info], Message.packet [device, final]]
    let host : Host := { scripts := [{ arrivals := arrivals.map .datagram }] }
    let text := "CQkJCQkJCQkJCQkJCQkJCQkJCQkJCQkJCQkJCQkJCQk="
    (∃ frame, Event.changes ((deletePeer {} "wg0" text).run host).2.trace = [frame] ∧
      Removes ⟨26, 0⟩ "wg0" second frame) ∧
    Event.changes ((deletePeer {} "wg0" (" " ++ text)).run host).2.trace = [] := by
  intro first second listed info device final arrivals host text
  have hfound : ((locate {} "wg0").run host).1.toOption.map
      (fun found => (found.1.1.id, found.1.1.version, found.1.2.peers)) =
        some (26, 0, [{ publicKey := first }, { publicKey := second }]) := by decide +kernel
  rcases hlocate : (locate {} "wg0").run host with ⟨failure | ⟨⟨family, snapshot⟩, socket⟩, middle⟩
  · rw [hlocate] at hfound
    cases hfound
  · rw [hlocate] at hfound
    obtain ⟨hfamily, hrest⟩ := Prod.mk.inj (Option.some.inj hfound)
    obtain ⟨hversion, hpeers⟩ := Prod.mk.inj hrest
    obtain rfl : family = ⟨26, 0⟩ := by rw [← hfamily, ← hversion]
    have htext : second.text = text := by decide +kernel
    have hother : ∀ peer ∈ snapshot.peers, Key.text peer.publicKey ≠ " " ++ text := by
      rw [hpeers]
      decide +kernel
    obtain ⟨events, hevents, -, hremoval, -⟩ :=
      deletePeer_removes_named Base64.Codec.standard {} "wg0" text host
    obtain ⟨others, hothers, hsent, -⟩ :=
      deletePeer_removes_named Base64.Codec.standard {} "wg0" (" " ++ text) host
    rw [List.nil_append] at hevents hothers
    refine ⟨?_, ?_⟩
    · have hmem : { publicKey := second } ∈ snapshot.peers := by
        rw [hpeers]
        exact List.mem_cons_of_mem _ List.mem_cons_self
      obtain ⟨-, frame, hframe, hremoves⟩ := (hremoval _ _ _ _ hlocate).2 _ hmem htext
      exact ⟨frame, hevents ▸ hframe, hremoves⟩
    · rw [hothers]
      refine Classical.byContradiction fun hchanges => ?_
      obtain ⟨_, _, _, _, hsame, peer, hmem, hblank⟩ := hsent.mp hchanges
      rw [hlocate] at hsame
      cases hsame
      exact hother peer hmem hblank

end Tunnel

end TunnelControl
