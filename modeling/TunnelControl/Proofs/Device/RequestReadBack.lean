import TunnelControl.Proofs.Device.RequestReading

namespace TunnelControl

open Netlink Netlink.Attribute

/-! Records and their pieces. -/

namespace PeerChange

theorem Pieces.joined_eq {record : PeerChange} {pieces : List PeerChange}
    (h : Pieces record pieces) (known : List Peer) :
    Peer.joined known (pieces.map peer) = Peer.joined known [record.peer] := by
  induction h generalizing known with
  | whole record => rfl
  | @cut record later pieces nonempty rest ih =>
      let next : PeerChange := { record.continuation with allowedIps := later }
      have hkey : next.peer.publicKey = record.peer.publicKey := rfl
      have hrest := ih (Peer.join known record.peer)
      have hcut := Peer.joined_cut known [] hkey
      exact hrest.trans hcut

theorem Spread.joined_eq {peers records : List PeerChange} (h : Spread peers records)
    (known : List Peer) :
    Peer.joined known (records.map peer) = Peer.joined known (peers.map peer) := by
  induction h generalizing known with
  | nil => rfl
  | @cons first peers pieces records hpieces rest ih =>
      rw [List.map_append, Peer.joined_append, hpieces.joined_eq, ih]
      rfl

end PeerChange

/-! The settings of the device. -/

namespace Snapshot

theorem foldl_overlay_noSettings {parts : List DeviceChange} {name : String}
    (snapshot : Snapshot) (hname : snapshot.name = some name)
    (hparts : ∀ part ∈ parts, part.settings = DeviceChange.noSettings) :
    parts.foldl (overlay name) snapshot =
      { snapshot with
        peers := Peer.joined snapshot.peers
          ((parts.flatMap (·.peers)).map PeerChange.peer) } := by
  induction parts generalizing snapshot with
  | nil => rfl
  | cons part parts ih =>
      have hpart := hparts part List.mem_cons_self
      obtain ⟨hkey, hport, -⟩ := DeviceChange.mk.inj hpart
      let next : Snapshot :=
        { snapshot with peers := Peer.joined snapshot.peers (part.peers.map PeerChange.peer) }
      have hnext : snapshot.overlay name part = next := by
        rw [overlay, hkey, hport, ← hname]
        rfl
      have hrest := ih next hname fun other hmem => hparts other (List.mem_cons_of_mem _ hmem)
      rw [List.foldl_cons, hnext, hrest, List.flatMap_cons, List.map_append,
        Peer.joined_append]

theorem foldl_overlay_requests (change : DeviceChange) (name : String) :
    change.requests.foldl (overlay name) {} =
      { name := some name
        privateKey := change.privateKey
        listenPort := change.listenPort.getD 0
        peers := Peer.joined [] (change.peers.map PeerChange.peer) } := by
  have hspread := change.requests_spread.joined_eq []
  obtain ⟨part, parts, hrequests, hfirst, hparts⟩ := change.requests_eq_cons
  obtain ⟨hkey, hport, -⟩ := DeviceChange.mk.inj hfirst
  rw [hrequests, List.flatMap_cons, List.map_append, Peer.joined_append] at hspread
  rw [hrequests, List.foldl_cons, foldl_overlay_noSettings _ rfl hparts, overlay, hkey, hport,
    ← hspread, Option.or_none]

end Snapshot

/-! Whole requests. -/

namespace DeviceChange

variable (name : String) (type flags : UInt16) (command version : UInt8)

theorem finish_parts {parts : List DeviceChange} (hcost : ∀ part ∈ parts, part.cost ≤ budget)
    (hlength : name.utf8ByteSize ≤ 65530) :
    ∃ frames, parts.mapM (fun part => (Socket.commanded (.start type flags) command version
        (part.attributes name)).finish) = .ok frames ∧
      frames.map (·.drop Header.size) = parts.map fun part =>
        CommandHeader.bytes ⟨command, version, 0⟩ ++ encodeAll (part.attributes name) := by
  induction parts with
  | nil => exact ⟨[], rfl, rfl⟩
  | cons part parts ih =>
      have hpart := hcost part List.mem_cons_self
      have hfits := (fitsAll_attributes_iff hpart name).mpr hlength
      have hsize := ((Socket.finish_commanded_eq_ok_iff type flags command version _).mp
        ((finish_attributes_eq_ok_iff hpart name type flags command version).mpr hlength)).2
      obtain ⟨frame, hframe, hbody⟩ :=
        Socket.finish_commanded type flags command version hfits hsize
      obtain ⟨frames, hframes, hbodies⟩ :=
        ih fun other hmem => hcost other (List.mem_cons_of_mem _ hmem)
      refine ⟨frame :: frames, ?_, ?_⟩
      · rw [List.mapM_cons, hframe, hframes]
        rfl
      · rw [List.map_cons, List.map_cons, hbody, hbodies]

/-- The requests of a change can all be written, and a reader that takes them for the replies to a
dump finds the change in them. -/
theorem requests_read_back (change : DeviceChange)
    (hapart : change.peers.IsChain fun first second => first.publicKey ≠ second.publicKey)
    (hname : '\x00' ∉ name.toList) (hlength : name.utf8ByteSize ≤ 65530) :
    ∃ frames, change.requests.mapM (fun part => (Socket.commanded (.start type flags) command
        version (part.attributes name)).finish) = .ok frames ∧
      Snapshot.ofReplies (frames.map (·.drop Header.size)) =
        .ok { name := some name
              privateKey := change.privateKey
              listenPort := change.listenPort.getD 0
              peers := change.peers.map PeerChange.peer } := by
  have hcost := change.requests_cost_le
  have hpeers : Peer.Apart (change.peers.map PeerChange.peer) :=
    (List.isChain_map PeerChange.peer).mpr hapart
  obtain ⟨frames, hframes, hbodies⟩ :=
    finish_parts name type flags command version hcost hlength
  have hfits : ∀ part ∈ change.requests, FitsAll (part.attributes name) := fun part hmem =>
    (fitsAll_attributes_iff (hcost part hmem) name).mpr hlength
  refine ⟨frames, hframes, ?_⟩
  rw [Snapshot.ofReplies, hbodies,
    Snapshot.foldlM_absorbReply ⟨command, version, 0⟩ (fun part hmem snapshot =>
      readAll_attributes snapshot hname (hfits part hmem)) hfits,
    Snapshot.foldl_overlay_requests, Peer.joined_of_apart hpeers]

theorem requests_read_back_two_peers :
    let first : PeerChange :=
      { publicKey := ⟨List.replicate 32 1, rfl⟩
        presharedKey := some (Octets.zero 32)
        keepalive := some 25
        allowedIps := [⟨.v4 ⟨[10, 0, 0, 0], rfl⟩, 24⟩, ⟨.v6 (Octets.zero 16), 0⟩] }
    let second : PeerChange :=
      { publicKey := ⟨List.replicate 32 2, rfl⟩
        presharedKey := some ⟨List.replicate 32 9, rfl⟩
        remove := true }
    let change : DeviceChange := { listenPort := some 51820, peers := [first, second] }
    ([first, second].IsChain fun first second => first.publicKey ≠ second.publicKey) ∧
      '\x00' ∉ "wg0".toList ∧ "wg0".utf8ByteSize ≤ 65530 ∧
      ∃ frames, change.requests.mapM (fun part => (Socket.commanded (.start 26 5) 1 1
          (part.attributes "wg0")).finish) = .ok frames ∧
        Snapshot.ofReplies (frames.map (·.drop Header.size)) =
          .ok { name := some "wg0"
                listenPort := 51820
                peers := [
                  { publicKey := ⟨List.replicate 32 1, rfl⟩
                    keepalive := 25
                    allowedIps := first.allowedIps },
                  { publicKey := ⟨List.replicate 32 2, rfl⟩
                    presharedKey := some ⟨List.replicate 32 9, rfl⟩ }] } := by
  intro first second change
  have hapart : [first, second].IsChain
      fun first second => first.publicKey ≠ second.publicKey := by decide
  have hname : '\x00' ∉ "wg0".toList := by decide
  have hlength : "wg0".utf8ByteSize ≤ 65530 := by decide
  exact ⟨hapart, hname, hlength,
    requests_read_back "wg0" 26 5 1 1 change hapart hname hlength⟩

end DeviceChange

end TunnelControl
