import TunnelControl.Proofs.Device.PeerRecords
import TunnelControl.Proofs.Device.RequestReadBack
import TunnelControl.Proofs.Text.KeyText
import TunnelControl.Proofs.Tunnel.ChangeFrames

namespace TunnelControl

open Netlink Netlink.Attribute

namespace Key

/-- The bits of a key that can be a factor on the curve: the lowest three of the first byte and the
highest of the last are clear, the second highest of the last is set. -/
structure Clamped (key : Key) : Prop where
  lowest_clear : key.bytes.getD 0 0 &&& 7 = 0
  highest_clear : key.bytes.getD 31 0 &&& 128 = 0
  next_set : key.bytes.getD 31 0 &&& 64 = 64

private theorem clamped_byte (byte : UInt8) :
    byte &&& 248 &&& 7 = 0 ∧ (byte &&& 127 ||| 64) &&& 128 = 0 ∧
      (byte &&& 127 ||| 64) &&& 64 = 64 := by
  have hall : ∀ value < 256,
      UInt8.ofNat value &&& 248 &&& 7 = 0 ∧ (UInt8.ofNat value &&& 127 ||| 64) &&& 128 = 0 ∧
        (UInt8.ofNat value &&& 127 ||| 64) &&& 64 = 64 := by decide +kernel
  have hbyte := hall byte.toNat byte.toNat_lt
  rwa [UInt8.ofNat_toNat] at hbyte

theorem clamped_clamp (key : Key) : key.clamp.Clamped := by
  have hsize := key.size_eq
  have hfirst : key.clamp.bytes.getD 0 0 = key.bytes[0] &&& 248 := by
    simp [clamp, clampBytes, hsize]
  have hlast : key.clamp.bytes.getD 31 0 = key.bytes[31] &&& 127 ||| 64 := by
    simp [clamp, clampBytes, hsize]
  refine ⟨?_, ?_, ?_⟩
  · rw [hfirst]
    exact (clamped_byte _).1
  · rw [hlast]
    exact (clamped_byte _).2.1
  · rw [hlast]
    exact (clamped_byte _).2.2

end Key

namespace Tunnel

/-! The texts of allowed addresses. -/

def accepted (texts : List String) : List Subnet :=
  texts.filterMap fun text => (Subnet.ofText text).toOption

def rejections (name : String) (texts : List String) : List Warning :=
  texts.filterMap fun text =>
    match Subnet.ofText text with
    | .ok _ => none
    | .error fault => some (.allowedIp name text (.ofSubnetFault fault))

theorem run_readAllowed (name : String) (texts : List String) (host : Host) :
    (readAllowed name texts).run host =
      (.ok (accepted texts), { host with warnings := host.warnings ++ rejections name texts }) := by
  induction texts generalizing host with
  | nil => simp [readAllowed, accepted, rejections]; rfl
  | cons text texts ih =>
      rw [readAllowed]
      cases htext : Subnet.ofText text with
      | ok subnet =>
          have haccepted : accepted (text :: texts) = subnet :: accepted texts :=
            List.filterMap_cons_some (by rw [htext]; rfl)
          have hrejections : rejections name (text :: texts) = rejections name texts :=
            List.filterMap_cons_none (by rw [htext])
          dsimp only
          rw [Exchange.run_bind_of_ok (ih host), haccepted, hrejections]
          rfl
      | error fault =>
          have haccepted : accepted (text :: texts) = accepted texts :=
            List.filterMap_cons_none (by rw [htext]; rfl)
          have hrejections : rejections name (text :: texts) =
              .allowedIp name text (.ofSubnetFault fault) :: rejections name texts :=
            List.filterMap_cons_some (by rw [htext])
          dsimp only
          have hwarn : (Host.warn (.allowedIp name text (.ofSubnetFault fault))).run host =
              (.ok (), { host with
                warnings := host.warnings ++ [.allowedIp name text (.ofSubnetFault fault)] }) := rfl
          rw [Exchange.run_bind_of_ok hwarn, ih, haccepted, hrejections]
          simp

/-! The change that adds a peer. -/

def addition [Curve.Product] (privateKey presharedKey : Key) (keepalive : UInt16)
    (subnets : List Subnet) : PeerChange where
  publicKey := Key.publicKey privateKey
  presharedKey := some presharedKey
  keepalive := if keepalive = 0 then none else some keepalive
  allowedIps := subnets

variable {settings : Settings} {name : String} {texts : List String} {keepalive : UInt16}
  {host after : Host} {report : PeerReport}

theorem exists_of_addPeer_ok [Base64.Codec] [Curve.Product]
    (h : (addPeer settings name texts keepalive).run host = (.ok report, after)) :
    ∃ family snapshot socket found secret presharedKey entropy last,
      (locate settings name).run host = (.ok ((family, snapshot), socket), found) ∧
      ((configure family name
          { peers := [addition (Key.clamp secret) presharedKey keepalive (accepted texts)] }).run
        socket).run
          { found with
            entropy
            warnings := found.warnings ++ rejections name texts } = (.ok ((), last), after) ∧
      report =
        { allowedIps := (accepted texts).map Subnet.text
          keepalive
          publicKey := Key.text (Key.publicKey (Key.clamp secret))
          privateKey := Key.text (Key.clamp secret)
          presharedKey := Key.text presharedKey } := by
  rw [addPeer, withFamily_fetch_eq] at h
  obtain ⟨⟨⟨family, snapshot⟩, socket⟩, found, hlocate, hadd⟩ := Exchange.exists_run_of_bind_ok h
  obtain ⟨secret, drawn, hsecret⟩ : ∃ secret drawn,
      (Host.draw 32).run found = (.ok secret, { found with entropy := drawn }) := ⟨_, _, rfl⟩
  obtain ⟨presharedKey, entropy, hshared⟩ : ∃ key entropy,
      Host.drawSharedKey.run { found with entropy := drawn } =
        (.ok key, { found with entropy }) := ⟨_, _, rfl⟩
  have hprivate : Host.drawPrivateKey.run found =
      (.ok (Key.clamp secret), { found with entropy := drawn }) := Exchange.run_bind_of_ok hsecret
  obtain ⟨last, hadd⟩ := MakesOn.exists_run_of_run'_ok hadd
  rw [MakesOn.run_lift_bind_of_ok hprivate, MakesOn.run_lift_bind_of_ok hshared,
    MakesOn.run_lift_bind_of_ok (run_readAllowed name texts _), StateT.run_bind] at hadd
  obtain ⟨⟨⟨⟩, reached⟩, final, hconfigure, hreport⟩ := Exchange.exists_run_of_bind_ok hadd
  cases hreport
  exact ⟨family, snapshot, socket, found, secret, presharedKey, entropy, _, hlocate, hconfigure,
    rfl⟩

theorem peer_addition [Curve.Product] (privateKey presharedKey : Key) (subnets : List Subnet) :
    (addition privateKey presharedKey keepalive subnets).peer =
      { publicKey := Key.publicKey privateKey
        presharedKey := if presharedKey = Octets.zero 32 then none else some presharedKey
        keepalive
        allowedIps := subnets } := by
  have hkeepalive : (if keepalive = 0 then none else some keepalive).getD 0 = keepalive := by
    split
    · rename_i hzero
      exact hzero.symm
    · rfl
  have hshared : (some presharedKey).filter (· ≠ Octets.zero 32) =
      if presharedKey = Octets.zero 32 then none else some presharedKey := by
    by_cases hzero : presharedKey = Octets.zero 32 <;> simp [Option.filter, hzero]
  rw [PeerChange.peer, addition]
  dsimp only
  rw [hkeepalive, hshared]

/-! What the frames say. -/

section

variable {family : FamilyInfo} {record : PeerChange} {frames : List Bytes}

theorem ofReplies_of_carry
    (h : Socket.Carry family name { peers := [record] }
      (DeviceChange.requests { peers := [record] }) frames) :
    Snapshot.ofReplies (frames.map (·.drop Header.size)) =
      .ok { name := some (Utf8.beforeZero name), peers := [record.peer] } := by
  obtain ⟨hbodies, hfits⟩ := h.bodies
  rw [Snapshot.ofReplies, hbodies,
    Snapshot.foldlM_absorbReply _ (fun part hmem snapshot =>
      DeviceChange.readAll_attributes_eq snapshot (hfits part hmem)) hfits,
    Snapshot.foldl_overlay_requests]
  rfl

theorem types_of_carry
    (h : Socket.Carry family name { peers := [record] }
      (DeviceChange.requests { peers := [record] }) frames)
    (hremove : record.remove = false) {frame : Bytes} (hframe : frame ∈ frames)
    {views : List View} (hviews : views ∈ peerRecords (frame.drop Header.size)) :
    ∀ view ∈ views, view.type ≠ PeerAttribute.flags ∧
      (record.keepalive = none → view.type ≠ PeerAttribute.keepalive) := by
  obtain ⟨hbodies, hfits⟩ := h.bodies
  have hbody := List.mem_map_of_mem (f := (·.drop Header.size)) hframe
  rw [hbodies] at hbody
  obtain ⟨part, hpart, hdrop⟩ := List.mem_map.mp hbody
  rw [← hdrop, DeviceChange.peerRecords_append _ (hfits part hpart)] at hviews
  obtain ⟨piece, hpiece, rfl⟩ := List.mem_map.mp hviews
  have hmem : piece ∈ (DeviceChange.requests { peers := [record] }).flatMap (·.peers) :=
    List.mem_flatMap.mpr ⟨part, hpart, hpiece⟩
  have hpieces := (DeviceChange.requests_spread { peers := [record] }).pieces_of_singleton
  intro view hview
  refine ⟨PeerChange.flags_notMem (hpieces.remove_eq_false hremove piece hmem) view hview, ?_⟩
  intro hkeepalive
  exact PeerChange.keepalive_notMem (hpieces.keepalive_eq_none hkeepalive piece hmem) view hview

end

end Tunnel

structure PeerReport.Describes [Base64.Codec] (report : PeerReport) (peer : Peer) : Prop where
  publicKey : Key.ofText report.publicKey = .ok peer.publicKey
  presharedKey : ∃ key, Key.ofText report.presharedKey = .ok key ∧
    peer.presharedKey = if key = Octets.zero 32 then none else some key
  allowedIps : report.allowedIps = peer.allowedIps.map Subnet.text
  keepalive : report.keepalive = peer.keepalive

namespace Tunnel

/-- The peer that is reported is the one that the requests add, without a flag in any of its
records, and each text that is no allowed address has left one warning. -/
theorem addPeer_reports_sent [Base64.Codec] [Curve.Product] (hcodec : Base64.Codec.Standard)
    (h : (addPeer settings name texts keepalive).run host = (.ok report, after)) :
    ∃ (events : List Event) (sizes : List Nat) (snapshot : Snapshot) (peer : Peer),
      after.trace = host.trace ++ events ∧
      after.warnings = host.warnings ++ (sizes.map .shortReply ++ rejections name texts) ∧
      report.allowedIps = (accepted texts).map Subnet.text ∧ report.keepalive = keepalive ∧
      Snapshot.ofReplies ((Event.changes events).map (·.drop Header.size)) = .ok snapshot ∧
      snapshot.peers = [peer] ∧ report.Describes peer ∧
      (∀ frame ∈ Event.changes events, ∀ views ∈ peerRecords (frame.drop Header.size),
        ∀ view ∈ views, view.type ≠ PeerAttribute.flags ∧
          (keepalive = 0 → view.type ≠ PeerAttribute.keepalive)) ∧
      ∃ privateKey, Key.ofText report.privateKey = .ok privateKey ∧
        privateKey.Clamped ∧
        report.publicKey = Key.text (Key.publicKey privateKey) := by
  obtain ⟨family, snapshot, socket, found, secret, presharedKey, entropy, last, hlocate,
    hconfigure, rfl⟩ := exists_of_addPeer_ok h
  obtain ⟨hchange, rfl⟩ := MakesOn.run_exchange_eq_ok hconfigure
  obtain ⟨earlier, outcome, middle, hlocate', hearlier, hquiet⟩ :=
    @exists_located settings name host
  rw [hlocate] at hlocate'
  cases hlocate'
  obtain ⟨sizes, hsizes⟩ := exists_warnings_of_located hlocate
  obtain ⟨events, parts, outcome, reached, hrun, htrace, hskipped, hcarry, -, -, hall⟩ :=
    Socket.exists_changes family (name_fits_of_located hlocate)
      { peers := [addition (Key.clamp secret) presharedKey keepalive (accepted texts)] }
      { socket with trace := [], skipped := [] }
  rw [hchange] at hrun
  cases hrun
  obtain rfl := hall rfl
  have hchanges : Event.changes (earlier ++ events) = Event.changes events := by
    rw [Event.changes_append, hquiet, List.nil_append]
  have hread := ofReplies_of_carry hcarry
  rw [← hchanges] at hread
  refine ⟨earlier ++ events, sizes, _, _, ?_, ?_, rfl, rfl, hread, rfl, ?_, ?_, Key.clamp secret,
    Key.ofText_text hcodec _, Key.clamped_clamp secret, rfl⟩
  · rw [← List.append_assoc, ← hearlier]
    exact congrArg (found.trace ++ ·) htrace
  · rw [← List.append_assoc, ← hsizes]
    have hwarnings := congrArg (fun sizes => found.warnings ++ rejections name texts ++
      sizes.map Warning.shortReply) hskipped
    exact hwarnings.trans (List.append_nil _)
  · rw [peer_addition]
    exact ⟨Key.ofText_text hcodec _, ⟨presharedKey, Key.ofText_text hcodec _, rfl⟩, rfl, rfl⟩
  · rw [hchanges]
    intro frame hframe views hviews view hview
    obtain ⟨hflags, hkeepalive⟩ := types_of_carry hcarry rfl hframe hviews view hview
    exact ⟨hflags, fun hzero => hkeepalive (if_pos hzero)⟩

theorem addPeer_reports_sent_past_bad_text :
    let info : Message := ⟨⟨28, 16, 0, 1, 0⟩, [1, 2, 0, 0, 6, 0, 1, 0, 26, 0, 0, 0]⟩
    let device : Message := ⟨⟨20, 26, 2, 2, 0⟩, [0, 1, 0, 0]⟩
    let final : Message := ⟨⟨20, 3, 2, 2, 0⟩, [0, 0, 0, 0]⟩
    let verdict : Message := ⟨⟨36, 2, 0, 3, 0⟩, List.replicate 20 0⟩
    let arrivals :=
      [Message.packet [info], Message.packet [device, final], Message.packet [verdict]]
    let host : Host :=
      { scripts := [{ arrivals := arrivals.map .datagram }], entropy := List.replicate 64 255 }
    let texts := ["10.0.0.0/24", "none", "fd00::/8"]
    ∃ report after,
      (addPeer {} "wg0" texts 25).run host = (.ok report, after) ∧
        report.allowedIps = ["10.0.0.0/24", "fd00::/8"] ∧
        after.warnings = [.allowedIp "wg0" "none" (.ofSubnetFault (.badAddress "none"))] ∧
        (∃ snapshot peer,
          Snapshot.ofReplies ((Event.changes after.trace).map (·.drop Header.size)) =
            .ok snapshot ∧ snapshot.peers = [peer] ∧ report.Describes peer ∧
          peer.keepalive = 25) ∧
        ∃ privateKey, Key.ofText report.privateKey = .ok privateKey ∧ privateKey.Clamped := by
  intro info device final verdict arrivals host texts
  have hok : ((addPeer {} "wg0" texts 25).run host).1.isOk = true := by decide +kernel
  have hwarnings : ((addPeer {} "wg0" texts 25).run host).2.warnings =
      [.allowedIp "wg0" "none" (.ofSubnetFault (.badAddress "none"))] := by decide +kernel
  have haccepted : (accepted texts).map Subnet.text = ["10.0.0.0/24", "fd00::/8"] := by
    decide +kernel
  rcases hrun : (addPeer {} "wg0" texts 25).run host with ⟨failure | report, after⟩
  · rw [hrun] at hok
    cases hok
  · rw [hrun] at hwarnings
    obtain ⟨events, sizes, snapshot, peer, htrace, -, hallowed, hkeepalive, hread, hpeers,
      hdescribes, -, privateKey, hprivate, hclamped, -⟩ :=
        addPeer_reports_sent Base64.Codec.standard hrun
    rw [List.nil_append] at htrace
    exact ⟨report, after, rfl, hallowed.trans haccepted, hwarnings,
      ⟨snapshot, peer, htrace ▸ hread, hpeers, hdescribes,
        hdescribes.keepalive.symm.trans hkeepalive⟩, privateKey, hprivate, hclamped⟩

end Tunnel

end TunnelControl
