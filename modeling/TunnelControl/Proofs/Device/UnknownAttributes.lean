import TunnelControl.Proofs.Device.PeerRuns
import TunnelControl.Proofs.Netlink.WrittenAttributes

/-!
Attributes that mean nothing. One more attribute of a type that a level does not know, put in at any
boundary of the device's attributes, of a peer's record or of the entry of an allowed address, with
the lengths around it brought up to date, changes nothing of what is read, nor whether it is read.
-/

namespace TunnelControl

open Netlink Netlink.Attribute

/-! More attributes than before. -/

namespace Netlink.Attribute

/-- The second byte string is the first with one more attribute at a boundary of its attributes, of
a type that is not among these. -/
inductive Inserted (known : List UInt16) : Bytes → Bytes → Prop
  | between (front back : List Written) (added : Written) (unknown : added.view.type ∉ known) :
      Inserted known ((front ++ back).flatMap Written.bytes)
        ((front ++ added :: back).flatMap Written.bytes)

/-- The second byte string is the first but for the payload of one attribute, of such a type. The
length of the attribute is that of its payload in both. -/
inductive Altered (kind : UInt16 → Prop) (change : Bytes → Bytes → Prop) : Bytes → Bytes → Prop
  | inside (front back : List Written) {old new : Written} (same : new.type = old.type)
      (here : kind old.view.type) (changed : change old.payload new.payload) :
      Altered kind change ((front ++ old :: back).flatMap Written.bytes)
        ((front ++ new :: back).flatMap Written.bytes)

variable {σ α : Type} {before after : Bytes}

theorem Inserted.foldlM_eq {known : List UInt16} (h : Inserted known before after)
    {absorb : σ → View → Except Error σ}
    (hunknown : ∀ state view, view.type ∉ known → absorb state view = .ok state) (state : σ) :
    (views after).foldlM absorb state = (views before).foldlM absorb state := by
  cases h with
  | between front back added unknown =>
      rw [Written.views_flatMap_bytes, Written.views_flatMap_bytes, List.map_append,
        List.map_append, List.map_cons, List.foldlM_append, List.foldlM_append]
      congr 1
      funext reached
      rw [List.foldlM_cons, hunknown reached added.view unknown]
      rfl

theorem Altered.foldlM_eq {kind : UInt16 → Prop} {change : Bytes → Bytes → Prop}
    (h : Altered kind change before after) {absorb : σ → View → Except Error σ}
    (hchange : ∀ state type old new, kind type → change old new →
      absorb state ⟨type, new⟩ = absorb state ⟨type, old⟩) (state : σ) :
    (views after).foldlM absorb state = (views before).foldlM absorb state := by
  cases h with
  | @inside front back old new same here changed =>
      rw [Written.views_flatMap_bytes, Written.views_flatMap_bytes, List.map_append,
        List.map_append, List.map_cons, List.map_cons, List.foldlM_append, List.foldlM_append]
      congr 1
      funext reached
      have hview : new.view = ⟨old.view.type, new.payload⟩ := by
        rw [Written.view, same, Written.view]
      rw [List.foldlM_cons, List.foldlM_cons, hview, hchange reached _ _ _ here changed]
      rfl

theorem Altered.mapM_eq {change : Bytes → Bytes → Prop}
    (h : Altered (fun _ => True) change before after) {read : Bytes → Except Error α}
    (hchange : ∀ old new, change old new → read new = read old) :
    (views after).mapM (fun entry => read entry.payload) =
      (views before).mapM (fun entry => read entry.payload) := by
  cases h with
  | @inside front back old new same here changed =>
      have hread : read new.view.payload = read old.view.payload := hchange _ _ changed
      rw [Written.views_flatMap_bytes, Written.views_flatMap_bytes, List.map_append,
        List.map_append, List.map_cons, List.map_cons, List.mapM_append, List.mapM_append,
        List.mapM_cons, List.mapM_cons, hread]

end Netlink.Attribute

namespace Subnet

def knownTypes : List UInt16 :=
  [SubnetAttribute.family, SubnetAttribute.address, SubnetAttribute.length]

def Extended : Bytes → Bytes → Prop :=
  Inserted knownTypes

theorem absorb_of_unknown (fields : Fields) (view : View) (h : view.type ∉ knownTypes) :
    fields.absorb view = .ok fields := by
  simp only [knownTypes, List.mem_cons, List.not_mem_nil, or_false, not_or] at h
  obtain ⟨hfamily, haddress, hlength⟩ := h
  rw [Fields.absorb, if_neg hfamily, if_neg haddress, if_neg hlength]
  rfl

theorem ofAttributes_extended {before after : Bytes} (h : Extended before after) :
    ofAttributes after = ofAttributes before := by
  rw [ofAttributes, h.foldlM_eq absorb_of_unknown, ofAttributes]

end Subnet

namespace Peer

def knownTypes : List UInt16 :=
  [PeerAttribute.publicKey, PeerAttribute.presharedKey, PeerAttribute.endpoint,
    PeerAttribute.keepalive, PeerAttribute.lastHandshake, PeerAttribute.receivedBytes,
    PeerAttribute.sentBytes, PeerAttribute.allowedIps]

inductive Extended : Bytes → Bytes → Prop
  | here {before after : Bytes} (inserted : Inserted knownTypes before after) :
      Extended before after
  | inside {before after : Bytes}
      (altered : Altered (· = PeerAttribute.allowedIps)
        (Altered (fun _ => True) Subnet.Extended) before after) :
      Extended before after

theorem absorb_of_unknown (peer : Peer) (view : View) (h : view.type ∉ knownTypes) :
    peer.absorb view = .ok peer := by
  simp only [knownTypes, List.mem_cons, List.not_mem_nil, or_false, not_or] at h
  obtain ⟨hpublic, hshared, hendpoint, hkeepalive, hhandshake, hreceived, hsent, hranges⟩ := h
  rw [absorb, if_neg hpublic, if_neg hshared, if_neg hendpoint, if_neg hkeepalive,
    if_neg hhandshake, if_neg hreceived, if_neg hsent, if_neg hranges]
  rfl

theorem absorb_allowedIps_eq (peer : Peer) (payload : Bytes) :
    peer.absorb ⟨PeerAttribute.allowedIps, payload⟩ =
      ((views payload).mapM fun entry => Subnet.ofAttributes entry.payload).map fun ranges =>
        { peer with allowedIps := peer.allowedIps ++ ranges.filterMap id } := rfl

theorem ofAttributes_extended {before after : Bytes} (h : Extended before after) :
    ofAttributes after = ofAttributes before := by
  rw [ofAttributes, ofAttributes]
  cases h with
  | here inserted => exact inserted.foldlM_eq absorb_of_unknown {}
  | inside altered =>
      refine altered.foldlM_eq (fun peer type old new htype hlist => ?_) _
      rw [htype, absorb_allowedIps_eq, absorb_allowedIps_eq,
        hlist.mapM_eq fun _ _ => Subnet.ofAttributes_extended]

end Peer

namespace Snapshot

def knownTypes : List UInt16 :=
  [DeviceAttribute.index, DeviceAttribute.name, DeviceAttribute.privateKey,
    DeviceAttribute.publicKey, DeviceAttribute.listenPort, DeviceAttribute.peers]

/-- The attributes of a reply with one more, among them or in the record of a peer. -/
inductive Extended : Bytes → Bytes → Prop
  | here {before after : Bytes} (inserted : Inserted knownTypes before after) :
      Extended before after
  | inside {before after : Bytes}
      (altered : Altered (· = DeviceAttribute.peers)
        (Altered (fun _ => True) Peer.Extended) before after) :
      Extended before after

theorem absorb_of_unknown (snapshot : Snapshot) (view : View) (h : view.type ∉ knownTypes) :
    snapshot.absorb view = .ok snapshot := by
  simp only [knownTypes, List.mem_cons, List.not_mem_nil, or_false, not_or] at h
  obtain ⟨hindex, hname, hprivate, hpublic, hport, hpeers⟩ := h
  rw [absorb, if_neg hindex, if_neg hname, if_neg hprivate, if_neg hpublic, if_neg hport,
    if_neg hpeers]
  rfl

theorem foldlM_absorb_extended {before after : Bytes} (h : Extended before after)
    (snapshot : Snapshot) :
    (views after).foldlM absorb snapshot = (views before).foldlM absorb snapshot := by
  cases h with
  | here inserted => exact inserted.foldlM_eq absorb_of_unknown snapshot
  | inside altered =>
      refine altered.foldlM_eq (fun reached type old new htype hlist => ?_) snapshot
      rw [absorb_peers htype, absorb_peers htype, readEntries, readEntries,
        hlist.mapM_eq fun _ _ => Peer.ofAttributes_extended]

/-- One more attribute of an unknown type in one of the replies changes nothing of what is read from
them, be that a snapshot or an error. -/
theorem ofReplies_extended {header before after : Bytes} (front back : List Bytes)
    (hheader : header.length = CommandHeader.size) (h : Extended before after) :
    ofReplies (front ++ (header ++ after) :: back) =
      ofReplies (front ++ (header ++ before) :: back) := by
  have hreply : ∀ snapshot : Snapshot,
      snapshot.absorbReply (header ++ after) = snapshot.absorbReply (header ++ before) := by
    intro snapshot
    rw [absorbReply, absorbReply, Bytes.cut?_append hheader, Bytes.cut?_append hheader]
    exact foldlM_absorb_extended h snapshot
  rw [ofReplies, ofReplies, List.foldlM_append, List.foldlM_append]
  congr 1
  funext reached
  rw [List.foldlM_cons, List.foldlM_cons, hreply]

theorem ofReplies_extended_in_entry :
    let family : Written := ⟨SubnetAttribute.family, [2, 0], [0, 0], by decide, by decide⟩
    let added : Written := ⟨0x8007, [1, 2, 3], [9], by decide, by decide⟩
    let address : Written := ⟨SubnetAttribute.address, [10, 0, 0, 1], [], by decide, by decide⟩
    let length : Written := ⟨SubnetAttribute.length, [32], [0, 0, 0], by decide, by decide⟩
    let entry : Written := ⟨0x8000, [family, address, length].flatMap Written.bytes, [],
      by decide, by decide⟩
    let entry' : Written := ⟨0x8000, [family, added, address, length].flatMap Written.bytes, [],
      by decide, by decide⟩
    let ranges : Written := ⟨0x8009, [entry].flatMap Written.bytes, [], by decide, by decide⟩
    let ranges' : Written := ⟨0x8009, [entry'].flatMap Written.bytes, [], by decide, by decide⟩
    let record : Written := ⟨0x8000, [ranges].flatMap Written.bytes, [], by decide, by decide⟩
    let record' : Written := ⟨0x8000, [ranges'].flatMap Written.bytes, [], by decide, by decide⟩
    let peers : Written := ⟨0x8008, [record].flatMap Written.bytes, [], by decide, by decide⟩
    let peers' : Written := ⟨0x8008, [record'].flatMap Written.bytes, [], by decide, by decide⟩
    let header : Bytes := [0, 1, 0, 0]
    header.length = CommandHeader.size ∧
      Extended ([peers].flatMap Written.bytes) ([peers'].flatMap Written.bytes) ∧
      ofReplies [header ++ [peers'].flatMap Written.bytes] =
        ofReplies [header ++ [peers].flatMap Written.bytes] ∧
      ofReplies [header ++ [peers].flatMap Written.bytes] =
        .ok { peers := [{ allowedIps := [⟨.v4 ⟨[10, 0, 0, 1], rfl⟩, 32⟩] }] } := by
  intro family added address length entry entry' ranges ranges' record record' peers peers' header
  have hentry : Subnet.Extended entry.payload entry'.payload :=
    .between [family] [address, length] added (by decide)
  have hranges : Altered (fun _ => True) Subnet.Extended ranges.payload ranges'.payload :=
    .inside [] [] rfl trivial hentry
  have hrecord : Peer.Extended record.payload record'.payload :=
    .inside (.inside [] [] rfl (by decide) hranges)
  have hpeers : Altered (fun _ => True) Peer.Extended peers.payload peers'.payload :=
    .inside [] [] rfl trivial hrecord
  have hextended : Extended ([peers].flatMap Written.bytes) ([peers'].flatMap Written.bytes) :=
    .inside (.inside [] [] rfl (by decide) hpeers)
  have hheader : header.length = CommandHeader.size := rfl
  exact ⟨hheader, hextended, ofReplies_extended [] [] hheader hextended, by decide +kernel⟩

end Snapshot

end TunnelControl
