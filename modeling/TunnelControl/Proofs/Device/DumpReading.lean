import TunnelControl.Proofs.Device.FixedRecords
import TunnelControl.Proofs.Device.RequestReading

namespace TunnelControl

open Netlink Netlink.Attribute

/-! What the kernel reports. A value that is not set is left out, or reported as zeros. -/

def reported (zeros : Bool) (type : UInt16) (size : Nat) : Option Bytes → List Attribute
  | some payload => [.leaf type payload]
  | none => if zeros then [.leaf type (List.replicate size 0)] else []

def Subnet.listAttributes (ranges : List Subnet) : List Attribute :=
  if ranges = [] then [] else [.nest PeerAttribute.allowedIps (ranges.mapIdx attributeAt)]

/-- A record of a peer: its first one, or one that goes on with its allowed addresses. -/
inductive PeerRecord where
  | first (peer : Peer)
  | more (publicKey : Key) (allowedIps : List Subnet)

namespace PeerRecord

def peer : PeerRecord → Peer
  | first peer => peer
  | more publicKey allowedIps => { publicKey, allowedIps }

def extend (later : List Subnet) : PeerRecord → PeerRecord
  | first peer => first { peer with allowedIps := peer.allowedIps ++ later }
  | more publicKey allowedIps => more publicKey (allowedIps ++ later)

def attributes (zeros : Bool) : PeerRecord → List Attribute
  | first peer =>
      .leaf PeerAttribute.publicKey peer.publicKey.bytes ::
        (reported zeros PeerAttribute.presharedKey 32 (peer.presharedKey.map (·.bytes)) ++
          (reported zeros PeerAttribute.endpoint 16 (peer.endpoint.map Endpoint.bytes) ++
            (.word16 PeerAttribute.keepalive peer.keepalive ::
              (reported zeros PeerAttribute.lastHandshake 16
                  (peer.lastHandshake.map Timestamp.bytes) ++
                (.word64 PeerAttribute.receivedBytes peer.receivedBytes ::
                  .word64 PeerAttribute.sentBytes peer.sentBytes ::
                    Subnet.listAttributes peer.allowedIps)))))
  | more publicKey allowedIps =>
      .leaf PeerAttribute.publicKey publicKey.bytes :: Subnet.listAttributes allowedIps

def attributeAt (zeros : Bool) (place : Nat) (record : PeerRecord) : Attribute :=
  .nest (UInt16.ofNat place) (record.attributes zeros)

end PeerRecord

/-- Records spread over replies. The list goes on in the next reply between two records, or within
the allowed addresses of one. -/
inductive CutInto : List PeerRecord → List (List PeerRecord) → Prop
  | whole (records : List PeerRecord) : CutInto records [records]
  | between {front back : List PeerRecord} {chunks : List (List PeerRecord)}
      (rest : CutInto back chunks) : CutInto (front ++ back) (front :: chunks)
  | inside {front back : List PeerRecord} {record : PeerRecord} {later : List Subnet}
      {chunks : List (List PeerRecord)}
      (rest : CutInto (.more record.peer.publicKey later :: back) chunks) :
      CutInto (front ++ record.extend later :: back) ((front ++ [record]) :: chunks)

namespace Snapshot

def settings (snapshot : Snapshot) : List Attribute :=
  (snapshot.index.map (.word32 DeviceAttribute.index)).toList ++
    ((snapshot.name.map (.text DeviceAttribute.name)).toList ++
      ((snapshot.privateKey.map fun key => .leaf DeviceAttribute.privateKey key.bytes).toList ++
        ((snapshot.publicKey.map fun key => .leaf DeviceAttribute.publicKey key.bytes).toList ++
          [.word16 DeviceAttribute.listenPort snapshot.listenPort])))

def peerAttributes (zeros : Bool) (records : List PeerRecord) : List Attribute :=
  if records = [] then []
  else [.nest DeviceAttribute.peers (records.mapIdx (PeerRecord.attributeAt zeros))]

/-- The attributes of each reply; the first alone has those of the device itself. -/
def dump (zeros : Bool) (snapshot : Snapshot) : List (List PeerRecord) → List (List Attribute)
  | [] => []
  | records :: chunks =>
      (snapshot.settings ++ peerAttributes zeros records) :: chunks.map (peerAttributes zeros)

end Snapshot

/-! Joining the records. -/

namespace PeerRecord

theorem peer_extend (later : List Subnet) (record : PeerRecord) :
    (record.extend later).peer =
      { record.peer with allowedIps := record.peer.allowedIps ++ later } := by
  cases record <;> rfl

end PeerRecord

theorem CutInto.joined_eq {records : List PeerRecord} {chunks : List (List PeerRecord)}
    (h : CutInto records chunks) (known : List Peer) :
    Peer.joined known (chunks.flatten.map PeerRecord.peer) =
      Peer.joined known (records.map PeerRecord.peer) := by
  induction h generalizing known with
  | whole records => simp
  | between rest ih =>
      rw [List.flatten_cons, List.map_append, List.map_append, Peer.joined_append,
        Peer.joined_append, ih]
  | @inside front back record later chunks rest ih =>
      have hkey : (PeerRecord.more record.peer.publicKey later).peer.publicKey =
          record.peer.publicKey := rfl
      have hcut := Peer.joined_cut (Peer.joined known (front.map PeerRecord.peer))
        (back.map PeerRecord.peer) hkey
      have hwhole : (front ++ record.extend later :: back).map PeerRecord.peer =
          front.map PeerRecord.peer ++
            { record.peer with allowedIps := record.peer.allowedIps ++ later } ::
              back.map PeerRecord.peer := by
        rw [List.map_append, List.map_cons, PeerRecord.peer_extend]
      rw [List.flatten_cons, List.map_append, Peer.joined_append, ih, List.map_append,
        Peer.joined_append, hwhole, Peer.joined_append]
      exact hcut

/-! Reading one record. -/

theorem readAll_reported {σ α : Type} {absorb : σ → View → Except Error σ} {state : σ}
    {type : UInt16} {size : Nat} {bytes : α → Bytes} {set : α → σ} {value : Option α}
    (zeros : Bool)
    (hzeros : absorb state (view (.leaf type (List.replicate size 0))) = .ok state)
    (hset : ∀ found ∈ value, absorb state (view (.leaf type (bytes found))) = .ok (set found)) :
    readAll absorb state (reported zeros type size (value.map bytes)) =
      .ok (value.elim state set) := by
  cases value with
  | none =>
      cases zeros with
      | false => rfl
      | true => exact readAll_cons_of_ok hzeros []
  | some found => exact readAll_cons_of_ok (hset found rfl) []

namespace Peer

/-- The reader can tell the values of the peer from values that are not set. -/
structure Reportable (peer : Peer) : Prop where
  presharedKey_ne : peer.presharedKey ≠ some (Octets.zero 32)
  lastHandshake_regular : ∀ time ∈ peer.lastHandshake, time.Regular

theorem absorb_receivedBytes (peer : Peer) (count : UInt64) :
    peer.absorb (view (.word64 PeerAttribute.receivedBytes count)) =
      .ok { peer with receivedBytes := count } :=
  congrArg (Except.map fun count => ({ peer with receivedBytes := count } : Peer))
    (Payload.word64_word64 count)

theorem absorb_sentBytes (peer : Peer) (count : UInt64) :
    peer.absorb (view (.word64 PeerAttribute.sentBytes count)) =
      .ok { peer with sentBytes := count } :=
  congrArg (Except.map fun count => ({ peer with sentBytes := count } : Peer))
    (Payload.word64_word64 count)

theorem absorb_zero_presharedKey (peer : Peer) :
    peer.absorb (view (.leaf PeerAttribute.presharedKey (List.replicate 32 0))) = .ok peer := by
  have habsorb := absorb_presharedKey peer (Octets.zero 32)
  rwa [if_pos rfl] at habsorb

theorem absorb_nonzero_presharedKey (peer : Peer) {key : Key} (hkey : key ≠ Octets.zero 32) :
    peer.absorb (view (.leaf PeerAttribute.presharedKey key.bytes)) =
      .ok { peer with presharedKey := some key } := by
  rw [absorb_presharedKey, if_neg hkey]

theorem absorb_zero_endpoint {peer : Peer} (hunset : peer.endpoint = none) :
    peer.absorb (view (.leaf PeerAttribute.endpoint (List.replicate 16 0))) = .ok peer := by
  cases peer
  cases hunset
  rfl

theorem absorb_endpoint (peer : Peer) (endpoint : Endpoint) :
    peer.absorb (view (.leaf PeerAttribute.endpoint endpoint.bytes)) =
      .ok { peer with endpoint := some endpoint } :=
  congrArg (fun found => Except.ok ({ peer with endpoint := found } : Peer))
    (Endpoint.ofBytes?_bytes endpoint)

theorem absorb_zero_lastHandshake {peer : Peer} (hunset : peer.lastHandshake = none) :
    peer.absorb (view (.leaf PeerAttribute.lastHandshake (List.replicate 16 0))) = .ok peer := by
  cases peer
  cases hunset
  rfl

theorem absorb_lastHandshake (peer : Peer) {time : Timestamp} (htime : time.Regular) :
    peer.absorb (view (.leaf PeerAttribute.lastHandshake time.bytes)) =
      .ok { peer with lastHandshake := some time } :=
  congrArg (fun found => Except.ok ({ peer with lastHandshake := found } : Peer))
    (Timestamp.ofBytes?_bytes htime)

theorem readAll_reported_presharedKey (zeros : Bool) {peer : Peer}
    (hunset : peer.presharedKey = none) {key : Option Key}
    (hkey : key ≠ some (Octets.zero 32)) :
    readAll absorb peer (reported zeros PeerAttribute.presharedKey 32 (key.map (·.bytes))) =
      .ok { peer with presharedKey := key } := by
  rw [readAll_reported zeros (absorb_zero_presharedKey peer) fun found hfound =>
    absorb_nonzero_presharedKey peer fun hzero => hkey (hfound.trans (congrArg some hzero))]
  cases key with
  | none => exact congrArg (fun key => Except.ok ({ peer with presharedKey := key } : Peer)) hunset
  | some key => rfl

theorem readAll_reported_endpoint (zeros : Bool) {peer : Peer} (hunset : peer.endpoint = none)
    (endpoint : Option Endpoint) :
    readAll absorb peer (reported zeros PeerAttribute.endpoint 16
      (endpoint.map Endpoint.bytes)) = .ok { peer with endpoint } := by
  rw [readAll_reported zeros (absorb_zero_endpoint hunset) fun found _ =>
    absorb_endpoint peer found]
  cases endpoint with
  | none => exact congrArg (fun found => Except.ok ({ peer with endpoint := found } : Peer)) hunset
  | some endpoint => rfl

theorem readAll_reported_lastHandshake (zeros : Bool) {peer : Peer}
    (hunset : peer.lastHandshake = none) {lastHandshake : Option Timestamp}
    (hregular : ∀ time ∈ lastHandshake, time.Regular) :
    readAll absorb peer (reported zeros PeerAttribute.lastHandshake 16
      (lastHandshake.map Timestamp.bytes)) = .ok { peer with lastHandshake } := by
  rw [readAll_reported zeros (absorb_zero_lastHandshake hunset) fun time htime =>
    absorb_lastHandshake peer (hregular time htime)]
  cases lastHandshake with
  | none => exact congrArg (fun found => Except.ok ({ peer with lastHandshake := found } : Peer)) hunset
  | some time => rfl

theorem readAll_listAttributes (peer : Peer) {ranges : List Subnet}
    (hfits : FitsAll (Subnet.listAttributes ranges)) :
    readAll absorb peer (Subnet.listAttributes ranges) =
      .ok { peer with allowedIps := peer.allowedIps ++ ranges } :=
  readAll_allowedIps peer hfits

end Peer

theorem PeerRecord.ofAttributes_attributes (zeros : Bool) {record : PeerRecord}
    (hreportable : record.peer.Reportable) (hfits : FitsAll (record.attributes zeros)) :
    Peer.ofAttributes (encodeAll (record.attributes zeros)) = .ok record.peer := by
  rw [Peer.ofAttributes, foldlM_views_encodeAll _ _ hfits]
  cases record with
  | first peer =>
      have hshared : peer.presharedKey ≠ some (Octets.zero 32) := hreportable.presharedKey_ne
      have hhandshake : ∀ time ∈ peer.lastHandshake, time.Regular :=
        hreportable.lastHandshake_regular
      have hvalues := (fitsAll_append.mp (fitsAll_append.mp hfits.2).2).2
      have hranges := (fitsAll_append.mp hvalues.2).2.2.2
      rw [attributes, readAll_cons_of_ok (Peer.absorb_publicKey _ _),
        readAll_append_of_ok (Peer.readAll_reported_presharedKey zeros ?_ hshared),
        readAll_append_of_ok (Peer.readAll_reported_endpoint zeros ?_ _),
        readAll_cons_of_ok (Peer.absorb_keepalive _ _),
        readAll_append_of_ok (Peer.readAll_reported_lastHandshake zeros ?_ hhandshake),
        readAll_cons_of_ok (Peer.absorb_receivedBytes _ _),
        readAll_cons_of_ok (Peer.absorb_sentBytes _ _), Peer.readAll_listAttributes _ hranges]
      all_goals rfl
  | more publicKey allowedIps =>
      rw [attributes, readAll_cons_of_ok (Peer.absorb_publicKey _ _),
        Peer.readAll_listAttributes _ hfits.2]
      rfl

theorem CutInto.ne_nil {records : List PeerRecord} {chunks : List (List PeerRecord)}
    (h : CutInto records chunks) : chunks ≠ [] := by
  cases h <;> exact List.cons_ne_nil _ _

theorem CutInto.reportable {records : List PeerRecord} {chunks : List (List PeerRecord)}
    (h : CutInto records chunks) (hrecords : ∀ record ∈ records, record.peer.Reportable) :
    ∀ chunk ∈ chunks, ∀ record ∈ chunk, record.peer.Reportable := by
  induction h with
  | whole records =>
      intro chunk hchunk
      rwa [List.mem_singleton.mp hchunk]
  | between rest ih =>
      obtain ⟨hfront, hback⟩ := List.forall_mem_append.mp hrecords
      exact List.forall_mem_cons.mpr ⟨hfront, ih hback⟩
  | @inside front back record later chunks rest ih =>
      obtain ⟨hfront, hrest⟩ := List.forall_mem_append.mp hrecords
      obtain ⟨hextended, hback⟩ := List.forall_mem_cons.mp hrest
      rw [PeerRecord.peer_extend] at hextended
      have hrecord : record.peer.Reportable :=
        ⟨hextended.presharedKey_ne, hextended.lastHandshake_regular⟩
      have hmore : (PeerRecord.more record.peer.publicKey later).peer.Reportable :=
        ⟨nofun, nofun⟩
      refine List.forall_mem_cons.mpr ⟨?_, ih (List.forall_mem_cons.mpr ⟨hmore, hback⟩)⟩
      exact List.forall_mem_append.mpr ⟨hfront, List.forall_mem_singleton.mpr hrecord⟩

/-! Reading whole replies. -/

namespace Snapshot

theorem absorb_index (snapshot : Snapshot) (index : UInt32) :
    snapshot.absorb (view (.word32 DeviceAttribute.index index)) =
      .ok { snapshot with index := some index } :=
  congrArg (Except.map fun index => ({ snapshot with index := some index } : Snapshot))
    (Payload.word32_word32 index)

theorem absorb_publicKey (snapshot : Snapshot) (key : Key) :
    snapshot.absorb (view (.leaf DeviceAttribute.publicKey key.bytes)) =
      .ok { snapshot with publicKey := some key } :=
  congrArg (Except.map fun key => ({ snapshot with publicKey := some key } : Snapshot))
    (Payload.key_bytes key)

theorem readAll_index (snapshot : Snapshot) (index : Option UInt32) :
    readAll absorb snapshot (index.map (Attribute.word32 DeviceAttribute.index)).toList =
      .ok { snapshot with index := index.or snapshot.index } := by
  cases index with
  | none => rfl
  | some index => exact readAll_cons_of_ok (absorb_index snapshot index) []

theorem readAll_name (snapshot : Snapshot) {name : Option String}
    (hname : ∀ text ∈ name, '\x00' ∉ text.toList) :
    readAll absorb snapshot (name.map (Attribute.text DeviceAttribute.name)).toList =
      .ok { snapshot with name := name.or snapshot.name } := by
  cases name with
  | none => rfl
  | some name => exact readAll_cons_of_ok (absorb_name snapshot (hname name rfl)) []

theorem readAll_publicKey (snapshot : Snapshot) (key : Option Key) :
    readAll absorb snapshot
        (key.map fun key => .leaf DeviceAttribute.publicKey key.bytes).toList =
      .ok { snapshot with publicKey := key.or snapshot.publicKey } := by
  cases key with
  | none => rfl
  | some key => exact readAll_cons_of_ok (absorb_publicKey snapshot key) []

theorem readAll_settings {snapshot : Snapshot}
    (hname : ∀ name ∈ snapshot.name, '\x00' ∉ name.toList) :
    readAll absorb {} snapshot.settings = .ok { snapshot with peers := [] } := by
  rw [settings, readAll_append_of_ok (readAll_index _ _),
    readAll_append_of_ok (readAll_name _ hname), readAll_append_of_ok (readAll_privateKey _ _),
    readAll_append_of_ok (readAll_publicKey _ _), readAll_cons_of_ok (absorb_listenPort _ _),
    Option.or_none, Option.or_none, Option.or_none, Option.or_none]
  rfl

theorem readAll_peerAttributes (zeros : Bool) (snapshot : Snapshot) {records : List PeerRecord}
    (hrecords : ∀ record ∈ records, record.peer.Reportable)
    (hfits : FitsAll (peerAttributes zeros records)) :
    readAll absorb snapshot (peerAttributes zeros records) =
      .ok { snapshot with
        peers := Peer.joined snapshot.peers (records.map PeerRecord.peer) } :=
  readAll_peers snapshot hfits fun record hmem _ hrecord =>
    record.ofAttributes_attributes zeros (hrecords record hmem) hrecord.1

theorem foldl_joined (snapshot : Snapshot) (chunks : List (List PeerRecord)) :
    chunks.foldl (fun known chunk =>
        { known with peers := Peer.joined known.peers (chunk.map PeerRecord.peer) }) snapshot =
      { snapshot with
        peers := Peer.joined snapshot.peers (chunks.flatten.map PeerRecord.peer) } := by
  induction chunks generalizing snapshot with
  | nil => rfl
  | cons chunk chunks ih =>
      rw [List.foldl_cons, ih, List.flatten_cons, List.map_append, Peer.joined_append]

/-- However the records of a device are cut into the replies of a dump, the reader finds the
device. -/
theorem ofReplies_dump (zeros : Bool) (header : CommandHeader) (snapshot : Snapshot)
    (hname : ∀ name ∈ snapshot.name, '\x00' ∉ name.toList)
    (hapart : Peer.Apart snapshot.peers) (hpeers : ∀ peer ∈ snapshot.peers, peer.Reportable)
    {chunks : List (List PeerRecord)} (hcut : CutInto (snapshot.peers.map .first) chunks)
    (hfits : ∀ reply ∈ snapshot.dump zeros chunks, FitsAll reply) :
    ofReplies ((snapshot.dump zeros chunks).map fun reply => header.bytes ++ encodeAll reply) =
      .ok snapshot := by
  have hrecords : ∀ record ∈ snapshot.peers.map PeerRecord.first, record.peer.Reportable :=
    List.forall_mem_map.mpr hpeers
  have hreportable := hcut.reportable hrecords
  have hjoined := hcut.joined_eq []
  have hfirst : (snapshot.peers.map PeerRecord.first).map PeerRecord.peer = snapshot.peers :=
    List.map_map.trans (List.map_id _)
  rw [hfirst, Peer.joined_of_apart hapart] at hjoined
  cases chunks with
  | nil => exact absurd rfl hcut.ne_nil
  | cons chunk chunks =>
      obtain ⟨hchunk, hrest⟩ := List.forall_mem_cons.mp hreportable
      obtain ⟨hfit, hfitsRest⟩ := List.forall_mem_cons.mp hfits
      have hfitsChunks : ∀ chunk ∈ chunks, FitsAll (peerAttributes zeros chunk) :=
        List.forall_mem_map.mp hfitsRest
      obtain ⟨-, hfitPeers⟩ := fitsAll_append.mp hfit
      rw [ofReplies, dump, List.map_cons, List.foldlM_cons, absorbReply_append _ _ hfit,
        readAll_append_of_ok (readAll_settings hname),
        readAll_peerAttributes zeros _ hchunk hfitPeers, List.map_map]
      refine (foldlM_absorbReply header (fun chunk hmem snapshot =>
        readAll_peerAttributes zeros snapshot (hrest chunk hmem) (hfitsChunks chunk hmem))
        hfitsChunks _).trans ?_
      rw [foldl_joined, ← Peer.joined_append, ← List.map_append, ← List.flatten_cons, hjoined]

theorem ofReplies_dump_cut_peer :
    let near : Subnet := ⟨.v4 ⟨[10, 0, 0, 2], rfl⟩, 32⟩
    let far : Subnet := ⟨.v6 (Octets.zero 16), 64⟩
    let first : Peer :=
      { publicKey := ⟨List.replicate 32 1, rfl⟩
        presharedKey := some ⟨List.replicate 32 9, rfl⟩
        endpoint := some (.v6 (Octets.zero 16) 51820 7 3)
        keepalive := 25
        lastHandshake := some ⟨1700000000, 5⟩
        receivedBytes := 18446744073709551615
        allowedIps := [near, far] }
    let second : Peer := { publicKey := ⟨List.replicate 32 2, rfl⟩ }
    let snapshot : Snapshot :=
      { index := some 12, name := some "wg0", listenPort := 51820, peers := [first, second] }
    let chunks : List (List PeerRecord) :=
      [[.first { first with allowedIps := [near] }], [.more first.publicKey [far], .first second]]
    (∀ name ∈ snapshot.name, '\x00' ∉ name.toList) ∧ Peer.Apart snapshot.peers ∧
      (∀ peer ∈ snapshot.peers, peer.Reportable) ∧
      CutInto (snapshot.peers.map .first) chunks ∧
      (∀ reply ∈ snapshot.dump true chunks, FitsAll reply) ∧
      ofReplies ((snapshot.dump true chunks).map fun reply =>
        CommandHeader.bytes ⟨0, 1, 0⟩ ++ encodeAll reply) = .ok snapshot := by
  intro near far first second snapshot chunks
  have hname : ∀ name ∈ snapshot.name, '\x00' ∉ name.toList := by
    intro name hmem
    cases hmem
    decide
  have hapart : Peer.Apart snapshot.peers :=
    List.isChain_cons_cons.mpr ⟨by decide, List.isChain_singleton _⟩
  have hfirst : first.Reportable := by
    refine ⟨by decide, fun time htime => ?_⟩
    cases htime
    exact ⟨by decide, by decide, by decide⟩
  have hpeers : ∀ peer ∈ snapshot.peers, peer.Reportable :=
    List.forall_mem_cons.mpr ⟨hfirst, List.forall_mem_singleton.mpr ⟨nofun, nofun⟩⟩
  have hcut : CutInto (snapshot.peers.map .first) chunks :=
    @CutInto.inside [] [.first second] (.first { first with allowedIps := [near] }) [far] _
      (.whole _)
  have hfits : ∀ reply ∈ snapshot.dump true chunks, FitsAll reply := by
    refine List.forall_mem_cons.mpr ⟨?_, List.forall_mem_singleton.mpr ?_⟩
    · exact fitsAll_of_length_le _ (by decide +kernel)
    · exact fitsAll_of_length_le _ (by decide +kernel)
  exact ⟨hname, hapart, hpeers, hcut, hfits,
    ofReplies_dump true ⟨0, 1, 0⟩ snapshot hname hapart hpeers hcut hfits⟩

end Snapshot

end TunnelControl
