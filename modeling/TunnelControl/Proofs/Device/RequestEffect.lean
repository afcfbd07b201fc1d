import Mathlib.Logic.Function.Basic
import TunnelControl.Proofs.Device.Packing

/-!
What requests do to a device. The records of peers take effect in order, each on the peer with its
key alone. Spread over several requests they have the effect of the change at once, but for a peer
that is to be removed and whose record is cut: the pieces that follow do not say so, and the peer
is back.
-/

namespace TunnelControl

/-! Devices in the kernel. -/

structure KernelPeer where
  presharedKey : Key := Octets.zero 32
  keepalive : UInt16 := 0
  allowedIps : List Subnet := []

@[ext] structure KernelDevice where
  privateKey : Option Key
  listenPort : UInt16
  peers : Key → Option KernelPeer

namespace PeerChange

/-- What a record makes of the peer with its key. Nothing else in the record of a peer that is to
be removed counts. -/
def effect (record : PeerChange) (present : Option KernelPeer) : Option KernelPeer :=
  if record.remove then none
  else
    let peer := present.getD {}
    some {
      presharedKey := record.presharedKey.getD peer.presharedKey
      keepalive := record.keepalive.getD peer.keepalive
      allowedIps := peer.allowedIps ++ record.allowedIps }

def effectAt (key : Key) (present : Option KernelPeer) (record : PeerChange) :
    Option KernelPeer :=
  if record.publicKey = key then record.effect present else present

def outcome (key : Key) (present : Option KernelPeer) (records : List PeerChange) :
    Option KernelPeer :=
  records.foldl (effectAt key) present

end PeerChange

namespace KernelDevice

def take (device : KernelDevice) (record : PeerChange) : KernelDevice :=
  { device with
    peers := Function.update device.peers record.publicKey
      (record.effect (device.peers record.publicKey)) }

/-- A request sets what it has of the settings; then its records take effect. -/
def apply (device : KernelDevice) (request : DeviceChange) : KernelDevice :=
  request.peers.foldl take
    { device with
      privateKey := request.privateKey.or device.privateKey
      listenPort := request.listenPort.getD device.listenPort }

end KernelDevice

/-! Records with one key. -/

namespace PeerChange

variable {key : Key} {record : PeerChange}

theorem outcome_append (present : Option KernelPeer) (front back : List PeerChange) :
    outcome key present (front ++ back) = outcome key (outcome key present front) back :=
  List.foldl_append

theorem outcome_of_ne (present : Option KernelPeer) {records : List PeerChange}
    (h : ∀ record ∈ records, record.publicKey ≠ key) : outcome key present records = present := by
  induction records with
  | nil => rfl
  | cons first rest ih =>
      have hfirst : effectAt key present first = present := if_neg (h first List.mem_cons_self)
      have hrest := ih fun record hmem => h record (List.mem_cons_of_mem _ hmem)
      rw [outcome, List.foldl_cons, hfirst]
      exact hrest

theorem outcome_of_removed {records : List PeerChange}
    (h : ∃ record ∈ records, record.publicKey = key ∧ record.remove)
    (present other : Option KernelPeer) :
    outcome key present records = outcome key other records := by
  induction records generalizing present other with
  | nil => simp at h
  | cons first rest ih =>
      obtain ⟨record, hmem, hkey, hremove⟩ := h
      rcases List.mem_cons.mp hmem with rfl | hrest
      · have hnone (held : Option KernelPeer) : effectAt key held record = none := by
          rw [effectAt, if_pos hkey, effect, if_pos hremove]
        rw [outcome, outcome, List.foldl_cons, List.foldl_cons, hnone, hnone]
      · exact ih ⟨record, hrest, hkey, hremove⟩ _ _

def rangeCount (present : Option KernelPeer) : Nat :=
  (present.getD {}).allowedIps.length

theorem exists_rangeCount_outcome {records : List PeerChange}
    (h : ¬ ∃ record ∈ records, record.publicKey = key ∧ record.remove) :
    ∃ added, ∀ present,
      rangeCount (outcome key present records) = rangeCount present + added := by
  induction records with
  | nil => exact ⟨0, fun present => rfl⟩
  | cons first rest ih =>
      obtain ⟨added, hadded⟩ := ih fun ⟨record, hmem, hrecord⟩ =>
        h ⟨record, List.mem_cons_of_mem _ hmem, hrecord⟩
      by_cases hkey : first.publicKey = key
      · have hkept : ¬ first.remove = true := fun hremove =>
          h ⟨first, List.mem_cons_self, hkey, hremove⟩
        refine ⟨first.allowedIps.length + added, fun present => ?_⟩
        have hfirst : rangeCount (effectAt key present first) =
            rangeCount present + first.allowedIps.length := by
          rw [effectAt, if_pos hkey, effect, if_neg hkept]
          exact List.length_append
        have hrest := hadded (effectAt key present first)
        rw [outcome, List.foldl_cons]
        rw [outcome] at hrest
        omega
      · refine ⟨added, fun present => ?_⟩
        have hfirst : effectAt key present first = present := if_neg hkey
        rw [outcome, List.foldl_cons, hfirst]
        exact hadded present

/-! Pieces of a record. -/

theorem Pieces.publicKey_eq {pieces : List PeerChange} (h : Pieces record pieces) :
    ∀ piece ∈ pieces, piece.publicKey = record.publicKey := by
  induction h with
  | whole record =>
      intro piece hmem
      rw [List.mem_singleton.mp hmem]
  | cut nonempty rest ih =>
      intro piece hmem
      rcases List.mem_cons.mp hmem with rfl | hrest
      · rfl
      · exact ih piece hrest

theorem Pieces.outcome_eq {pieces : List PeerChange} (h : Pieces record pieces)
    (hkept : record.remove = false) (key : Key) (present : Option KernelPeer) :
    outcome key present pieces = effectAt key present record := by
  induction h generalizing present with
  | whole record => rfl
  | @cut record later pieces nonempty rest ih =>
      have hfirst : record.remove = false := hkept
      have hrest := ih rfl (effectAt key present record)
      have hboth : effectAt key (effectAt key present record)
          { record.continuation with allowedIps := later } =
            effectAt key present { record with allowedIps := record.allowedIps ++ later } := by
        by_cases hkey : record.publicKey = key
        · simp [effectAt, effect, continuation, hkey, hfirst]
        · simp [effectAt, continuation, hkey]
      exact hrest.trans hboth

theorem Pieces.rangeCount_of_remove {pieces : List PeerChange} (h : Pieces record pieces)
    (hremove : record.remove) (hcut : pieces.length ≠ 1) (present : Option KernelPeer) :
    0 < rangeCount (outcome record.publicKey present pieces) := by
  cases h with
  | whole => exact absurd rfl hcut
  | @cut first later pieces nonempty rest =>
      have hfirst : effectAt first.publicKey present first = none := by
        rw [effectAt, if_pos rfl, effect, if_pos hremove]
      have hnext : effectAt first.publicKey none
          { first.continuation with allowedIps := later } = some { allowedIps := later } :=
        if_pos rfl
      have hrest := rest.outcome_eq rfl first.publicKey none
      rw [hnext] at hrest
      have hboth : outcome first.publicKey present (first :: pieces) =
          some { allowedIps := later } := by
        rw [outcome, List.foldl_cons, hfirst]
        exact hrest
      rw [hboth]
      exact List.length_pos_iff.mpr nonempty

theorem Spread.exists_removed {peers records : List PeerChange} (h : Spread peers records)
    (hpeers : ∃ peer ∈ peers, peer.publicKey = key ∧ peer.remove) :
    ∃ record ∈ records, record.publicKey = key ∧ record.remove := by
  induction h with
  | nil => simp at hpeers
  | @cons peer peers pieces records first rest ih =>
      obtain ⟨removed, hmem, hkey, hremove⟩ := hpeers
      rcases List.mem_cons.mp hmem with rfl | hrest
      · cases first with
        | whole => exact ⟨removed, List.mem_cons_self, hkey, hremove⟩
        | @cut whole => exact ⟨whole, List.mem_cons_self, hkey, hremove⟩
      · obtain ⟨record, hrecord, hboth⟩ := ih ⟨removed, hrest, hkey, hremove⟩
        exact ⟨record, List.mem_append_right _ hrecord, hboth⟩

end PeerChange

/-! Peers that are to be removed. -/

namespace DeviceChange.Packing

open PeerChange

variable {packing : Packing} {key : Key} {peers : List PeerChange}

/-- A peer with the key that is to be removed and is cut is removed once more further behind. -/
def RemovalsHold (packing : Packing) (key : Key) (peers : List PeerChange) : Prop :=
  ∀ front peer back, peers = front ++ peer :: back → peer.publicKey = key → peer.remove →
    (front.foldl add packing).Cuts peer →
      ∃ later ∈ back, later.publicKey = key ∧ later.remove

theorem removalsHold_cons {first : PeerChange} :
    packing.RemovalsHold key (first :: peers) ↔
      (first.publicKey = key → first.remove → packing.Cuts first →
        ∃ later ∈ peers, later.publicKey = key ∧ later.remove) ∧
      (packing.add first).RemovalsHold key peers := by
  constructor
  · intro h
    refine ⟨h [] first peers rfl, ?_⟩
    intro front peer back hsplit
    exact h (first :: front) peer back (congrArg (first :: ·) hsplit)
  · rintro ⟨hfirst, hrest⟩ front peer back hsplit
    cases front with
    | nil =>
        obtain ⟨rfl, rfl⟩ := List.cons.inj hsplit
        exact hfirst
    | cons other front =>
        obtain ⟨rfl, hback⟩ := List.cons.inj hsplit
        exact hrest front peer back hback

theorem removalsHold_of_kept
    (h : ¬ ∃ peer ∈ peers, peer.publicKey = key ∧ peer.remove) :
    packing.RemovalsHold key peers := by
  intro front peer back hsplit hkey hremove
  refine absurd ⟨peer, ?_, hkey, hremove⟩ h
  rw [hsplit]
  exact List.mem_append_right front List.mem_cons_self

/-- The last record with a key decides on it if it is one that removes the peer. -/
theorem removalsHold_iff_of_last {front back : List PeerChange} {peer : PeerChange}
    (hremove : peer.remove) (hlast : ∀ later ∈ back, later.publicKey ≠ peer.publicKey) :
    packing.RemovalsHold peer.publicKey (front ++ peer :: back) ↔
      ¬ (front.foldl add packing).Cuts peer := by
  induction front generalizing packing with
  | nil =>
      have hnone : ¬ ∃ later ∈ back, later.publicKey = peer.publicKey ∧ later.remove :=
        fun ⟨later, hmem, hkey, _⟩ => hlast later hmem hkey
      rw [List.nil_append, removalsHold_cons]
      constructor
      · intro hholds hcuts
        exact hnone (hholds.1 rfl hremove hcuts)
      · intro hwhole
        exact ⟨fun _ _ hcuts => absurd hcuts hwhole, removalsHold_of_kept hnone⟩
  | cons first front ih =>
      rw [List.cons_append, removalsHold_cons, ih]
      refine and_iff_right fun _ _ _ => ⟨peer, ?_, rfl, hremove⟩
      exact List.mem_append_right front List.mem_cons_self

theorem outcome_pieces {peer : PeerChange} {pieces : List PeerChange}
    (hpieces : Pieces peer pieces) (hlength : pieces.length = 1 ↔ ¬ packing.Cuts peer)
    (hplain : ¬ (peer.publicKey = key ∧ peer.remove = true ∧ packing.Cuts peer))
    (present : Option KernelPeer) :
    outcome key present pieces = effectAt key present peer := by
  by_cases hkey : peer.publicKey = key
  · by_cases hremove : peer.remove = true
    · have hwhole : pieces.length = 1 :=
        hlength.mpr fun hcuts => hplain ⟨hkey, hremove, hcuts⟩
      rw [hpieces.eq_singleton hwhole]
      rfl
    · exact hpieces.outcome_eq (Bool.eq_false_iff.mpr hremove) key present
  · rw [effectAt, if_neg hkey]
    apply outcome_of_ne
    intro piece hmem
    rwa [hpieces.publicKey_eq piece hmem]

theorem outcome_cut_ne {peer : PeerChange} {pieces records : List PeerChange}
    (hpieces : Pieces peer pieces) (hkey : peer.publicKey = key) (hremove : peer.remove)
    (hcut : pieces.length ≠ 1)
    (hkept : ¬ ∃ later ∈ peers, later.publicKey = key ∧ later.remove)
    (hrest : ∀ held, outcome key held records = outcome key held peers)
    (present : Option KernelPeer) :
    outcome key (outcome key present pieces) records ≠
      outcome key (effectAt key present peer) peers := by
  subst hkey
  intro hsame
  -- the peer is back with allowed addresses that the whole change does not give it
  obtain ⟨added, hcount⟩ := exists_rangeCount_outcome hkept
  have hpositive := hpieces.rangeCount_of_remove hremove hcut present
  have hgone : effectAt peer.publicKey present peer = none := by
    rw [effectAt, if_pos rfl, effect, if_pos hremove]
  have hnone : rangeCount none = 0 := rfl
  rw [hrest, hgone] at hsame
  have hcounts := congrArg rangeCount hsame
  rw [hcount, hcount] at hcounts
  omega

/-- The records of the requests and the records of the change leave the same of each peer exactly
if its removals hold. -/
theorem outcome_foldl (h : packing.Holds 0) (key : Key) (peers : List PeerChange) :
    ∃ records, (peers.foldl add packing).records = packing.records ++ records ∧
      Spread peers records ∧
      ∀ present, outcome key present records = outcome key present peers ↔
        packing.RemovalsHold key peers := by
  induction peers generalizing packing with
  | nil =>
      refine ⟨[], (List.append_nil _).symm, .nil, fun present => iff_of_true rfl ?_⟩
      exact removalsHold_of_kept (by simp)
  | cons peer peers ih =>
      obtain ⟨pieces, hadded, hpieces, hlength⟩ := records_add h peer
      obtain ⟨records, hrecords, hspread, heffect⟩ := ih (h.add peer)
      refine ⟨pieces ++ records, ?_, .cons hpieces hspread, fun present => ?_⟩
      · rw [List.foldl_cons, hrecords, hadded, List.append_assoc]
      rw [outcome_append, removalsHold_cons]
      have hwhole : outcome key present (peer :: peers) =
          outcome key (effectAt key present peer) peers := rfl
      rw [hwhole]
      by_cases hharm : peer.publicKey = key ∧ peer.remove = true ∧ packing.Cuts peer
      · obtain ⟨hkey, hremove, hcuts⟩ := hharm
        by_cases hlater : ∃ later ∈ peers, later.publicKey = key ∧ later.remove
        · rw [outcome_of_removed (hspread.exists_removed hlater) _ (effectAt key present peer)]
          exact (heffect _).trans (and_iff_right fun _ _ _ => hlater).symm
        · refine iff_of_false ?_ fun hholds => hlater (hholds.1 hkey hremove hcuts)
          have hrest (held : Option KernelPeer) :=
            (heffect held).mpr (removalsHold_of_kept hlater)
          exact outcome_cut_ne hpieces hkey hremove (mt hlength.mp (not_not_intro hcuts)) hlater
            hrest present
      · rw [outcome_pieces hpieces hlength hharm]
        refine (heffect _).trans (and_iff_right ?_).symm
        exact fun hkey hremove hcuts => absurd ⟨hkey, hremove, hcuts⟩ hharm

end DeviceChange.Packing

/-! Whole devices. -/

namespace KernelDevice

open PeerChange

theorem peers_foldl_take (device : KernelDevice) (records : List PeerChange) (key : Key) :
    (records.foldl take device).peers key = outcome key (device.peers key) records := by
  induction records generalizing device with
  | nil => rfl
  | cons record records ih =>
      have hfirst : (device.take record).peers key = effectAt key (device.peers key) record := by
        by_cases hkey : record.publicKey = key
        · rw [effectAt, if_pos hkey, take, hkey]
          exact Function.update_self _ _ _
        · rw [effectAt, if_neg hkey, take]
          exact Function.update_of_ne (Ne.symm hkey) _ _
      rw [List.foldl_cons, ih, hfirst]
      rfl

theorem settings_foldl_take (device : KernelDevice) (records : List PeerChange) :
    (records.foldl take device).privateKey = device.privateKey ∧
      (records.foldl take device).listenPort = device.listenPort := by
  induction records generalizing device with
  | nil => exact ⟨rfl, rfl⟩
  | cons record records ih => exact ih (device.take record)

theorem peers_apply (device : KernelDevice) (request : DeviceChange) (key : Key) :
    (device.apply request).peers key = outcome key (device.peers key) request.peers :=
  peers_foldl_take _ _ _

theorem peers_foldl_apply (device : KernelDevice) (requests : List DeviceChange) (key : Key) :
    (requests.foldl apply device).peers key =
      outcome key (device.peers key) (requests.flatMap (·.peers)) := by
  induction requests generalizing device with
  | nil => rfl
  | cons request requests ih =>
      rw [List.foldl_cons, ih, peers_apply, List.flatMap_cons, outcome_append]

theorem privateKey_apply (device : KernelDevice) (request : DeviceChange) :
    (device.apply request).privateKey = request.privateKey.or device.privateKey :=
  (settings_foldl_take _ _).1

theorem listenPort_apply (device : KernelDevice) (request : DeviceChange) :
    (device.apply request).listenPort = request.listenPort.getD device.listenPort :=
  (settings_foldl_take _ _).2

theorem settings_foldl_noSettings (device : KernelDevice) {requests : List DeviceChange}
    (h : ∀ request ∈ requests, request.settings = DeviceChange.noSettings) :
    (requests.foldl apply device).privateKey = device.privateKey ∧
      (requests.foldl apply device).listenPort = device.listenPort := by
  induction requests generalizing device with
  | nil => exact ⟨rfl, rfl⟩
  | cons request requests ih =>
      obtain ⟨hkey, hport, -⟩ := DeviceChange.mk.inj (h request List.mem_cons_self)
      obtain ⟨hkeys, hports⟩ := ih (device.apply request)
        fun other hmem => h other (List.mem_cons_of_mem _ hmem)
      rw [List.foldl_cons, hkeys, hports, privateKey_apply, listenPort_apply, hkey, hport]
      exact ⟨rfl, rfl⟩

theorem settings_foldl_requests (device : KernelDevice) (change : DeviceChange) :
    (change.requests.foldl apply device).privateKey = (device.apply change).privateKey ∧
      (change.requests.foldl apply device).listenPort = (device.apply change).listenPort := by
  obtain ⟨request, requests, hrequests, hfirst, hrest⟩ := change.requests_eq_cons
  obtain ⟨hkey, hport, -⟩ := DeviceChange.mk.inj hfirst
  obtain ⟨hkeys, hports⟩ := settings_foldl_noSettings (device.apply request) hrest
  rw [hrequests, List.foldl_cons, hkeys, hports, privateKey_apply, listenPort_apply,
    privateKey_apply, listenPort_apply, hkey, hport]
  exact ⟨rfl, rfl⟩

theorem outcome_requests (change : DeviceChange) (key : Key) (present : Option KernelPeer) :
    outcome key present (change.requests.flatMap (·.peers)) = outcome key present change.peers ↔
      change.start.RemovalsHold key change.peers := by
  obtain ⟨records, hrecords, -, heffect⟩ :=
    DeviceChange.Packing.outcome_foldl (DeviceChange.Packing.holds_start change) key change.peers
  have hall : change.requests.flatMap (·.peers) = records := hrecords
  rw [hall]
  exact heffect present

/-- The requests of a change have its effect exactly if each peer that is to be removed and whose
record is cut is removed once more by a later record. A peer that the last record with its key
removes is gone exactly if that record is not cut. -/
theorem foldl_apply_requests_iff (change : DeviceChange) (device : KernelDevice) :
    (change.requests.foldl apply device = device.apply change ↔
      ∀ front peer back, change.peers = front ++ peer :: back → peer.remove →
        (front.foldl DeviceChange.Packing.add change.start).Cuts peer →
          ∃ later ∈ back, later.publicKey = peer.publicKey ∧ later.remove) ∧
    ∀ front peer back, change.peers = front ++ peer :: back → peer.remove →
      (∀ later ∈ back, later.publicKey ≠ peer.publicKey) →
        ((change.requests.foldl apply device).peers peer.publicKey = none ↔
          ¬ (front.foldl DeviceChange.Packing.add change.start).Cuts peer) := by
  refine ⟨⟨?_, ?_⟩, ?_⟩
  · intro hsame front peer back hsplit
    have hkey := congrFun (congrArg KernelDevice.peers hsame) peer.publicKey
    rw [peers_foldl_apply, peers_apply] at hkey
    exact (outcome_requests change peer.publicKey _).mp hkey front peer back hsplit rfl
  · intro hholds
    obtain ⟨hprivate, hport⟩ := settings_foldl_requests device change
    refine KernelDevice.ext hprivate hport (funext fun key => ?_)
    rw [peers_foldl_apply, peers_apply]
    apply (outcome_requests change key _).mpr
    rintro front peer back hsplit rfl
    exact hholds front peer back hsplit
  · intro front peer back hsplit hremove hlast
    have hgone : outcome peer.publicKey (device.peers peer.publicKey) change.peers = none := by
      rw [hsplit, outcome_append, outcome, List.foldl_cons, effectAt, if_pos rfl, effect,
        if_pos hremove]
      exact outcome_of_ne _ hlast
    rw [peers_foldl_apply, ← hgone, outcome_requests, hsplit]
    exact DeviceChange.Packing.removalsHold_iff_of_last hremove hlast

/-- A peer that is to be removed is created anew if it comes with too many allowed addresses. -/
theorem removed_peer_is_back :
    let peer : PeerChange :=
      { publicKey := Octets.zero 32
        allowedIps := List.replicate 2339 ⟨.v4 (Octets.zero 4), 32⟩
        remove := true }
    let change : DeviceChange := { peers := [peer] }
    let device : KernelDevice := ⟨none, 0, fun _ => none⟩
    (change.requests.foldl apply device).peers peer.publicKey ≠ none ∧
      (device.apply change).peers peer.publicKey = none := by
  intro peer change device
  have hcuts : change.start.Cuts peer := by
    have hcost : Subnet.totalCost peer.allowedIps = 2339 * 28 := by
      rw [Subnet.totalCost, List.map_replicate, List.sum_replicate_nat]
      rfl
    have hbase : peer.baseCost = 52 := rfl
    have hused : (change.start.before peer).used = 0 := rfl
    rw [DeviceChange.Packing.Cuts, PeerChange.cost, hused, hbase, hcost]
    decide
  have hback := (foldl_apply_requests_iff change device).2 [] peer [] rfl rfl
    (fun later hmem => absurd hmem List.not_mem_nil)
  refine ⟨fun hnone => hback.mp hnone hcuts, ?_⟩
  rw [peers_apply]
  rfl

end KernelDevice

end TunnelControl
