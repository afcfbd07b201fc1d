import Mathlib.Algebra.Order.BigOperators.Group.List
import Mathlib.Algebra.Order.Group.Nat
import Mathlib.Algebra.Ring.Nat
import TunnelControl.Device.Channel
import TunnelControl.Proofs.Device.Packing
import TunnelControl.Proofs.Netlink.Command
import TunnelControl.Proofs.Netlink.ExchangeRun

/-!
The size of the requests that a change is spread over. The room that is counted for a record
bounds its encoding, so every length in a request can be stated, but for that of a device's name
that is too long.
-/

namespace TunnelControl

open Netlink Netlink.Attribute

namespace Netlink.Attribute

mutual

theorem fits_of_length_le (item : Attribute) (h : item.encode.length ≤ attributeLimit) :
    item.Fits := by
  cases item with
  | leaf type payload =>
      rw [length_encode_leaf] at h
      exact Nat.le_trans (Bytes.le_align _) h
  | nest type children =>
      rw [length_encode_nest] at h
      exact ⟨fitsAll_of_length_le children (by omega), h⟩

theorem fitsAll_of_length_le (items : List Attribute)
    (h : (encodeAll items).length ≤ attributeLimit) : FitsAll items := by
  cases items with
  | nil => trivial
  | cons first rest =>
      rw [encodeAll, List.length_append] at h
      exact ⟨fits_of_length_le first (by omega), fitsAll_of_length_le rest (by omega)⟩

end

theorem length_text (value : String) :
    attributeHeader + (Utf8.encode value ++ [0]).length = value.utf8ByteSize + 5 := by
  rw [List.length_append, Utf8.length_encode, List.length_singleton, attributeHeader]
  omega

theorem fits_text_iff (type : UInt16) (value : String) :
    (Attribute.text type value).Fits ↔ value.utf8ByteSize ≤ 65530 := by
  rw [Attribute.text, Fits, length_text, attributeLimit]
  omega

theorem overflowAll?_text_cons (type : UInt16) {value : String}
    (h : 65530 < value.utf8ByteSize) (rest : List Attribute) :
    overflowAll? (.text type value :: rest) = some (value.utf8ByteSize + 5) := by
  rw [overflowAll?, Attribute.text, overflow?, length_text, excess?,
    if_neg (by unfold attributeLimit; omega)]
  rfl

theorem length_encode_le_of_fits {item : Attribute} (h : item.Fits) :
    item.encode.length ≤ attributeLimit + 1 := by
  cases item with
  | leaf type payload =>
      rw [length_encode_leaf]
      unfold Fits attributeHeader attributeLimit at *
      unfold Bytes.align
      omega
  | nest type children =>
      rw [length_encode_nest]
      exact Nat.le_succ_of_le h.2

theorem length_encodeAll_le_of_fits {items : List Attribute} (h : FitsAll items) :
    (encodeAll items).length ≤ (attributeLimit + 1) * items.length := by
  induction items with
  | nil => exact Nat.zero_le _
  | cons first rest ih =>
      have hfirst := length_encode_le_of_fits h.1
      have hrest := ih h.2
      rw [encodeAll, List.length_append, List.length_cons, Nat.mul_succ]
      omega

section Places

variable {α : Type} {build : Nat → α → Attribute}

theorem length_encodeAll_mapIdx {size : α → Nat}
    (h : ∀ place value, (build place value).encode.length = size value) (values : List α) :
    (encodeAll (values.mapIdx build)).length = (values.map size).sum := by
  induction values generalizing build with
  | nil => rfl
  | cons value values ih =>
      have hfirst := h 0 value
      have hrest := ih fun place => h (place + 1)
      rw [List.mapIdx_cons, encodeAll, List.length_append, List.map_cons, List.sum_cons, hfirst,
        hrest]

theorem le_length_encodeAll_mapIdx {size : Nat}
    (h : ∀ place value, size ≤ (build place value).encode.length) (values : List α) :
    size * values.length ≤ (encodeAll (values.mapIdx build)).length := by
  induction values generalizing build with
  | nil => exact Nat.zero_le _
  | cons value values ih =>
      have hfirst := h 0 value
      have hrest := ih fun place => h (place + 1)
      rw [List.mapIdx_cons, encodeAll, List.length_append, List.length_cons, Nat.mul_succ]
      omega

end Places

/-- The types of the attributes are their places, which a reader gets back as they are. -/
def Numbered (items : List Attribute) : Prop :=
  items.length ≤ 2 ^ 14 ∧ items.map (·.view.type.toNat) = List.range items.length

private theorem toNat_masked {place : Nat} (h : place < 2 ^ 14) :
    (UInt16.ofNat place &&& typeMask).toNat = place := by
  have hplace : (UInt16.ofNat place).toNat = place := by
    rw [UInt16.toNat_ofNat']
    omega
  rw [masked_of_lt (by rwa [hplace]), hplace]

theorem numbered_mapIdx {α : Type} {build : Nat → α → Attribute}
    (h : ∀ place value, (build place value).view.type = UInt16.ofNat place &&& typeMask)
    {values : List α} (hlength : values.length ≤ 2 ^ 14) : Numbered (values.mapIdx build) := by
  refine ⟨by rwa [List.length_mapIdx], List.ext_getElem (by simp) ?_⟩
  intro place hplace _
  rw [List.length_map, List.length_mapIdx] at hplace
  rw [List.getElem_map, List.getElem_mapIdx, List.getElem_range, h]
  exact toNat_masked (by omega)

end Netlink.Attribute

/-! Sizes of records. -/

theorem Subnet.length_encode_attributeAt (place : Nat) (subnet : Subnet) :
    (subnet.attributeAt place).encode.length = subnet.cost := by
  have hfamily : (Bytes.word16 subnet.address.family.code).length = 2 := Bytes.length_word16 _
  have hchildren : attributeCost (attributeCost 2 +
      attributeCost subnet.address.family.size + attributeCost 1) =
        attributeHeader + (attributeCost 2 +
          attributeCost subnet.address.family.size + attributeCost 1) := by
    cases subnet.address.family <;> rfl
  rw [Subnet.attributeAt, length_encode_nest, Subnet.cost, hchildren]
  simp only [encodeAll, Attribute.word16, Attribute.byte, List.length_append, List.length_nil,
    length_encode_leaf, hfamily, Address.length_bytes, attributeCost, List.length_singleton]
  omega

namespace PeerChange

/-- The room counted for a record is what its attribute takes; it counts the header of a list of
allowed addresses even where there is none. -/
theorem length_encode_attributeAt (place : Nat) (record : PeerChange) :
    (record.attributeAt place).encode.length +
      (if record.allowedIps = [] then attributeHeader else 0) = record.cost := by
  have hranges := length_encodeAll_mapIdx (fun place => Subnet.length_encode_attributeAt place)
    record.allowedIps
  have hpublic := record.publicKey.size_eq
  have hflags : (encodeAll (if record.remove then
      [.word32 PeerAttribute.flags removeFlag] else [])).length =
        if record.remove then attributeCost 4 else 0 := by
    cases record.remove <;> rfl
  have hshared : (encodeAll (record.presharedKey.map fun key =>
      Attribute.leaf PeerAttribute.presharedKey key.bytes).toList).length =
        if record.presharedKey.isSome then attributeCost 32 else 0 := by
    cases record.presharedKey with
    | none => rfl
    | some key => simp [encodeAll, attributeCost, key.size_eq]
  have hkeepalive : (encodeAll (record.keepalive.map
      (Attribute.word16 PeerAttribute.keepalive)).toList).length =
        if record.keepalive.isSome then attributeCost 2 else 0 := by
    cases record.keepalive with
    | none => rfl
    | some seconds => simp [encodeAll, attributeCost, Attribute.word16]
  have hlist : (encodeAll (if record.allowedIps = [] then []
      else [.nest PeerAttribute.allowedIps
        (record.allowedIps.mapIdx Subnet.attributeAt)])).length +
        (if record.allowedIps = [] then attributeHeader else 0) =
          attributeHeader + Subnet.totalCost record.allowedIps := by
    split
    · rename_i hempty
      rw [hempty]
      rfl
    · simp only [encodeAll, List.append_nil, length_encode_nest, hranges]
      rfl
  rw [attributeAt, length_encode_nest]
  simp only [attributes, encodeAll, encodeAll_append, List.length_append, length_encode_leaf,
    hpublic, hflags, hshared, hkeepalive, cost, baseCost, attributeCost] at hlist ⊢
  omega

theorem length_allowedIps_le {record : PeerChange} (h : record.cost ≤ DeviceChange.budget) :
    record.allowedIps.length ≤ 2 ^ 14 := by
  have hranges : 28 * record.allowedIps.length ≤ Subnet.totalCost record.allowedIps := by
    rw [Subnet.totalCost,
      ← length_encodeAll_mapIdx fun place => Subnet.length_encode_attributeAt place]
    exact le_length_encodeAll_mapIdx
      (fun place subnet => by
        rw [Subnet.length_encode_attributeAt]
        exact subnet.cost_bounds.1) _
  simp only [cost, DeviceChange.budget, attributeLimit, attributeHeader] at h
  omega

end PeerChange

namespace DeviceChange

/-! Sizes of requests. -/

variable {part : DeviceChange}

theorem length_encodeAll_peers_le (hcost : part.cost ≤ budget) :
    (encodeAll (part.peers.mapIdx PeerChange.attributeAt)).length ≤ budget := by
  let size (record : PeerChange) :=
    record.cost - if record.allowedIps = [] then attributeHeader else 0
  have hsize : ∀ place record, (PeerChange.attributeAt place record).encode.length =
      size record := by
    intro place record
    have hlength := record.length_encode_attributeAt place
    simp only [size]
    omega
  rw [length_encodeAll_mapIdx hsize]
  exact Nat.le_trans (List.sum_le_sum fun record _ => Nat.sub_le _ _) hcost

theorem length_peers_le (hcost : part.cost ≤ budget) : part.peers.length ≤ 2 ^ 14 := by
  have hleast : ∀ place record, 40 ≤ (PeerChange.attributeAt place record).encode.length := by
    intro place record
    have hlength := record.length_encode_attributeAt place
    have hbase := record.baseCost_bounds
    unfold PeerChange.cost attributeHeader at hlength
    split at hlength <;> omega
  have hpeers := le_length_encodeAll_mapIdx hleast part.peers
  have hbudget := length_encodeAll_peers_le hcost
  simp only [budget, attributeLimit, attributeHeader] at hbudget
  omega

theorem cost_le_of_mem (hcost : part.cost ≤ budget) {record : PeerChange}
    (hmem : record ∈ part.peers) : record.cost ≤ budget :=
  Nat.le_trans (List.single_le_sum (fun _ _ => Nat.zero_le _) _ (List.mem_map_of_mem hmem)) hcost

theorem fits_peers (hcost : part.cost ≤ budget) :
    (Attribute.nest DeviceAttribute.peers (part.peers.mapIdx PeerChange.attributeAt)).Fits := by
  apply fits_of_length_le
  have hpeers := length_encodeAll_peers_le hcost
  simp only [budget, attributeLimit, attributeHeader] at hpeers ⊢
  rw [length_encode_nest, attributeHeader]
  omega

/-- The attributes of a request behind the name of the device. -/
def unnamed (part : DeviceChange) : List Attribute :=
  (part.privateKey.map fun key => .leaf DeviceAttribute.privateKey key.bytes).toList ++
    (part.listenPort.map (.word16 DeviceAttribute.listenPort)).toList ++
    if part.peers = [] then []
    else [.nest DeviceAttribute.peers (part.peers.mapIdx PeerChange.attributeAt)]

theorem attributes_eq_cons (part : DeviceChange) (name : String) :
    part.attributes name = .text DeviceAttribute.name name :: part.unnamed := rfl

theorem fitsAll_unnamed (hcost : part.cost ≤ budget) : FitsAll part.unnamed := by
  rw [fitsAll_iff]
  intro item hmem
  rcases List.mem_append.mp hmem with hsettings | hpeers
  · rcases List.mem_append.mp hsettings with hkey | hport
    · obtain ⟨key, -, rfl⟩ := Option.map_eq_some_iff.mp (Option.mem_toList.mp hkey)
      rw [Fits, key.size_eq]
      decide
    · obtain ⟨port, -, rfl⟩ := Option.map_eq_some_iff.mp (Option.mem_toList.mp hport)
      rw [Attribute.word16, Fits, Bytes.length_word16]
      decide
  · split at hpeers
    · cases hpeers
    · rw [List.mem_singleton.mp hpeers]
      exact fits_peers hcost

theorem fitsAll_attributes_iff (hcost : part.cost ≤ budget) (name : String) :
    FitsAll (part.attributes name) ↔ name.utf8ByteSize ≤ 65530 := by
  have hrest := fitsAll_unnamed hcost
  rw [attributes_eq_cons, FitsAll, fits_text_iff]
  exact and_iff_left hrest

theorem length_unnamed_le (part : DeviceChange) : part.unnamed.length ≤ 3 := by
  unfold unnamed
  cases part.privateKey <;> cases part.listenPort <;> split <;> simp

theorem finish_attributes_eq_ok_iff (hcost : part.cost ≤ budget) (name : String)
    (type flags : UInt16) (command version : UInt8) :
    (∃ frame, (Socket.commanded (.start type flags) command version
      (part.attributes name)).finish = .ok frame) ↔ name.utf8ByteSize ≤ 65530 := by
  rw [Socket.finish_commanded_eq_ok_iff, fitsAll_attributes_iff hcost]
  refine ⟨And.left, fun hname => ⟨hname, ?_⟩⟩
  have hfits := (fitsAll_attributes_iff hcost name).mpr hname
  have hlength := length_encodeAll_le_of_fits hfits
  have hcount := part.length_unnamed_le
  rw [attributes_eq_cons, List.length_cons, attributeLimit] at hlength
  rw [attributes_eq_cons, Header.size, CommandHeader.size, UInt32.size]
  omega

end DeviceChange

namespace Netlink.Socket

open Exchange

variable (family : FamilyInfo) (name : String)

/-! Sending the requests. -/

theorem applyRequests_error (hname : name.utf8ByteSize ≤ 65530) {parts : List DeviceChange}
    (hcost : ∀ part ∈ parts, part.cost ≤ DeviceChange.budget) {socket : Socket} {error : Error}
    (h : ((applyRequests family name parts).run socket).1 = .error error) :
    error.isFraming = false := by
  induction parts generalizing socket with
  | nil => cases h
  | cons part parts ih =>
      obtain ⟨frame, hframe⟩ := (finish_stamped_eq_ok_iff socket _).mpr
        ((DeviceChange.finish_attributes_eq_ok_iff (hcost part List.mem_cons_self) name family.id
          (Flag.request ||| Flag.acknowledge) TunnelFamily.setDevice TunnelFamily.version).mpr hname)
      rw [applyRequests] at h
      rcases hrun : (command family.id TunnelFamily.setDevice TunnelFamily.version
        (part.attributes name)).run socket with ⟨outcome, after⟩
      cases outcome with
      | error fault =>
          rw [run_bind_of_error hrun] at h
          cases h
          exact Error.isFraming_eq_false (request_error hframe (congrArg Prod.fst hrun))
      | ok =>
          rw [run_bind_of_ok hrun] at h
          exact ih (fun other hmem => hcost other (List.mem_cons_of_mem _ hmem)) h

theorem run_applyRequests_of_long_name (hname : 65530 < name.utf8ByteSize) (part : DeviceChange)
    (parts : List DeviceChange) (socket : Socket) :
    (applyRequests family name (part :: parts)).run socket =
      (.error (.invalidAttribute (.oversized (name.utf8ByteSize + 5))),
        { socket with sequence := socket.sequence + 1 }) := by
  have hexcess : overflowAll? (part.attributes name) = some (name.utf8ByteSize + 5) :=
    overflowAll?_text_cons DeviceAttribute.name hname part.unnamed
  have hoversized : (socket.stamped (commanded (.acknowledged family.id) TunnelFamily.setDevice
      TunnelFamily.version (part.attributes name))).oversized =
        some (name.utf8ByteSize + 5) := by
    rw [oversized_stamped, Draft.acknowledged, oversized_commanded, hexcess]
  have hrun := run_request_of_finish_error (Draft.finish_of_oversized hoversized)
  exact run_bind_of_error hrun

end Netlink.Socket

/-- Each request of a change leaves the peers within their room, so all lengths in it but that of
the device's name can be stated and the places of peers and allowed addresses are plain types. A
change therefore meets a length that cannot be stated before its first request is sent, if the name
is too long, and never afterwards. -/
theorem DeviceChange.requests_can_be_written (change : DeviceChange) (name : String) :
    (∀ part ∈ change.requests,
      (encodeAll (part.peers.mapIdx PeerChange.attributeAt)).length ≤ 65531 ∧
      (Attribute.nest DeviceAttribute.peers
        (part.peers.mapIdx PeerChange.attributeAt)).Fits ∧
      Numbered (part.peers.mapIdx PeerChange.attributeAt) ∧
      (∀ peer ∈ part.peers, Numbered (peer.allowedIps.mapIdx Subnet.attributeAt)) ∧
      ∀ type flags command version,
        (∃ frame, (Socket.commanded (.start type flags) command version
          (part.attributes name)).finish = .ok frame) ↔ name.utf8ByteSize ≤ 65530) ∧
    ∀ family socket,
      (65530 < name.utf8ByteSize →
        (Socket.applyChange family name change).run socket =
          (.error (.invalidAttribute (.oversized (name.utf8ByteSize + 5))),
            { socket with sequence := socket.sequence + 1 })) ∧
      (name.utf8ByteSize ≤ 65530 → ∀ error,
        ((Socket.applyChange family name change).run socket).1 = .error error →
          error.isFraming = false) := by
  have hcost := change.requests_cost_le
  refine ⟨?_, ?_⟩
  · intro part hmem
    have hpart := hcost part hmem
    refine ⟨length_encodeAll_peers_le hpart, fits_peers hpart,
      numbered_mapIdx (fun _ _ => rfl) (length_peers_le hpart), ?_, ?_⟩
    · intro peer hpeer
      exact numbered_mapIdx (fun _ _ => rfl)
        (PeerChange.length_allowedIps_le (cost_le_of_mem hpart hpeer))
    · intro type flags command version
      exact finish_attributes_eq_ok_iff hpart name type flags command version
  · intro family socket
    refine ⟨?_, ?_⟩
    · intro hname
      obtain ⟨part, parts, hrequests, -⟩ := change.requests_eq_cons
      rw [Socket.applyChange, hrequests]
      exact Socket.run_applyRequests_of_long_name family name hname part parts socket
    · intro hname error herror
      exact Socket.applyRequests_error family name hname hcost herror

end TunnelControl
