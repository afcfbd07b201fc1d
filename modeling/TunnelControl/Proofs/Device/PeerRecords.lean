import TunnelControl.Proofs.Device.RequestReading

namespace TunnelControl

open Netlink Netlink.Attribute

def Netlink.Attribute.View.peerRecords (view : View) : List (List View) :=
  if view.type = DeviceAttribute.peers then
    (views view.payload).map fun entry => views entry.payload
  else []

/-- What stands in the records of peers in a request, one list for each record. -/
def peerRecords (request : Bytes) : List (List View) :=
  (views (request.drop CommandHeader.size)).flatMap View.peerRecords

namespace PeerChange

theorem views_records {records : List PeerChange} (hfits : FitsAll (records.mapIdx attributeAt)) :
    (views (encodeAll (records.mapIdx attributeAt))).map (fun entry => views entry.payload) =
      records.map fun record => record.attributes.map view := by
  rw [views_encodeAll hfits, List.map_map]
  apply List.ext_getElem
  · simp
  · intro place hleft hright
    have hrecord : place < (records.mapIdx attributeAt).length := by simpa using hleft
    have hinside := (fitsAll_iff _).mp hfits _ (List.getElem_mem hrecord)
    rw [List.getElem_mapIdx] at hinside
    simpa [attributeAt, view] using views_encodeAll hinside.1

theorem types_attributes (record : PeerChange) :
    (record.attributes.map view).map (·.type) =
      PeerAttribute.publicKey ::
        ((if record.remove then [PeerAttribute.flags] else []) ++
          (record.presharedKey.map fun _ => PeerAttribute.presharedKey).toList ++
          (record.keepalive.map fun _ => PeerAttribute.keepalive).toList ++
          if record.allowedIps = [] then [] else [PeerAttribute.allowedIps]) := by
  obtain ⟨key, shared, keepalive, ranges, remove⟩ := record
  cases shared <;> cases keepalive <;> cases ranges <;> cases remove <;> rfl

theorem flags_notMem {record : PeerChange} (hremove : record.remove = false) :
    ∀ found ∈ record.attributes.map view, found.type ≠ PeerAttribute.flags := by
  intro found hmem htype
  have htypes := List.mem_map_of_mem (f := View.type) hmem
  rw [types_attributes, htype, hremove] at htypes
  simp [PeerAttribute.publicKey, PeerAttribute.flags, PeerAttribute.presharedKey,
    PeerAttribute.keepalive, PeerAttribute.allowedIps] at htypes

theorem keepalive_notMem {record : PeerChange} (hkeepalive : record.keepalive = none) :
    ∀ found ∈ record.attributes.map view, found.type ≠ PeerAttribute.keepalive := by
  intro found hmem htype
  have htypes := List.mem_map_of_mem (f := View.type) hmem
  rw [types_attributes, htype, hkeepalive] at htypes
  cases record.remove <;>
    simp [PeerAttribute.publicKey, PeerAttribute.flags, PeerAttribute.presharedKey,
      PeerAttribute.keepalive, PeerAttribute.allowedIps] at htypes

theorem Pieces.remove_eq_false {record : PeerChange} {pieces : List PeerChange}
    (h : Pieces record pieces) (hremove : record.remove = false) :
    ∀ piece ∈ pieces, piece.remove = false := by
  induction h with
  | whole record => exact List.forall_mem_singleton.mpr hremove
  | cut nonempty rest ih => exact List.forall_mem_cons.mpr ⟨hremove, ih rfl⟩

theorem Pieces.keepalive_eq_none {record : PeerChange} {pieces : List PeerChange}
    (h : Pieces record pieces) (hkeepalive : record.keepalive = none) :
    ∀ piece ∈ pieces, piece.keepalive = none := by
  induction h with
  | whole record => exact List.forall_mem_singleton.mpr hkeepalive
  | cut nonempty rest ih => exact List.forall_mem_cons.mpr ⟨hkeepalive, ih rfl⟩

theorem Spread.pieces_of_singleton {record : PeerChange} {records : List PeerChange}
    (h : Spread [record] records) : Pieces record records := by
  cases h with
  | cons first rest =>
      cases rest
      rwa [List.append_nil]

end PeerChange

namespace DeviceChange

theorem peerRecords_append (header : CommandHeader) {part : DeviceChange} {name : String}
    (hfits : FitsAll (part.attributes name)) :
    peerRecords (header.bytes ++ encodeAll (part.attributes name)) =
      part.peers.map fun record => record.attributes.map view := by
  have hpeers := (fitsAll_append.mp hfits.2).2
  have hsettings : ∀ (key : Option Key) (port : Option UInt16),
      (Attribute.text DeviceAttribute.name name ::
        ((key.map fun key => .leaf DeviceAttribute.privateKey key.bytes).toList ++
          (port.map (.word16 DeviceAttribute.listenPort)).toList)).flatMap
            (fun item => item.view.peerRecords) = [] := by
    intro key port
    cases key <;> cases port <;> rfl
  rw [peerRecords, List.drop_left' header.length_bytes, views_encodeAll hfits, List.flatMap_map,
    attributes, ← List.cons_append, List.flatMap_append, hsettings, List.nil_append]
  split
  · rename_i hempty
    rw [hempty]
    rfl
  · rename_i hrecords
    rw [if_neg hrecords] at hpeers
    rw [List.flatMap_singleton]
    exact PeerChange.views_records hpeers.1.1

end DeviceChange

end TunnelControl
