import TunnelControl.Proofs.Netlink.Frames

namespace TunnelControl.Netlink

namespace Attribute

/-- The attributes that a reader found, and those that it finds inside the nests, are these
trees. A reader cannot tell a nest from other attributes, so the trees say where to go down. -/
inductive Shows : List View → List Attribute → Prop
  | nil : Shows [] []
  | leaf {type : UInt16} {payload : Bytes} {found : List View} {items : List Attribute}
      (rest : Shows found items) : Shows (⟨type, payload⟩ :: found) (.leaf type payload :: items)
  | nest {type : UInt16} {payload : Bytes} {found : List View} {children items : List Attribute}
      (inside : Shows (views payload) children) (rest : Shows found items) :
      Shows (⟨type, payload⟩ :: found) (.nest type children :: items)

mutual

theorem shows_view_cons (item : Attribute) (hplain : item.Plain) (hfits : item.Fits)
    {found : List View} {items : List Attribute} (rest : Shows found items) :
    Shows (item.view :: found) (item :: items) := by
  cases item with
  | leaf type payload =>
      rw [view, masked_of_lt hplain]
      exact .leaf rest
  | nest type children =>
      have hinside := shows_map_view children hplain.2 hfits.1
      rw [← views_encodeAll hfits.1] at hinside
      rw [view, masked_of_lt hplain.1]
      exact .nest hinside rest

theorem shows_map_view (items : List Attribute) (hplain : PlainAll items)
    (hfits : FitsAll items) : Shows (items.map view) items := by
  cases items with
  | nil => exact .nil
  | cons first rest =>
      exact shows_view_cons first hplain.1 hfits.1 (shows_map_view rest hplain.2 hfits.2)

end

theorem shows_views_encodeAll {items : List Attribute} (hplain : PlainAll items)
    (hfits : FitsAll items) : Shows (views (encodeAll items)) items := by
  rw [views_encodeAll hfits]
  exact shows_map_view items hplain hfits

end Attribute

namespace Draft

open Attribute

theorem append_padded {draft : Draft} (haligned : draft.Aligned) (data : Bytes) :
    draft.append (Bytes.padded data) = draft.append data := by
  have hcontents : (draft.append (Bytes.padded data)).contents = (draft.append data).contents := by
    rw [contents_append haligned, contents_append haligned, Bytes.padded_of_mod_four]
    rw [Bytes.length_padded]
    exact Bytes.align_mod_four _
  have hbuffer : (draft.append (Bytes.padded data)).buffer = (draft.append data).buffer :=
    Array.toList_inj.mp hcontents
  calc
    draft.append (Bytes.padded data) =
        ⟨(draft.append (Bytes.padded data)).buffer, draft.oversized⟩ := rfl
    _ = ⟨(draft.append data).buffer, draft.oversized⟩ := by rw [hbuffer]
    _ = draft.append data := rfl

/-- A record is brought up to a multiple of four, so it can be taken to be one. -/
theorem ofRecord_padded (type flags : UInt16) (record : Bytes) (items : List Attribute) :
    ofRecord type flags (Bytes.padded record) items = ofRecord type flags record items := by
  rw [ofRecord, append_padded (aligned_start type flags), ofRecord]

/-- A request with a record and trees of attributes can be finished if and only if every length in
it can be stated. The finished frame is one message with the numbers that were put into its header,
and behind the record a reader finds the trees. -/
theorem trees_read_back (type flags : UInt16) (sequence port : UInt32) (record : Bytes)
    {items : List Attribute} (hplain : PlainAll items) :
    let finished :=
      (((ofRecord type flags record items).setSequence sequence).setPort port).finish
    ((∃ frame, finished = .ok frame) ↔ FitsAll items ∧
      Header.size + Bytes.align record.length + (encodeAll items).length < UInt32.size) ∧
    ∀ frame, finished = .ok frame → ∃ (header : Header) (attributes : Bytes),
      header.length.toNat = frame.length ∧ header.type = type ∧ header.flags = flags ∧
      header.sequence = sequence ∧ header.port = port ∧
      Message.ofDatagram frame = [.ok ⟨header, Bytes.padded record ++ attributes⟩] ∧
      Shows (views attributes) items := by
  have hrecord : (Bytes.padded record).length % 4 = 0 := by
    rw [Bytes.length_padded]
    exact Bytes.align_mod_four _
  rw [← ofRecord_padded]
  intro finished
  refine ⟨?_, fun frame hframe => ?_⟩
  · rw [finish_eq_ok_iff, setPort, setSequence, oversized_put, oversized_put, size_put, size_put,
      oversized_ofRecord, overflowAll?_eq_none_iff, size_ofRecord type flags hrecord,
      Bytes.length_padded]
  · obtain ⟨hfits, -, header, hlength, htype, hflags, hsequence, hport, hread⟩ :=
      ofDatagram_of_finish hrecord hframe
    exact ⟨header, encodeAll items, hlength, htype, hflags, hsequence, hport, hread,
      shows_views_encodeAll hplain hfits⟩

theorem trees_read_back_nest_in_nest :
    let items : List Attribute := [.leaf 1 [9], .nest 2 [.leaf 3 [], .nest 4 [.leaf 5 [1, 2, 3]]]]
    let large : List Attribute := [.nest 2 [.leaf 3 (List.replicate 65532 0)]]
    PlainAll items ∧ PlainAll large ∧
      (∃ frame header attributes,
        (((ofRecord 16 5 [1, 2, 3] items).setSequence 7).setPort 8).finish = .ok frame ∧
        Message.ofDatagram frame = [.ok ⟨header, [1, 2, 3, 0] ++ attributes⟩] ∧
        header.sequence = 7 ∧ header.port = 8 ∧ Shows (views attributes) items) ∧
      ¬ ∃ frame, (((ofRecord 16 5 [] large).setSequence 7).setPort 8).finish = .ok frame := by
  intro items large
  have hitems : PlainAll items := by
    simp only [items, PlainAll, Plain]
    decide
  have hlarge : PlainAll large := by
    simp only [large, PlainAll, Plain]
    decide
  have hfits : FitsAll items := by decide
  obtain ⟨hfinish, hread⟩ := trees_read_back 16 5 7 8 [1, 2, 3] hitems
  obtain ⟨frame, hframe⟩ := hfinish.mpr ⟨hfits, by decide⟩
  obtain ⟨header, attributes, -, -, -, hsequence, hport, hmessage, hshows⟩ := hread frame hframe
  refine ⟨hitems, hlarge, ⟨frame, header, attributes, hframe, hmessage, hsequence, hport, hshows⟩,
    fun hexists => ?_⟩
  have hlimit := ((trees_read_back 16 5 7 8 [] hlarge).1.mp hexists).1.1.1.1
  rw [Fits, List.length_replicate] at hlimit
  exact absurd hlimit (by decide)

end Draft

end TunnelControl.Netlink
