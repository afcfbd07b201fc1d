import TunnelControl.Proofs.Text.Numerals
import TunnelControl.Proofs.Text.ReplacedText
import TunnelControl.Tunnel.NameList

namespace TunnelControl.NameList

/-- A name that the list can hold: not empty, and without a zero. -/
structure Proper (name : String) : Prop where
  ne_empty : name ≠ ""
  zero_notMem : '\x00' ∉ name.toList

/-! The parts between zeros. -/

theorem parts_ne_nil (data : Bytes) : parts data ≠ [] := by
  induction data with
  | nil => simp [parts]
  | cons byte rest ih =>
      rw [parts]
      split
      · simp
      · split <;> simp

theorem parts_append_zero {front : Bytes} (h : 0 ∉ front) (rest : Bytes) :
    parts (front ++ 0 :: rest) = front :: parts rest := by
  induction front with
  | nil => simp [parts]
  | cons byte front ih =>
      obtain ⟨hbyte, hfront⟩ := List.ne_and_not_mem_of_not_mem_cons h
      rw [List.cons_append, parts, if_neg hbyte.symm, ih hfront]

theorem zero_notMem_of_mem_parts {data part : Bytes} (h : part ∈ parts data) : 0 ∉ part := by
  induction data generalizing part with
  | nil => simp_all [parts]
  | cons byte rest ih =>
      rw [parts] at h
      split at h
      · rcases List.mem_cons.mp h with rfl | hmem
        · exact List.not_mem_nil
        · exact ih hmem
      · rename_i hbyte
        split at h
        · rename_i first more hparts
          rcases List.mem_cons.mp h with rfl | hmem
          · exact List.not_mem_cons_of_ne_of_not_mem (Ne.symm hbyte)
              (ih (hparts ▸ List.mem_cons_self))
          · exact ih (hparts ▸ List.mem_cons_of_mem first hmem)
        · rename_i hparts
          exact absurd hparts (parts_ne_nil rest)

theorem parts_encode_append {names : List String} (h : ∀ name ∈ names, '\x00' ∉ name.toList)
    (rest : Bytes) : parts (encode names ++ rest) = names.map Utf8.encode ++ [] :: parts rest := by
  induction names with
  | nil => exact parts_append_zero List.not_mem_nil rest
  | cons name names ih =>
      obtain ⟨hname, hnames⟩ := List.forall_mem_cons.mp h
      have hencode : encode (name :: names) ++ rest =
          Utf8.encode name ++ 0 :: (encode names ++ rest) := by
        simp [encode]
      rw [hencode, parts_append_zero (Utf8.zero_notMem_encode hname), ih hnames]
      rfl

/-! Reading back. -/

theorem Proper.encode_ne_nil {name : String} (h : Proper name) : Utf8.encode name ≠ [] :=
  fun hnil => h.ne_empty (Utf8.encode_injective (hnil.trans rfl))

theorem decode_encode_append {names : List String} (h : ∀ name ∈ names, Proper name) (rest : Bytes) :
    decode (encode names ++ rest) = names := by
  have hnames : ∀ part ∈ names.map Utf8.encode, decide (part ≠ []) = true := by
    intro part hmem
    obtain ⟨name, hname, rfl⟩ := List.mem_map.mp hmem
    exact decide_eq_true (h name hname).encode_ne_nil
  have hstop : ∀ part ∈ ([] :: parts rest).head?, decide (part ≠ []) = false := by
    rintro part ⟨⟩
    rfl
  rw [decode, parts_encode_append fun name hmem => (h name hmem).zero_notMem,
    takeWhile_append_of_stop hnames hstop, List.map_map]
  exact List.map_id'' Utf8.decodeLossy_encode names

theorem encode_append_empty (front back : List String) :
    encode (front ++ "" :: back) = encode front ++ encode back := by
  have hempty : Utf8.encode "" = [] := rfl
  simp [encode, hempty]

theorem proper_of_mem_decode {data : Bytes} {name : String} (h : name ∈ decode data) :
    Proper name := by
  obtain ⟨part, hpart, rfl⟩ := List.mem_map.mp h
  have hmem : part ∈ parts data := (List.takeWhile_sublist _).mem hpart
  have hne : part ≠ [] := by simpa using List.mem_takeWhile_imp hpart
  exact ⟨Utf8.decodeLossy_ne_empty hne,
    Utf8.zero_notMem_decodeLossy (zero_notMem_of_mem_parts hmem)⟩

/-- A list of proper names is read back whole, whatever follows it; any bytes give such a list, and an
empty name ends the list before it. -/
theorem proper_names_read_back :
    (∀ names rest, (∀ name ∈ names, Proper name) → decode (encode names ++ rest) = names) ∧
    (∀ data, ∀ name ∈ decode data, Proper name) ∧
    (∀ data, decode (encode (decode data)) = decode data) ∧
    ∀ front back, (∀ name ∈ front, Proper name) → decode (encode (front ++ "" :: back)) = front := by
  refine ⟨fun names rest h => decode_encode_append h rest, fun data name => proper_of_mem_decode,
    ?_, ?_⟩
  · intro data
    have hproper : ∀ name ∈ decode data, Proper name := fun _ => proper_of_mem_decode
    have hread := decode_encode_append hproper []
    rwa [List.append_nil] at hread
  · intro front back h
    rw [encode_append_empty, decode_encode_append h]

end TunnelControl.NameList
