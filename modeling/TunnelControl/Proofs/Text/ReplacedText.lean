import Mathlib.Data.List.Forall2
import TunnelControl.Proofs.Text.Utf8

namespace TunnelControl.Utf8

/-! Sequences that are read. -/

def Within : List (Nat × Nat) → Bytes → Prop :=
  List.Forall₂ fun range byte => range.1 ≤ byte.toNat ∧ byte.toNat ≤ range.2

theorem within_of_matching {ranges : List (Nat × Nat)} {rest : Bytes}
    (h : matching ranges rest = ranges.length) : Within ranges (rest.take ranges.length) := by
  induction ranges generalizing rest with
  | nil => exact .nil
  | cons range ranges ih =>
      cases rest with
      | nil => cases h
      | cons byte rest =>
          rw [matching] at h
          split at h
          · rename_i hbyte
            exact .cons hbyte (ih (Nat.succ.inj h))
          · cases h

private theorem toNat_point {point : Nat} (h : point.isValidChar) :
    (Char.ofNat point).val.toNat = point := by
  rw [Char.ofNat, dif_pos h]
  rfl

private theorem encode_one {lead : UInt8} (h : lead.toNat < 0x80) :
    String.utf8EncodeChar (Char.ofNat (codePoint lead [])) = [lead] := by
  have hpoint : (Char.ofNat lead.toNat).val.toNat = lead.toNat := toNat_point (.inl (by omega))
  simp only [codePoint, List.length_nil, List.foldl_nil, String.utf8EncodeChar, hpoint]
  rw [if_pos (by omega), UInt8.ofNat_toNat]

private theorem encode_two {lead second : UInt8} (hlead : 0xC2 ≤ lead.toNat ∧ lead.toNat < 0xE0)
    (hsecond : 0x80 ≤ second.toNat ∧ second.toNat ≤ 0xBF) :
    String.utf8EncodeChar (Char.ofNat (codePoint lead [second])) = [lead, second] := by
  let point := lead.toNat % 32 * 64 + second.toNat % 64
  have hpoint : (Char.ofNat point).val.toNat = point := toNat_point (.inl (by omega))
  have hfirst : UInt8.ofNat (point / 64 % 32 + 192) = lead := Bytes.ofNat_eq (by omega)
  have hlast : UInt8.ofNat (point % 64 + 128) = second := Bytes.ofNat_eq (by omega)
  have hcode : codePoint lead [second] = point := rfl
  rw [hcode]
  simp only [String.utf8EncodeChar, hpoint, hfirst, hlast]
  rw [if_neg (by omega), if_pos (by omega)]

private theorem encode_three {lead second third : UInt8}
    (hlead : 0xE0 ≤ lead.toNat ∧ lead.toNat < 0xF0)
    (hsecond : 0x80 ≤ second.toNat ∧ second.toNat ≤ 0xBF)
    (hlow : lead.toNat = 0xE0 → 0xA0 ≤ second.toNat)
    (hsurrogate : lead.toNat = 0xED → second.toNat ≤ 0x9F)
    (hthird : 0x80 ≤ third.toNat ∧ third.toNat ≤ 0xBF) :
    String.utf8EncodeChar (Char.ofNat (codePoint lead [second, third])) = [lead, second, third] := by
  let point := (lead.toNat % 16 * 64 + second.toNat % 64) * 64 + third.toNat % 64
  have hvalid : point < 0xD800 ∨ 0xDFFF < point ∧ point < 0x110000 := by omega
  have hpoint : (Char.ofNat point).val.toNat = point := toNat_point hvalid
  have hfirst : UInt8.ofNat (point / 4096 % 16 + 224) = lead := Bytes.ofNat_eq (by omega)
  have hmiddle : UInt8.ofNat (point / 64 % 64 + 128) = second := Bytes.ofNat_eq (by omega)
  have hlast : UInt8.ofNat (point % 64 + 128) = third := Bytes.ofNat_eq (by omega)
  have hcode : codePoint lead [second, third] = point := rfl
  rw [hcode]
  simp only [String.utf8EncodeChar, hpoint, hfirst, hmiddle, hlast]
  rw [if_neg (by omega), if_neg (by omega), if_pos (by omega)]

private theorem encode_four {lead second third fourth : UInt8}
    (hlead : 0xF0 ≤ lead.toNat ∧ lead.toNat ≤ 0xF4)
    (hsecond : 0x80 ≤ second.toNat ∧ second.toNat ≤ 0xBF)
    (hlow : lead.toNat = 0xF0 → 0x90 ≤ second.toNat)
    (hhigh : lead.toNat = 0xF4 → second.toNat ≤ 0x8F)
    (hthird : 0x80 ≤ third.toNat ∧ third.toNat ≤ 0xBF)
    (hfourth : 0x80 ≤ fourth.toNat ∧ fourth.toNat ≤ 0xBF) :
    String.utf8EncodeChar (Char.ofNat (codePoint lead [second, third, fourth])) =
      [lead, second, third, fourth] := by
  let point := ((lead.toNat % 8 * 64 + second.toNat % 64) * 64 + third.toNat % 64) * 64 +
    fourth.toNat % 64
  have hvalid : point < 0xD800 ∨ 0xDFFF < point ∧ point < 0x110000 := by omega
  have hpoint : (Char.ofNat point).val.toNat = point := toNat_point hvalid
  have hfirst : UInt8.ofNat (point / 262144 % 8 + 240) = lead := Bytes.ofNat_eq (by omega)
  have hmiddle : UInt8.ofNat (point / 4096 % 64 + 128) = second := Bytes.ofNat_eq (by omega)
  have hafter : UInt8.ofNat (point / 64 % 64 + 128) = third := Bytes.ofNat_eq (by omega)
  have hlast : UInt8.ofNat (point % 64 + 128) = fourth := Bytes.ofNat_eq (by omega)
  have hcode : codePoint lead [second, third, fourth] = point := rfl
  rw [hcode]
  simp only [String.utf8EncodeChar, hpoint, hfirst, hmiddle, hafter, hlast]
  rw [if_neg (by omega), if_neg (by omega), if_neg (by omega)]

/-- The bytes of a sequence that is read are those that write its character. -/
theorem utf8EncodeChar_of_within {lead : UInt8} {ranges : List (Nat × Nat)} {tail : Bytes}
    (hranges : continuations lead = some ranges) (htail : Within ranges tail) :
    String.utf8EncodeChar (Char.ofNat (codePoint lead tail)) = lead :: tail := by
  simp only [continuations] at hranges
  split_ifs at hranges with hone hstray htwo hleast hsplit hthree hfirst hfour hlast
  · cases hranges
    cases htail
    exact encode_one hone
  · cases hranges
    obtain _ | ⟨hsecond, _ | _⟩ := htail
    exact encode_two ⟨by omega, htwo⟩ hsecond
  · cases hranges
    obtain _ | ⟨hsecond, _ | ⟨hthird, _ | _⟩⟩ := htail
    exact encode_three (by omega) ⟨Nat.le_trans (by decide) hsecond.1, hsecond.2⟩
      (fun _ => hsecond.1) (by omega) hthird
  · cases hranges
    obtain _ | ⟨hsecond, _ | ⟨hthird, _ | _⟩⟩ := htail
    exact encode_three (by omega) ⟨hsecond.1, Nat.le_trans hsecond.2 (by decide)⟩ (by omega)
      (fun _ => hsecond.2) hthird
  · cases hranges
    obtain _ | ⟨hsecond, _ | ⟨hthird, _ | _⟩⟩ := htail
    exact encode_three (by omega) hsecond (by omega) (by omega) hthird
  · cases hranges
    obtain _ | ⟨hsecond, _ | ⟨hthird, _ | ⟨hfourth, _ | _⟩⟩⟩ := htail
    exact encode_four (by omega) ⟨Nat.le_trans (by decide) hsecond.1, hsecond.2⟩
      (fun _ => hsecond.1) (by omega) hthird hfourth
  · cases hranges
    obtain _ | ⟨hsecond, _ | ⟨hthird, _ | ⟨hfourth, _ | _⟩⟩⟩ := htail
    exact encode_four (by omega) hsecond (by omega) (by omega) hthird hfourth
  · cases hranges
    obtain _ | ⟨hsecond, _ | ⟨hthird, _ | ⟨hfourth, _ | _⟩⟩⟩ := htail
    exact encode_four (by omega) ⟨hsecond.1, Nat.le_trans hsecond.2 (by decide)⟩ (by omega)
      (fun _ => hsecond.2) hthird hfourth

theorem utf8EncodeChar_of_read {lead : UInt8} {rest : Bytes} {char : Char} {tail : Nat}
    (h : Sequence.read lead rest = .char char tail) :
    String.utf8EncodeChar char = lead :: rest.take tail := by
  unfold Sequence.read at h
  split at h
  · cases h
  · rename_i ranges hranges
    dsimp only at h
    split_ifs at h with hmatching
    cases h
    rw [hmatching]
    exact utf8EncodeChar_of_within hranges (within_of_matching hmatching)

theorem ne_zero_of_read {lead : UInt8} {rest : Bytes} {char : Char} {tail : Nat}
    (h : Sequence.read lead rest = .char char tail) (hlead : lead ≠ 0) : char ≠ '\x00' := by
  rintro rfl
  have hzero : [0] = lead :: rest.take tail := utf8EncodeChar_of_read h
  exact hlead (List.cons.inj hzero).1.symm

/-! Bytes that may be no text. -/

theorem zero_notMem_decodeLossyFrom {before : List Char} {data : Bytes}
    (hbefore : '\x00' ∉ before) (hdata : 0 ∉ data) : '\x00' ∉ decodeLossyFrom before data := by
  have hreplacement : '\x00' ≠ replacement := by decide
  fun_induction decodeLossyFrom before data with
  | case1 before => simpa using hbefore
  | case2 before lead rest char tail hread ih =>
      obtain ⟨hlead, hrest⟩ := List.ne_and_not_mem_of_not_mem_cons hdata
      apply ih
      · exact List.not_mem_cons_of_ne_of_not_mem (ne_zero_of_read hread hlead.symm).symm hbefore
      · exact fun hmem => hrest (List.mem_of_mem_drop hmem)
  | case3 before lead rest tail hread ih =>
      obtain ⟨-, hrest⟩ := List.ne_and_not_mem_of_not_mem_cons hdata
      apply ih
      · exact List.not_mem_cons_of_ne_of_not_mem hreplacement hbefore
      · exact fun hmem => hrest (List.mem_of_mem_drop hmem)
  | case4 before lead rest hread =>
      rw [List.mem_reverse]
      exact List.not_mem_cons_of_ne_of_not_mem hreplacement hbefore

theorem decodeLossyFrom_ne_nil {before : List Char} {data : Bytes} (h : before ≠ [] ∨ data ≠ []) :
    decodeLossyFrom before data ≠ [] := by
  fun_induction decodeLossyFrom before data with
  | case1 before => simpa using h
  | case2 before lead rest char tail hread ih => exact ih (.inl (List.cons_ne_nil char before))
  | case3 before lead rest tail hread ih => exact ih (.inl (List.cons_ne_nil replacement before))
  | case4 before lead rest hread => simp

theorem zero_notMem_decodeLossy {data : Bytes} (h : 0 ∉ data) :
    '\x00' ∉ (decodeLossy data).toList := by
  rw [decodeLossy, String.toList_ofList]
  exact zero_notMem_decodeLossyFrom List.not_mem_nil h

theorem decodeLossy_ne_empty {data : Bytes} (h : data ≠ []) : decodeLossy data ≠ "" := by
  intro hempty
  have hchars := congrArg String.toList hempty
  rw [decodeLossy, String.toList_ofList] at hchars
  exact decodeLossyFrom_ne_nil (.inr h) hchars

theorem decodeLossyFrom_flatMap (before chars : List Char) :
    decodeLossyFrom before (chars.flatMap String.utf8EncodeChar) = before.reverse ++ chars := by
  induction chars generalizing before with
  | nil => simp [decodeLossyFrom]
  | cons char chars ih =>
      obtain ⟨lead, tail, hbytes, hread⟩ :=
        read_utf8EncodeChar char (chars.flatMap String.utf8EncodeChar)
      rw [List.flatMap_cons, hbytes, List.cons_append, decodeLossyFrom, hread]
      dsimp only
      rw [List.drop_left, ih]
      simp

theorem decodeLossy_encode (text : String) : decodeLossy (encode text) = text := by
  rw [decodeLossy, encode, decodeLossyFrom_flatMap]
  exact String.ofList_toList

end TunnelControl.Utf8
