import Mathlib.Data.List.TakeWhile
import Mathlib.Tactic.SplitIfs
import TunnelControl.Text.Utf8

namespace TunnelControl.Utf8

private theorem toNat_valid (char : Char) :
    char.val.toNat < 0xD800 ∨ 0xDFFF < char.val.toNat ∧ char.val.toNat < 0x110000 :=
  char.valid

private theorem toNat_ofNat (value : Nat) (h : value < 256) :
    (UInt8.ofNat value).toNat = value := by
  simp only [UInt8.toNat_ofNat']
  omega

private theorem read_of_matching {lead : UInt8} {tail rest : Bytes} {char : Char}
    (ranges : List (Nat × Nat))
    (hranges : continuations lead = some ranges)
    (hlength : ranges.length = tail.length)
    (hmatching : matching ranges (tail ++ rest) = tail.length)
    (hpoint : codePoint lead tail = char.toNat) :
    Sequence.read lead (tail ++ rest) = .char char tail.length := by
  have htake : (tail ++ rest).take tail.length = tail := List.take_left
  simp only [Sequence.read, hranges, hmatching, hlength, if_true, htake, hpoint,
    Char.ofNat_toNat]

private theorem read_one {char : Char} {rest : Bytes} (h : char.toNat ≤ 0x7F) :
    Sequence.read (UInt8.ofNat char.toNat) ([] ++ rest) = .char char 0 := by
  have hlead := toNat_ofNat char.toNat (by omega)
  refine read_of_matching [] ?_ rfl rfl ?_
  · simp only [continuations, hlead]
    rw [if_pos (by omega)]
  · simp only [codePoint, hlead, List.length_nil, List.foldl_nil]

private theorem read_two {char : Char} {first second : Nat} {rest : Bytes}
    (hfirst : 0xC2 ≤ first ∧ first < 0xE0) (hsecond : 0x80 ≤ second ∧ second ≤ 0xBF)
    (hpoint : (first % 32) * 64 + second % 64 = char.toNat) :
    Sequence.read (UInt8.ofNat first) ([UInt8.ofNat second] ++ rest) = .char char 1 := by
  have hlead := toNat_ofNat first (by omega)
  have htail := toNat_ofNat second (by omega)
  refine read_of_matching [(0x80, 0xBF)] ?_ rfl ?_ ?_
  · simp only [continuations, hlead]
    rw [if_neg (by omega), if_neg (by omega), if_pos (by omega)]
  · simp only [List.cons_append, List.nil_append, matching, htail, List.length_cons]
    rw [if_pos (by omega)]
    rfl
  · simpa [codePoint, hlead, htail] using hpoint

private theorem read_three {char : Char} {first second third : Nat} {rest : Bytes}
    (hfirst : 0xE0 ≤ first ∧ first < 0xF0) (hsecond : 0x80 ≤ second ∧ second ≤ 0xBF)
    (hlow : first = 0xE0 → 0xA0 ≤ second) (hsurrogate : first = 0xED → second ≤ 0x9F)
    (hthird : 0x80 ≤ third ∧ third ≤ 0xBF)
    (hpoint : ((first % 16) * 64 + second % 64) * 64 + third % 64 = char.toNat) :
    Sequence.read (UInt8.ofNat first) ([UInt8.ofNat second, UInt8.ofNat third] ++ rest) =
      .char char 2 := by
  have hlead := toNat_ofNat first (by omega)
  have hmiddle := toNat_ofNat second (by omega)
  have hlast := toNat_ofNat third (by omega)
  let low := if first = 0xE0 then 0xA0 else 0x80
  let high := if first = 0xED then 0x9F else 0xBF
  have hwithin : low ≤ second ∧ second ≤ high := by
    constructor
    · simp only [low]
      split <;> omega
    · simp only [high]
      split <;> omega
  have hranges : continuations (UInt8.ofNat first) = some [(low, high), (0x80, 0xBF)] := by
    rcases Decidable.em (first = 0xE0) with rfl | hleast
    · rfl
    rcases Decidable.em (first = 0xED) with rfl | hsplit
    · rfl
    simp only [continuations, hlead, low, high]
    rw [if_neg (by omega), if_neg (by omega), if_neg (by omega), if_neg hleast, if_neg hsplit,
      if_pos hfirst.2, if_neg hleast, if_neg hsplit]
  refine read_of_matching [(low, high), (0x80, 0xBF)] hranges rfl ?_ ?_
  · simp only [List.cons_append, List.nil_append, matching, hmiddle, hlast, List.length_cons]
    rw [if_pos hwithin, if_pos (by omega)]
    rfl
  · simpa [codePoint, hlead, hmiddle, hlast] using hpoint

private theorem read_four {char : Char} {first second third fourth : Nat} {rest : Bytes}
    (hfirst : 0xF0 ≤ first ∧ first < 0xF5) (hsecond : 0x80 ≤ second ∧ second ≤ 0xBF)
    (hlow : first = 0xF0 → 0x90 ≤ second) (hhigh : first = 0xF4 → second ≤ 0x8F)
    (hthird : 0x80 ≤ third ∧ third ≤ 0xBF) (hfourth : 0x80 ≤ fourth ∧ fourth ≤ 0xBF)
    (hpoint : (((first % 8) * 64 + second % 64) * 64 + third % 64) * 64 + fourth % 64 =
      char.toNat) :
    Sequence.read (UInt8.ofNat first)
        ([UInt8.ofNat second, UInt8.ofNat third, UInt8.ofNat fourth] ++ rest) =
      .char char 3 := by
  have hlead := toNat_ofNat first (by omega)
  have hmiddle := toNat_ofNat second (by omega)
  have hthird' := toNat_ofNat third (by omega)
  have hlast := toNat_ofNat fourth (by omega)
  let low := if first = 0xF0 then 0x90 else 0x80
  let high := if first = 0xF4 then 0x8F else 0xBF
  have hwithin : low ≤ second ∧ second ≤ high := by
    constructor
    · simp only [low]
      split <;> omega
    · simp only [high]
      split <;> omega
  have hranges : continuations (UInt8.ofNat first) =
      some [(low, high), (0x80, 0xBF), (0x80, 0xBF)] := by
    rcases Decidable.em (first = 0xF0) with rfl | hleast
    · rfl
    rcases Decidable.em (first = 0xF4) with rfl | hmost
    · rfl
    simp only [continuations, hlead, low, high]
    rw [if_neg (by omega), if_neg (by omega), if_neg (by omega), if_neg (by omega),
      if_neg (by omega), if_neg (by omega), if_neg hleast, if_pos (by omega), if_neg hleast,
      if_neg hmost]
  refine read_of_matching [(low, high), (0x80, 0xBF), (0x80, 0xBF)] hranges rfl ?_ ?_
  · simp only [List.cons_append, List.nil_append, matching, hmiddle, hthird', hlast,
      List.length_cons]
    rw [if_pos hwithin, if_pos (by omega), if_pos (by omega)]
    rfl
  · simpa [codePoint, hlead, hmiddle, hthird', hlast] using hpoint

theorem read_utf8EncodeChar (char : Char) (rest : Bytes) :
    ∃ lead tail, String.utf8EncodeChar char = lead :: tail ∧
      Sequence.read lead (tail ++ rest) = .char char tail.length := by
  have hvalid := toNat_valid char
  have hvalue : char.toNat = char.val.toNat := rfl
  unfold String.utf8EncodeChar
  dsimp only
  split
  · exact ⟨_, [], rfl, read_one (by omega)⟩
  · split
    · refine ⟨_, [_], rfl, read_two ?_ ?_ ?_⟩ <;> omega
    · split
      · refine ⟨_, [_, _], rfl, read_three ?_ ?_ ?_ ?_ ?_ ?_⟩ <;> omega
      · refine ⟨_, [_, _, _], rfl, read_four ?_ ?_ ?_ ?_ ?_ ?_ ?_⟩ <;> omega

private theorem decodeFrom_flatMap (before chars : List Char) (index : Nat) :
    decodeFrom before index (chars.flatMap String.utf8EncodeChar) =
      .ok (before.reverse ++ chars) := by
  induction chars generalizing before index with
  | nil => simp [decodeFrom]
  | cons char chars ih =>
      obtain ⟨lead, tail, hbytes, hread⟩ :=
        read_utf8EncodeChar char (chars.flatMap String.utf8EncodeChar)
      rw [List.flatMap_cons, hbytes, List.cons_append, decodeFrom, hread]
      dsimp only
      rw [List.drop_left, ih]
      simp

theorem decode_encode (text : String) : decode (encode text) = .ok text := by
  simp [decode, encode, decodeFrom_flatMap, Except.map]

theorem encode_injective {left right : String} (h : encode left = encode right) :
    left = right := by
  have hleft := decode_encode left
  rw [h, decode_encode right] at hleft
  exact (Except.ok.inj hleft).symm

theorem length_encode (text : String) : (encode text).length = text.utf8ByteSize := by
  have hbytes : text.toByteArray = (encode text).toByteArray := by
    rw [← String.ofList_toList (s := text), String.toByteArray_ofList, String.ofList_toList]
    rfl
  rw [← String.size_toByteArray, hbytes, List.size_toByteArray]

theorem utf8ByteSize_ofList {chars : List Char} (h : ∀ char ∈ chars, char.utf8Size = 1) :
    (String.ofList chars).utf8ByteSize = chars.length := by
  rw [← length_encode, encode, String.toList_ofList]
  induction chars with
  | nil => rfl
  | cons char chars ih =>
      obtain ⟨hchar, hchars⟩ := List.forall_mem_cons.mp h
      rw [List.flatMap_cons, List.length_append, String.length_utf8EncodeChar, hchar, ih hchars,
        List.length_cons, Nat.add_comm]

private theorem zero_notMem_utf8EncodeChar {char : Char} (h : char ≠ '\x00') :
    (0 : UInt8) ∉ String.utf8EncodeChar char := by
  have hpositive : char.val.toNat ≠ 0 := fun hzero => h (Char.ext (UInt32.toNat_inj.mp hzero))
  have hbyte : ∀ value, 0 < value → value < 256 → (0 : UInt8) ≠ UInt8.ofNat value := by
    intro value hpos hlt heq
    have hnat := congrArg UInt8.toNat heq
    rw [toNat_ofNat _ hlt] at hnat
    exact absurd hnat.symm (Nat.ne_of_gt hpos)
  unfold String.utf8EncodeChar
  dsimp only
  split_ifs <;> simp only [List.mem_cons, List.not_mem_nil, or_false, not_or]
  · exact hbyte _ (by omega) (by omega)
  · exact ⟨hbyte _ (by omega) (by omega), hbyte _ (by omega) (by omega)⟩
  · exact ⟨hbyte _ (by omega) (by omega), hbyte _ (by omega) (by omega),
      hbyte _ (by omega) (by omega)⟩
  · exact ⟨hbyte _ (by omega) (by omega), hbyte _ (by omega) (by omega),
      hbyte _ (by omega) (by omega), hbyte _ (by omega) (by omega)⟩

theorem zero_notMem_encode {text : String} (h : '\x00' ∉ text.toList) :
    (0 : UInt8) ∉ encode text := by
  simp only [encode, List.mem_flatMap, not_exists, not_and]
  intro char hmem
  exact zero_notMem_utf8EncodeChar fun heq => h (heq ▸ hmem)

def beforeZero (text : String) : String :=
  String.ofList (text.toList.takeWhile (· ≠ '\x00'))

theorem beforeZero_of_notMem {text : String} (h : '\x00' ∉ text.toList) :
    beforeZero text = text := by
  have hwhole : text.toList.takeWhile (· ≠ '\x00') = text.toList :=
    List.takeWhile_eq_self_iff.mpr fun char hmem => decide_eq_true fun heq => h (heq ▸ hmem)
  rw [beforeZero, hwhole, String.ofList_toList]

theorem zero_notMem_beforeZero (text : String) : '\x00' ∉ (beforeZero text).toList := by
  rw [beforeZero, String.toList_ofList]
  intro hmem
  simpa using List.mem_takeWhile_imp hmem

private theorem exists_flatMap_eq (chars : List Char) :
    ∃ rest, chars.flatMap String.utf8EncodeChar ++ [0] =
      (chars.takeWhile (· ≠ '\x00')).flatMap String.utf8EncodeChar ++ 0 :: rest := by
  induction chars with
  | nil => exact ⟨[], rfl⟩
  | cons char chars ih =>
      by_cases hzero : char = '\x00'
      · subst hzero
        exact ⟨chars.flatMap String.utf8EncodeChar ++ [0], rfl⟩
      · obtain ⟨rest, hrest⟩ := ih
        refine ⟨rest, ?_⟩
        rw [List.takeWhile_cons_of_pos (by simpa using hzero), List.flatMap_cons, List.flatMap_cons,
          List.append_assoc, hrest, List.append_assoc]

/-- A text with a zero behind it starts with what stands before its first zero, and a zero. -/
theorem exists_encode_eq (text : String) :
    ∃ rest, encode text ++ [0] = encode (beforeZero text) ++ 0 :: rest := by
  obtain ⟨rest, hrest⟩ := exists_flatMap_eq text.toList
  refine ⟨rest, ?_⟩
  rw [encode, encode, beforeZero, String.toList_ofList, hrest]

end TunnelControl.Utf8
