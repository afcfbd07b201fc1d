import TunnelControl.Address.Mask
import TunnelControl.Proofs.Device.FixedRecords
import TunnelControl.Proofs.Netlink.MessageReading

namespace TunnelControl

/-! Byte strings as words, bit by bit. -/

namespace Bytes

theorem capacity_eq (size : Nat) : capacity size = 2 ^ (8 * size) := by
  induction size with
  | zero => rfl
  | succ size ih =>
      rw [capacity, ih, Nat.mul_succ, Nat.pow_add]
      omega

theorem testBit_littleEndian_cons (byte : UInt8) (rest : Bytes) (index : Nat) :
    (littleEndian (byte :: rest)).testBit index =
      if index < 8 then byte.toNat.testBit index else (littleEndian rest).testBit (index - 8) := by
  have hbyte : byte.toNat < 2 ^ 8 := byte.toNat_lt
  rw [littleEndian, Nat.add_comm]
  exact Nat.testBit_two_pow_mul_add (littleEndian rest) hbyte index

theorem littleEndian_and {left right : Bytes} (h : left.length = right.length) :
    littleEndian (List.zipWith (· &&& ·) left right) = littleEndian left &&& littleEndian right := by
  induction left generalizing right with
  | nil => simp [littleEndian]
  | cons first left ih =>
      cases right with
      | nil => cases h
      | cons second right =>
          apply Nat.eq_of_testBit_eq
          intro index
          rw [Nat.testBit_and, List.zipWith_cons_cons]
          simp only [testBit_littleEndian_cons, ih (Nat.succ.inj h), UInt8.toNat_and]
          split <;> exact Nat.testBit_and _ _ _

theorem littleEndian_full (size : Nat) :
    littleEndian (List.replicate size 255) + 1 = capacity size := by
  induction size with
  | zero => rfl
  | succ size ih =>
      have hbyte : (255 : UInt8).toNat = 255 := rfl
      rw [List.replicate_succ, littleEndian, capacity, ← ih, hbyte]
      omega

theorem bigEndian_lt (data : Bytes) : bigEndian data < capacity data.length := by
  rw [bigEndian, ← List.length_reverse]
  exact littleEndian_lt data.reverse

theorem ofBigEndian_bigEndian (data : Bytes) :
    ofBigEndian data.length (bigEndian data) = data := by
  rw [ofBigEndian, bigEndian, ← List.length_reverse, ofLittleEndian_littleEndian,
    List.reverse_reverse]

end Bytes

namespace Octets

variable {size : Nat}

def and (left right : Octets size) : Octets size :=
  ⟨List.zipWith (· &&& ·) left.bytes right.bytes, by simp [left.size_eq, right.size_eq]⟩

def full (size : Nat) : Octets size :=
  ⟨List.replicate size 255, List.length_replicate⟩

end Octets

namespace Mask

section

variable {size : Nat}

theorem toNat_bits (mask : Octets size) : (bits mask).toNat = Bytes.bigEndian mask.bytes := by
  have hlt := Bytes.bigEndian_lt mask.bytes
  rw [mask.size_eq, Bytes.capacity_eq] at hlt
  rw [bits, BitVec.toNat_ofNat, Nat.mod_eq_of_lt hlt]

theorem bits_injective {left right : Octets size} (h : bits left = bits right) : left = right := by
  apply Octets.ext
  have hvalue := congrArg BitVec.toNat h
  rw [toNat_bits, toNat_bits] at hvalue
  rw [← Bytes.ofBigEndian_bigEndian left.bytes, ← Bytes.ofBigEndian_bigEndian right.bytes, hvalue,
    left.size_eq, right.size_eq]

theorem bits_and (left right : Octets size) :
    bits (left.and right) = bits left &&& bits right := by
  have hsize : left.bytes.length = right.bytes.length := by rw [left.size_eq, right.size_eq]
  apply BitVec.eq_of_toNat_eq
  rw [BitVec.toNat_and, toNat_bits, toNat_bits, toNat_bits, Bytes.bigEndian, Octets.and,
    List.reverse_zipWith hsize]
  exact Bytes.littleEndian_and (by simpa using hsize)

theorem bits_full : bits (Octets.full size) = BitVec.allOnes (8 * size) := by
  have hfull := Bytes.littleEndian_full size
  rw [Bytes.capacity_eq] at hfull
  apply BitVec.eq_of_toNat_eq
  rw [toNat_bits, Octets.full, Bytes.bigEndian, List.reverse_replicate, BitVec.toNat_allOnes]
  omega

theorem bits_ofPrefixLength (size length : Nat) :
    bits (ofPrefixLength size length) = ones (8 * size) length := by
  apply BitVec.eq_of_toNat_eq
  rw [toNat_bits, ofPrefixLength, Bytes.bigEndian_ofBigEndian, Bytes.capacity_eq]
  exact Nat.mod_eq_of_lt (ones (8 * size) length).isLt

end

/-! Leading ones. -/

section

variable {width length : Nat}

theorem le_length_takeWhile_range_iff {test : Nat → Bool} {count : Nat} :
    length ≤ ((List.range count).takeWhile test).length ↔
      length ≤ count ∧ ∀ index < length, test index = true := by
  induction count generalizing test length with
  | zero =>
      simp only [List.range_zero, List.takeWhile_nil, List.length_nil, Nat.le_zero]
      exact ⟨fun h => ⟨h, by simp [h]⟩, And.left⟩
  | succ count ih =>
      cases length with
      | zero => simp
      | succ length =>
          rw [List.range_succ_eq_map, List.takeWhile_cons, Nat.forall_lt_succ_left]
          split
          · rename_i hfirst
            rw [List.length_cons, List.takeWhile_map, List.length_map, Nat.add_le_add_iff_right, ih,
              Nat.add_le_add_iff_right, and_iff_right hfirst]
            rfl
          · rename_i hfirst
            exact iff_of_false (Nat.not_succ_le_zero length) fun h => hfirst h.2.1

theorem le_leadingOnes_iff {mask : BitVec width} :
    length ≤ leadingOnes mask ↔ ∀ index < length, mask.getMsbD index = true := by
  rw [leadingOnes, le_length_takeWhile_range_iff, and_iff_right_iff_imp]
  intro hones
  by_contra hlong
  have hbeyond := hones width (Nat.not_le.mp hlong)
  rw [BitVec.getMsbD_of_ge mask width (Nat.le_refl width)] at hbeyond
  cases hbeyond

theorem getMsbD_ones {index : Nat} :
    (ones width length).getMsbD index = decide (index < length ∧ index < width) := by
  rw [ones, BitVec.getMsbD_shiftLeft, BitVec.getMsbD_allOnes]
  exact decide_eq_decide.mpr (by omega)

theorem ones_of_le (h : width ≤ length) : ones width length = BitVec.allOnes width := by
  rw [ones, Nat.sub_eq_zero_of_le h, BitVec.shiftLeft_zero]

theorem leadingOnes_le_width (mask : BitVec width) : leadingOnes mask ≤ width :=
  (le_length_takeWhile_range_iff.mp (Nat.le_refl _)).1

theorem leadingOnes_ones (h : length ≤ width) : leadingOnes (ones width length) = length := by
  apply Nat.le_antisymm
  · by_contra hmore
    have hbit := le_leadingOnes_iff.mp (Nat.not_le.mp hmore) length (Nat.lt_succ_self length)
    rw [getMsbD_ones, decide_eq_true_eq] at hbit
    exact Nat.lt_irrefl length hbit.1
  · rw [le_leadingOnes_iff]
    intro index hindex
    rw [getMsbD_ones]
    exact decide_eq_true ⟨hindex, Nat.lt_of_lt_of_le hindex h⟩

/-- A word starts with so many ones exactly if the ones of that length are in it. -/
theorem and_ones_eq_iff {mask : BitVec width} (h : length ≤ width) :
    mask &&& ones width length = ones width length ↔ length ≤ leadingOnes mask := by
  rw [le_leadingOnes_iff]
  constructor
  · intro hand index hindex
    have hbit := congrArg (·.getMsbD index) hand
    have hone : (ones width length).getMsbD index = true := by
      rw [getMsbD_ones]
      exact decide_eq_true ⟨hindex, Nat.lt_of_lt_of_le hindex h⟩
    simpa [hone] using hbit
  · intro hones
    apply BitVec.eq_of_getMsbD_eq
    intro index _
    rw [BitVec.getMsbD_and, Bool.and_eq_right_iff_imp, getMsbD_ones, decide_eq_true_eq]
    exact fun hindex => hones index hindex.1

end

/-! Prefix lengths. -/

section

variable {size : Nat}

theorem le_prefixLength_iff {mask : Octets size} {length : Nat} (h : length ≤ 8 * size) :
    length ≤ prefixLength mask ↔
      mask.and (ofPrefixLength size length) = ofPrefixLength size length := by
  rw [prefixLength, ← and_ones_eq_iff h, ← bits_ofPrefixLength, ← bits_and]
  exact ⟨fun heq => bits_injective heq, congrArg bits⟩

theorem prefixLength_le (mask : Octets size) : prefixLength mask ≤ 8 * size :=
  leadingOnes_le_width (bits mask)

theorem prefixLength_ofPrefixLength {length : Nat} (h : length ≤ 8 * size) :
    prefixLength (ofPrefixLength size length) = length := by
  rw [prefixLength, bits_ofPrefixLength, leadingOnes_ones h]

theorem prefixLength_mono {inner outer : Octets size} (h : inner.and outer = inner) :
    prefixLength inner ≤ prefixLength outer := by
  rw [prefixLength, prefixLength, le_leadingOnes_iff]
  intro index hindex
  have hinner : (bits inner).getMsbD index = true := by
    exact le_leadingOnes_iff.mp (Nat.le_refl _) index hindex
  rw [← h, bits_and, BitVec.getMsbD_and, Bool.and_eq_true] at hinner
  exact hinner.2

theorem ofPrefixLength_mono {short long : Nat} (h : short ≤ long) :
    (ofPrefixLength size short).and (ofPrefixLength size long) = ofPrefixLength size short := by
  apply bits_injective
  apply BitVec.eq_of_getMsbD_eq
  intro index _
  rw [bits_and, bits_ofPrefixLength, bits_ofPrefixLength, BitVec.getMsbD_and,
    Bool.and_eq_left_iff_imp, getMsbD_ones, getMsbD_ones, decide_eq_true_eq, decide_eq_true_eq]
  exact fun hindex => ⟨Nat.lt_of_lt_of_le hindex.1 h, hindex.2⟩

theorem getMsbD_ofPrefixLength_prefixLength (mask : Octets size) (index : Nat) :
    (bits (ofPrefixLength size (prefixLength mask))).getMsbD index = true ↔
      ∀ earlier ≤ index, (bits mask).getMsbD earlier = true := by
  have hwidth := prefixLength_le mask
  have hones : index < prefixLength mask ↔ ∀ earlier < index + 1, (bits mask).getMsbD earlier = true :=
    le_leadingOnes_iff
  rw [bits_ofPrefixLength, getMsbD_ones, decide_eq_true_eq,
    and_iff_left_of_imp fun hindex => Nat.lt_of_lt_of_le hindex hwidth, hones]
  simp only [Nat.lt_succ_iff]

theorem ofPrefixLength_of_le {length : Nat} (h : 8 * size ≤ length) :
    ofPrefixLength size length = Octets.full size := by
  apply bits_injective
  rw [bits_ofPrefixLength, bits_full, ones_of_le h]

end

/-- The prefix length of a mask is the greatest whose ones are all in the mask. So either function
keeps the order of the other's results, a prefix length is read back from its mask, and of a mask
the ones before its first zero are left. -/
theorem prefixLength_approximates_mask (size : Nat) :
    (∀ (mask : Octets size) (length : Nat), length ≤ 8 * size →
      (length ≤ prefixLength mask ↔
        mask.and (ofPrefixLength size length) = ofPrefixLength size length)) ∧
    (∀ mask : Octets size, prefixLength mask ≤ 8 * size) ∧
    (∀ inner outer : Octets size, inner.and outer = inner →
      prefixLength inner ≤ prefixLength outer) ∧
    (∀ short long : Nat, short ≤ long →
      (ofPrefixLength size short).and (ofPrefixLength size long) = ofPrefixLength size short) ∧
    (∀ length ≤ 8 * size, prefixLength (ofPrefixLength size length) = length) ∧
    (∀ (mask : Octets size) (index : Nat),
      (bits (ofPrefixLength size (prefixLength mask))).getMsbD index = true ↔
        ∀ earlier ≤ index, (bits mask).getMsbD earlier = true) ∧
    ∀ length : Nat, 8 * size ≤ length → ofPrefixLength size length = Octets.full size :=
  ⟨fun _ _ => le_prefixLength_iff, prefixLength_le, fun _ _ => prefixLength_mono,
    fun _ _ => ofPrefixLength_mono, fun _ => prefixLength_ofPrefixLength,
    getMsbD_ofPrefixLength_prefixLength, fun _ => ofPrefixLength_of_le⟩

example : prefixLength (⟨[255, 0, 255, 0], rfl⟩ : Octets 4) = 8 := by decide

end Mask

end TunnelControl
