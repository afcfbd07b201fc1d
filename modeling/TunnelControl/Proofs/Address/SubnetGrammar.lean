import TunnelControl.Failure
import TunnelControl.Proofs.Address.AddressSize
import TunnelControl.Proofs.Address.SubnetReading

namespace TunnelControl

namespace Subnet

variable {text front : String} {back? : Option String}

/-! Texts that are read. -/

theorem Parts.ofText_eq_ok_iff (h : Parts text front back?) {subnet : Subnet} :
    ofText text = .ok subnet ↔
      ¬ Oversize front back? ∧
        Address.ofText? (Family.ofText text) front = some subnet.address ∧
        lengthOfText (Family.ofText text) (lengthPart text back?) = .ok subnet.length := by
  rw [ofText, ofTextIn_eq_ok_iff, h.split_eq]
  split
  · rename_i hlarge
    simp [hlarge]
  · rename_i hfits
    simp [hfits, addressOfText_eq_ok_iff]

/-- The texts of a subnet: its address where every bit counts, or the address, a slash and the number
of bits that count in at most three bytes. -/
inductive Written : String → Subnet → Prop
  | alone {text : String} {address : Address} (hslash : '/' ∉ text.toList)
      (haddress : Address.ofText? (Family.ofText text) text = some address) :
      Written text ⟨address, UInt8.ofNat address.family.fullLength⟩
  | both {front back : String} {subnet : Subnet} (hslash : '/' ∉ front.toList)
      (haddress : Address.ofText? subnet.address.family front = some subnet.address)
      (hsize : 1 ≤ back.utf8ByteSize ∧ back.utf8ByteSize ≤ 3)
      (hlength : Decimal.Numeral back.toList subnet.length.toNat) (hfits : subnet.Fits) :
      Written (front ++ "/" ++ back) subnet

theorem lengthOfText_fullLength (family : Family) :
    lengthOfText family (String.ofList (Decimal.digits family.fullLength)) =
      .ok (UInt8.ofNat family.fullLength) := by
  cases family with
  | v4 => exact @lengthOfText_digits .v4 32 (by decide)
  | v6 => exact @lengthOfText_digits .v6 128 (by decide)

theorem longestText_lt (family : Family) : family.longestText < addressLimit := by
  cases family <;> decide

theorem not_oversize {family : Family} {address : Address}
    (haddress : Address.ofText? family front = some address)
    (hback : ∀ back ∈ back?, back.utf8ByteSize ≤ 3) : ¬ Oversize front back? := by
  have hlong := longestText_lt family
  have hfront := Address.utf8ByteSize_le_longestText haddress
  rintro (hlarge | ⟨back, hmem, hlarge⟩)
  · omega
  · exact absurd hlarge (Nat.not_le.mpr (Nat.lt_succ_of_le (hback back hmem)))

theorem ofText_eq_ok_iff_written {subnet : Subnet} :
    ofText text = .ok subnet ↔ Written text subnet := by
  constructor
  · intro h
    obtain ⟨front, back?, hparts⟩ := exists_parts text
    obtain ⟨hfits, haddress, hlength⟩ := hparts.ofText_eq_ok_iff.mp h
    have hfamily := family_of_ofText? haddress
    cases hparts with
    | alone hslash =>
        have hfull : subnet.length = UInt8.ofNat subnet.address.family.fullLength := by
          rw [hfamily]
          exact Except.ok.inj (hlength.symm.trans (lengthOfText_fullLength _))
        obtain ⟨address, length⟩ := subnet
        dsimp only at hfull haddress
        subst hfull
        exact .alone hslash haddress
    | both back hslash =>
        obtain ⟨hnumeral, hle⟩ := lengthOfText_eq_ok_iff.mp hlength
        rw [← hfamily] at haddress hle
        have hempty : back.utf8ByteSize ≠ 0 := fun hzero => hnumeral.ne_nil <| by
          rw [lengthPart, Option.getD_some, String.utf8ByteSize_eq_zero_iff.mp hzero]
          rfl
        have hshort : ¬ lengthLimit ≤ back.utf8ByteSize :=
          fun hlarge => hfits (.inr ⟨back, rfl, hlarge⟩)
        exact .both hslash haddress
          ⟨Nat.one_le_iff_ne_zero.mpr hempty, Nat.le_of_lt_succ (Nat.not_le.mp hshort)⟩
          hnumeral hle
  · intro h
    cases h with
    | alone hslash haddress =>
        refine (Parts.alone hslash).ofText_eq_ok_iff.mpr ⟨not_oversize haddress nofun, haddress, ?_⟩
        rw [family_of_ofText? haddress]
        exact lengthOfText_fullLength _
    | @both front back subnet hslash haddress hsize hlength hfits =>
        have hfamily : Family.ofText (front ++ "/" ++ back) = subnet.address.family := by
          rw [Family.ofText_eq_iff, ← Address.colon_mem_iff_of_ofText? haddress]
          have hcolon := hlength.colon_notMem
          simp [hcolon]
        refine (Parts.both back hslash).ofText_eq_ok_iff.mpr ⟨not_oversize haddress ?_, ?_, ?_⟩
        · rintro back ⟨⟩
          exact hsize.2
        · rw [hfamily]
          exact haddress
        · rw [hfamily]
          exact lengthOfText_eq_ok_iff.mpr ⟨hlength, hfits⟩

/-! Texts that are not read. -/

theorem kind_of_split {text : String} {fault : Fault}
    (h : split text = .error fault) : (Failure.ofSubnetFault fault).kind = .unfitText := by
  unfold split at h
  split at h
  · split at h <;> cases h
    rfl
  · dsimp only at h
    split at h <;> cases h
    rfl

theorem kind_of_addressOfText {family : Family} {text : String} {fault : Fault}
    (h : addressOfText family text = .error fault) :
    (Failure.ofSubnetFault fault).kind = .badAddress := by
  unfold addressOfText at h
  split at h <;> cases h
  rfl

theorem kind_of_lengthOfText {family : Family} {text : String} {fault : Fault}
    (h : lengthOfText family text = .error fault) :
    (Failure.ofSubnetFault fault).kind = .badLength := by
  unfold lengthOfText checkLength at h
  split at h
  · split at h
    · split at h <;> cases h
      rfl
    · cases h
      rfl
  · cases h
    rfl

/-- Why a text with these parts is not read. The family of the address is that of the whole text. -/
def refusal (text front : String) (back? : Option String) : Failure.Kind :=
  if Oversize front back? then .unfitText
  else if Address.ofText? (Family.ofText text) front = none then .badAddress
  else .badLength

theorem Parts.kind_of_ofText (h : Parts text front back?) {fault : Fault}
    (hfault : ofText text = .error fault) :
    (Failure.ofSubnetFault fault).kind = refusal text front back? := by
  have hsplit := h.split_eq
  rw [ofText, ofTextIn_eq] at hfault
  unfold refusal
  split
  · rename_i hlarge
    rw [if_pos hlarge] at hsplit
    rw [hsplit] at hfault
    cases hfault
    exact kind_of_split hsplit
  · rename_i hfits
    rw [if_neg hfits] at hsplit
    simp only [hsplit] at hfault
    split at hfault
    · rename_i refused haddress
      cases hfault
      have hnone : Address.ofText? (Family.ofText text) front = none := by
        rw [Option.eq_none_iff_forall_ne_some]
        intro address hread
        rw [addressOfText_eq_ok_iff.mpr hread] at haddress
        cases haddress
      rw [if_pos hnone]
      exact kind_of_addressOfText haddress
    · rename_i address haddress
      have hread := addressOfText_eq_ok_iff.mp haddress
      rw [if_neg (hread ▸ Option.some_ne_none address)]
      split at hfault
      · rename_i refused hlength
        cases hfault
        exact kind_of_lengthOfText hlength
      · cases hfault

/-- A text is read exactly if it is written as the grammar has it, and the fields of the parts refuse
no address. Of a text that is not read, the first part that is wrong gives the failure its kind. -/
theorem texts_of_grammar_read :
    (∀ text subnet, ofText text = .ok subnet ↔ Written text subnet) ∧
    (∀ family text address, Address.ofText? family text = some address →
      text.utf8ByteSize ≤ family.longestText ∧ family.longestText < addressLimit) ∧
    (∀ text, ∃ front back?, Parts text front back?) ∧
    ∀ text front back? fault, Parts text front back? → ofText text = .error fault →
      (Failure.ofSubnetFault fault).kind = refusal text front back? := by
  refine ⟨fun text subnet => ofText_eq_ok_iff_written, ?_, exists_parts, ?_⟩
  · intro family text address haddress
    exact ⟨Address.utf8ByteSize_le_longestText haddress, longestText_lt family⟩
  · intro text front back? fault hparts
    exact hparts.kind_of_ofText

end Subnet

end TunnelControl
