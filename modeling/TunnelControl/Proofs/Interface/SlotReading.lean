import TunnelControl.Proofs.Interface.AssignmentCourse

namespace TunnelControl

namespace Subnet

variable {family : Family} {text : String} {subnet : Subnet}

/-- A text that can be read in a family looks like that family: neither the slash nor the digits behind
it bring a colon into it. -/
theorem family_of_ofTextIn (h : ofTextIn family text = .ok subnet) :
    Family.ofText text = family := by
  obtain ⟨front, back?, hparts⟩ := exists_parts text
  obtain ⟨parts, hsplit, haddress, hlength⟩ := ofTextIn_eq_ok_iff.mp h
  rw [hparts.split_eq] at hsplit
  split at hsplit
  · cases hsplit
  · cases hsplit
    have hfront := Address.colon_mem_iff_of_ofText? (addressOfText_eq_ok_iff.mp haddress)
    rw [Family.ofText_eq_iff, ← hfront]
    cases hparts with
    | alone hslash => rfl
    | both back hslash =>
        have hback := (lengthOfText_eq_ok_iff.mp hlength).1.colon_notMem
        rw [lengthPart, Option.getD_some] at hback
        simp [hback]

theorem ofTextIn_eq_ok_iff_ofText :
    ofTextIn family text = .ok subnet ↔
      ofText text = .ok subnet ∧ subnet.address.family = family := by
  constructor
  · intro h
    rw [ofText, family_of_ofTextIn h]
    exact ⟨h, (of_ofTextIn h).1⟩
  · rintro ⟨h, rfl⟩
    rw [ofText] at h
    rwa [(of_ofTextIn h).1]

theorem length_of_ofText (hslash : '/' ∉ text.toList) (h : ofText text = .ok subnet) :
    subnet.length.toNat = subnet.address.family.fullLength := by
  cases ofText_eq_ok_iff_written.mp h with
  | @alone _ address _ haddress =>
      have hfull : address.family.fullLength < 256 := fullLength_lt address.family
      rw [UInt8.toNat_ofNat', Nat.mod_eq_of_lt hfull]
  | both => exact absurd (by simp) hslash

end Subnet

namespace Host

/-- The slot's text passes for the subnet, and the machine is asked for nothing. -/
def Takes (family : Family) (text : String) (subnet : Subnet) : Prop :=
  ∀ host, (readSlot family text).run host = (.ok subnet, host)

theorem takes_iff {family : Family} {text : String} {subnet : Subnet} :
    Takes family text subnet ↔ Subnet.ofTextIn family text = .ok subnet := by
  constructor
  · intro h
    have hread := congrArg Prod.fst (h {})
    rw [readSlot] at hread
    split at hread
    · rename_i found hfound
      cases hread
      exact hfound
    · cases hread
  · intro h host
    rw [readSlot, h]
    rfl

theorem Takes.assignSlot_eq {family : Family} {text : String} {subnet : Subnet}
    (h : Takes family text subnet) (htext : text ≠ "") (settings : Settings) (name : String) :
    assignSlot settings name family text = assign settings name subnet := by
  have hempty : ¬ text.isEmpty = true := fun hnone => htext (String.isEmpty_iff.mp hnone)
  have hread : readSlot family text = pure subnet := by
    rw [readSlot, takes_iff.mp h]
  rw [assignSlot, if_neg hempty, hread, pure_bind]

/-- The slots take the texts of allowed ranges, each those of its own family. A text that its slot
takes is assigned; with any other the operation fails before it asks the machine for anything. -/
theorem slots_take_subnets_of_family :
    (∀ family text subnet, Takes family text subnet ↔
      Subnet.ofText text = .ok subnet ∧ subnet.address.family = family) ∧
    (∀ text older newer, Takes .v4 text older → ¬ Takes .v6 text newer) ∧
    (∀ family text subnet, '/' ∉ text.toList → Takes family text subnet →
      subnet.length.toNat = family.fullLength) ∧
    (∀ settings name family text subnet, text ≠ "" → Takes family text subnet →
      assignSlot settings name family text = assign settings name subnet) ∧
    ∀ settings name family text, text ≠ "" → (∀ subnet, ¬ Takes family text subnet) →
      ∃ fault, Subnet.ofTextIn family text = .error fault ∧
        ∀ host, (assignSlot settings name family text).run host =
          (.error (.ofSubnetFault fault), host) := by
  have htakes : ∀ family text subnet, Takes family text subnet ↔
      Subnet.ofText text = .ok subnet ∧ subnet.address.family = family :=
    fun family text subnet => takes_iff.trans Subnet.ofTextIn_eq_ok_iff_ofText
  refine ⟨htakes, ?_, ?_, fun settings name family text subnet htext h =>
    h.assignSlot_eq htext settings name, ?_⟩
  · intro text older newer holder hnewer
    obtain ⟨hread, hfamily⟩ := (htakes _ _ _).mp holder
    obtain ⟨hother, hotherFamily⟩ := (htakes _ _ _).mp hnewer
    cases hread.symm.trans hother
    cases hfamily.symm.trans hotherFamily
  · intro family text subnet hslash h
    obtain ⟨hread, rfl⟩ := (htakes _ _ _).mp h
    exact Subnet.length_of_ofText hslash hread
  · intro settings name family text htext h
    cases hread : Subnet.ofTextIn family text with
    | ok subnet => exact absurd (takes_iff.mpr hread) (h subnet)
    | error fault => exact ⟨fault, rfl, fun host => run_assignSlot_of_fault htext hread⟩

/-- A text may be refused for another reason in a slot than as an allowed range. -/
example : Subnet.ofTextIn .v4 "10.0.0.1/:" = .error (.badLength ":") ∧
    Subnet.ofText "10.0.0.1/:" = .error (.badAddress "10.0.0.1") := by decide

end Host

end TunnelControl
