import TunnelControl.Address.Subnet
import TunnelControl.Proofs.Address.AddressReading
import TunnelControl.Proofs.Text.Utf8

namespace TunnelControl

/-! The characters of written addresses. -/

namespace Address

def alphabet : List Char :=
  "0123456789abcdef.:".toList

theorem alphabet_spec : ∀ char ∈ alphabet, char ≠ '/' ∧ char.utf8Size = 1 := by
  have hall : (alphabet.all fun char => char ≠ '/' ∧ char.utf8Size = 1) = true := by decide
  exact fun char hmem => of_decide_eq_true (List.all_eq_true.mp hall char hmem)

theorem mem_alphabet_of_all {chars : List Char} (h : chars.all (· ∈ alphabet) = true) :
    ∀ char ∈ chars, char ∈ alphabet :=
  fun char hmem => of_decide_eq_true (List.all_eq_true.mp h char hmem)

theorem mem_alphabet_of_mem_toDigits {base value : Nat} (hbase : 1 < base ∧ base ≤ 16)
    {char : Char} (h : char ∈ Nat.toDigits base value) : char ∈ alphabet ∧ char ≠ ':' := by
  obtain ⟨digit, hdigit, rfl⟩ := exists_of_mem_toDigits hbase.1 h
  have hall : ∀ digit < 16, Nat.digitChar digit ∈ alphabet ∧ Nat.digitChar digit ≠ ':' := by
    decide
  exact hall digit (Nat.lt_of_lt_of_le hdigit hbase.2)

end Address

theorem Decimal.mem_alphabet {value : Nat} {char : Char} (h : char ∈ digits value) :
    char ∈ Address.alphabet ∧ char ≠ ':' :=
  Address.mem_alphabet_of_mem_toDigits (by decide) h

namespace IPv4

theorem mem_alphabet {address : IPv4} {char : Char} (h : char ∈ chars address) :
    char ∈ Address.alphabet ∧ char ≠ ':' := by
  obtain ⟨a, b, c, d, -, hchars⟩ := exists_chars_eq address
  have hdot : '.' ∈ Address.alphabet ∧ '.' ≠ ':' := by decide
  rw [hchars] at h
  simp only [List.mem_append, List.mem_cons] at h
  rcases h with h | rfl | h | rfl | h | rfl | h
  all_goals first | exact hdot | exact Decimal.mem_alphabet h

theorem length_chars_le (address : IPv4) : (chars address).length ≤ 15 := by
  obtain ⟨a, b, c, d, -, hchars⟩ := exists_chars_eq address
  have hdigits : ∀ byte : UInt8, (Decimal.digits byte.toNat).length ≤ 3 := by
    intro byte
    have hbyte : byte.toNat < 256 := byte.toNat_lt
    exact Decimal.length_digits_le (by omega)
  have ha := hdigits a
  have hb := hdigits b
  have hc := hdigits c
  have hd := hdigits d
  simp only [hchars, List.length_append, List.length_cons]
  omega

end IPv4

namespace IPv6

theorem mem_alphabet_of_mem_groupChars {groups : List Nat} {char : Char}
    (h : char ∈ groupChars groups) : char ∈ Address.alphabet := by
  have hdigits : ∀ group, char ∈ Hexadecimal.digits group → char ∈ Address.alphabet :=
    fun _ hmem => (Address.mem_alphabet_of_mem_toDigits (by decide) hmem).1
  cases groups with
  | nil => exact absurd h (by simp [groupChars, List.intercalate])
  | cons group groups =>
      rw [groupChars_cons, tailChars] at h
      rcases List.mem_append.mp h with hfirst | hlater
      · exact hdigits group hfirst
      · obtain ⟨next, -, hnext⟩ := List.mem_flatMap.mp hlater
        rcases List.mem_cons.mp hnext with rfl | hnext
        · decide
        · exact hdigits next hnext

theorem mem_alphabet {address : IPv6} {char : Char} (h : char ∈ chars address) :
    char ∈ Address.alphabet := by
  have hgroups : ∀ groups, char ∈ groupChars groups → char ∈ Address.alphabet :=
    fun _ => mem_alphabet_of_mem_groupChars
  rw [chars] at h
  split at h
  · rcases List.mem_append.mp h with hprefix | hinner
    · have hall : ∀ char ∈ "::ffff:".toList, char ∈ Address.alphabet :=
        Address.mem_alphabet_of_all (by decide)
      exact hall char hprefix
    · exact (IPv4.mem_alphabet hinner).1
  · rw [compressed] at h
    dsimp only at h
    split at h
    · have hcolons : ∀ char ∈ [':', ':'], char ∈ Address.alphabet :=
        Address.mem_alphabet_of_all (by decide)
      rcases List.mem_append.mp h with hfront | hback
      · rcases List.mem_append.mp hfront with hfront | hmiddle
        · exact hgroups _ hfront
        · exact hcolons char hmiddle
      · exact hgroups _ hback
    · exact hgroups _ h

theorem length_groupChars_le {groups : List Nat} (h : ∀ group ∈ groups, group < 65536) :
    (groupChars groups).length ≤ 5 * groups.length := by
  have htail : ∀ later : List Nat, (∀ group ∈ later, group < 65536) →
      (tailChars later).length ≤ 5 * later.length := by
    intro later hlater
    induction later with
    | nil => exact Nat.le_refl 0
    | cons group later ih =>
        obtain ⟨hgroup, hlater⟩ := List.forall_mem_cons.mp hlater
        have hdigits := Hexadecimal.length_digits_le hgroup
        have hrest := ih hlater
        rw [tailChars] at hrest ⊢
        rw [List.flatMap_cons, List.length_append, List.length_cons, List.length_cons]
        omega
  cases groups with
  | nil => exact Nat.le_of_eq rfl
  | cons group groups =>
      obtain ⟨hgroup, hlater⟩ := List.forall_mem_cons.mp h
      have hdigits := Hexadecimal.length_digits_le hgroup
      have hrest := htail groups hlater
      rw [groupChars_cons, List.length_append, List.length_cons]
      omega

theorem length_groups (address : IPv6) : (groups address).length = 8 := by
  rw [groups, length_pairs, address.size_eq]

theorem length_chars_le (address : IPv6) : (chars address).length ≤ 42 := by
  have hlength := length_groups address
  have hgroups : ∀ group ∈ groups address, group < 65536 := pairs_lt address.bytes
  rw [chars]
  split
  · rename_i inner hinner
    have hprefix : "::ffff:".toList.length = 7 := by decide
    have hdotted := IPv4.length_chars_le inner
    rw [List.length_append, hprefix]
    omega
  · rw [compressed]
    dsimp only
    split
    · have hfront := length_groupChars_le fun group hmem =>
        hgroups group (List.mem_of_mem_take (i := (longestZeros (groups address)).1) hmem)
      have hback := length_groupChars_le fun group hmem =>
        hgroups group (List.mem_of_mem_drop
          (i := (longestZeros (groups address)).1 + (longestZeros (groups address)).2) hmem)
      rw [List.length_take] at hfront
      rw [List.length_drop] at hback
      simp only [List.length_append, List.length_cons, List.length_nil]
      omega
    · have hall := length_groupChars_le hgroups
      omega

theorem exists_groups_eq (address : IPv6) :
    ∃ first second rest, groups address = first :: second :: rest := by
  have hlength := length_groups address
  rcases hgroups : groups address with _ | ⟨first, _ | ⟨second, rest⟩⟩
  · rw [hgroups] at hlength
    cases hlength
  · rw [hgroups] at hlength
    cases hlength
  · exact ⟨first, second, rest, rfl⟩

theorem colon_mem_chars (address : IPv6) : ':' ∈ chars address := by
  rw [chars]
  split
  · exact List.mem_append_left _ (by decide)
  · rw [compressed]
    dsimp only
    split
    · exact List.mem_append_left _ (List.mem_append_right _ List.mem_cons_self)
    · obtain ⟨first, second, rest, hgroups⟩ := exists_groups_eq address
      rw [hgroups, groupChars_cons, tailChars, List.flatMap_cons]
      exact List.mem_append_right _ (List.mem_append_left _ List.mem_cons_self)

end IPv6

namespace Address

theorem mem_alphabet {address : Address} {char : Char} (h : char ∈ address.chars) :
    char ∈ alphabet := by
  cases address with
  | v4 octets => exact (IPv4.mem_alphabet h).1
  | v6 octets => exact IPv6.mem_alphabet h

theorem length_chars_le (address : Address) : address.chars.length ≤ 42 := by
  cases address with
  | v4 octets => exact Nat.le_trans (IPv4.length_chars_le octets) (by decide)
  | v6 octets => exact IPv6.length_chars_le octets

theorem colon_mem_chars_iff (address : Address) : ':' ∈ address.chars ↔ address.family = .v6 := by
  cases address with
  | v4 octets => exact ⟨fun hcolon => absurd rfl (IPv4.mem_alphabet hcolon).2, nofun⟩
  | v6 octets => exact ⟨fun _ => rfl, fun _ => IPv6.colon_mem_chars octets⟩

end Address

theorem Family.ofText_eq_iff {text : String} {family : Family} :
    Family.ofText text = family ↔ (':' ∈ text.toList ↔ family = .v6) := by
  unfold Family.ofText
  split
  · rename_i hcolon
    rw [iff_true_left hcolon]
    exact eq_comm
  · rename_i hcolon
    rw [iff_false_left hcolon]
    cases family <;> decide

namespace Subnet

/-! The parts of a text. -/

/-- A text is its address part alone, or a slash and a length part follow the address part. -/
inductive Parts : String → String → Option String → Prop
  | alone {text : String} (hslash : '/' ∉ text.toList) : Parts text text none
  | both {front : String} (back : String) (hslash : '/' ∉ front.toList) :
      Parts (front ++ "/" ++ back) front (some back)

/-- A part is too long for its field. -/
def Oversize (front : String) (back? : Option String) : Prop :=
  addressLimit ≤ front.utf8ByteSize ∨ ∃ back ∈ back?, lengthLimit ≤ back.utf8ByteSize

instance (front : String) (back? : Option String) : Decidable (Oversize front back?) :=
  inferInstanceAs (Decidable (_ ∨ _))

section

variable {text front : String} {back? : Option String}

theorem exists_parts (text : String) : ∃ front back?, Parts text front back? := by
  have hfront : '/' ∉ text.toList.takeWhile (· ≠ '/') := by
    intro hmem
    simpa using List.mem_takeWhile_imp hmem
  have htext : text.toList.takeWhile (· ≠ '/') ++ text.toList.dropWhile (· ≠ '/') = text.toList :=
    List.takeWhile_append_dropWhile
  have hstop := List.head?_dropWhile_not (fun char => decide (char ≠ '/')) text.toList
  generalize text.toList.takeWhile (· ≠ '/') = front at hfront htext
  generalize text.toList.dropWhile (· ≠ '/') = back at htext hstop
  cases back with
  | nil =>
      rw [List.append_nil] at htext
      exact ⟨text, none, .alone (htext ▸ hfront)⟩
  | cons slash rest =>
      have hslash : slash = '/' := by simpa using hstop
      have hparts : Parts (String.ofList front ++ "/" ++ String.ofList rest) (String.ofList front)
          (some (String.ofList rest)) := .both _ (by rwa [String.toList_ofList])
      have heq : String.ofList front ++ "/" ++ String.ofList rest = text := by
        apply String.toList_inj.mp
        simp [← htext, hslash]
      exact ⟨_, _, heq ▸ hparts⟩

/-- The length part, or that of a single address where the text has none. -/
def lengthPart (text : String) (back? : Option String) : String :=
  back?.getD (String.ofList (Decimal.digits (Family.ofText text).fullLength))

theorem Parts.split_eq (h : Parts text front back?) :
    split text =
      if Oversize front back? then .error (.unfit text)
      else .ok (front, lengthPart text back?) := by
  cases h with
  | alone hslash =>
      have hfront : ∀ char ∈ text.toList, decide (char ≠ '/') = true :=
        fun char hmem => decide_eq_true fun heq => hslash (heq ▸ hmem)
      have hback : (text.toList ++ []).dropWhile (· ≠ '/') = [] :=
        dropWhile_append_of_stop hfront nofun
      rw [List.append_nil] at hback
      have hsize : Oversize text none ↔ ¬ text.utf8ByteSize < addressLimit := by
        simp [Oversize]
      simp only [split, hback, hsize, ite_not]
      rfl
  | both back hslash =>
      have hfront : ∀ char ∈ front.toList, decide (char ≠ '/') = true :=
        fun char hmem => decide_eq_true fun heq => hslash (heq ▸ hmem)
      have hstop : ∀ char ∈ ('/' :: back.toList).head?, decide (char ≠ '/') = false := by
        rintro char ⟨⟩
        rfl
      have hchars : (front ++ "/" ++ back).toList = front.toList ++ '/' :: back.toList := by
        simp
      have hsize : Oversize front (some back) ↔
          ¬ (front.utf8ByteSize < addressLimit ∧ back.utf8ByteSize < lengthLimit) := by
        simp only [Oversize, Option.mem_some_iff, exists_eq_left']
        omega
      simp only [split, hchars, takeWhile_append_of_stop hfront hstop,
        dropWhile_append_of_stop hfront hstop, String.ofList_toList, hsize, ite_not]
      rfl

end

/-! The parts that are read. -/

theorem addressOfText_eq_ok_iff {family : Family} {text : String} {address : Address} :
    addressOfText family text = .ok address ↔ Address.ofText? family text = some address := by
  unfold addressOfText
  split
  · rename_i found hfound
    rw [hfound, Except.ok.injEq, Option.some.injEq]
  · rename_i hnone
    simp [hnone]

theorem family_of_ofText? {family : Family} {text : String} {address : Address}
    (h : Address.ofText? family text = some address) : address.family = family := by
  cases family with
  | v4 =>
      obtain ⟨octets, -, rfl⟩ := Option.map_eq_some_iff.mp h
      rfl
  | v6 =>
      obtain ⟨octets, -, rfl⟩ := Option.map_eq_some_iff.mp h
      rfl

theorem fullLength_lt (family : Family) : family.fullLength < 256 := by
  cases family <;> decide

theorem checkLength_eq_ok_iff {family : Family} {value : Nat} {length : UInt8} :
    checkLength family value = .ok length ↔
      value = length.toNat ∧ length.toNat ≤ family.fullLength := by
  have hfull := fullLength_lt family
  unfold checkLength
  split
  · rename_i hvalue
    have hsmall : value < 256 := Nat.lt_of_le_of_lt hvalue hfull
    rw [Except.ok.injEq, ← UInt8.toNat_inj, UInt8.toNat_ofNat', Nat.mod_eq_of_lt hsmall]
    exact ⟨fun heq => ⟨heq, heq ▸ hvalue⟩, And.left⟩
  · rename_i hvalue
    exact ⟨nofun, fun ⟨heq, hlength⟩ => absurd (heq ▸ hlength) hvalue⟩

theorem lengthOfText_eq_ok_iff {family : Family} {text : String} {length : UInt8} :
    lengthOfText family text = .ok length ↔
      Decimal.Numeral text.toList length.toNat ∧ length.toNat ≤ family.fullLength := by
  rw [← Decimal.signed?_eq_some_iff]
  unfold lengthOfText
  split
  · rename_i value hvalue
    rw [hvalue, Option.some.injEq, ← checkLength_eq_ok_iff]
    split
    · rfl
    · rename_i hlarge
      have hfull := fullLength_lt family
      have hsize : UInt32.size = 4294967296 := rfl
      rw [checkLength_eq_ok_iff]
      exact ⟨nofun, fun ⟨heq, hlength⟩ => absurd hlarge (by omega)⟩
  · rename_i hnone
    simp [hnone]

/-- The first part that cannot be read decides. -/
theorem ofTextIn_eq (family : Family) (text : String) :
    ofTextIn family text =
      match split text with
      | .error fault => .error fault
      | .ok parts =>
          match addressOfText family parts.1 with
          | .error fault => .error fault
          | .ok address =>
              match lengthOfText family parts.2 with
              | .error fault => .error fault
              | .ok length => .ok ⟨address, length⟩ := by
  unfold ofTextIn
  cases split text with
  | error fault => rfl
  | ok parts =>
      dsimp only [bind, Except.bind]
      cases addressOfText family parts.1 with
      | error fault => rfl
      | ok address => cases lengthOfText family parts.2 <;> rfl

theorem ofTextIn_eq_ok_iff {family : Family} {text : String} {subnet : Subnet} :
    ofTextIn family text = .ok subnet ↔
      ∃ parts, split text = .ok parts ∧ addressOfText family parts.1 = .ok subnet.address ∧
        lengthOfText family parts.2 = .ok subnet.length := by
  rw [ofTextIn_eq]
  constructor
  · intro h
    split at h
    · cases h
    · rename_i parts hsplit
      split at h
      · cases h
      · rename_i address haddress
        split at h
        · cases h
        · rename_i length hlength
          cases h
          exact ⟨parts, hsplit, haddress, hlength⟩
  · rintro ⟨parts, hsplit, haddress, hlength⟩
    simp only [hsplit, haddress, hlength]

/-! Written subnets. -/

/-- The length is that of a prefix of the address. -/
def Fits (subnet : Subnet) : Prop :=
  subnet.length.toNat ≤ subnet.address.family.fullLength

theorem lengthOfText_digits {family : Family} {length : UInt8}
    (h : length.toNat ≤ family.fullLength) :
    lengthOfText family (String.ofList (Decimal.digits length.toNat)) = .ok length := by
  rw [lengthOfText_eq_ok_iff, String.toList_ofList]
  exact ⟨Decimal.numeral_digits length.toNat, h⟩

theorem parts_text (subnet : Subnet) :
    Parts subnet.text subnet.address.text
      (some (String.ofList (Decimal.digits subnet.length.toNat))) := by
  have htext : subnet.text = subnet.address.text ++ "/" ++
      String.ofList (Decimal.digits subnet.length.toNat) := by
    apply String.toList_inj.mp
    simp [text, chars, Address.text]
  rw [htext]
  refine .both _ fun hslash => ?_
  rw [Address.text, String.toList_ofList] at hslash
  exact (Address.alphabet_spec '/' (Address.mem_alphabet hslash)).1 rfl

theorem split_text (subnet : Subnet) :
    split subnet.text =
      .ok (subnet.address.text, String.ofList (Decimal.digits subnet.length.toNat)) := by
  have haddress : ∀ char ∈ subnet.address.chars, char.utf8Size = 1 :=
    fun char hmem => (Address.alphabet_spec char (Address.mem_alphabet hmem)).2
  have hdigits : ∀ char ∈ Decimal.digits subnet.length.toNat, char.utf8Size = 1 :=
    fun char hmem => (Address.alphabet_spec char (Decimal.mem_alphabet hmem).1).2
  have hlong := Address.length_chars_le subnet.address
  have hlength : subnet.length.toNat < 256 := subnet.length.toNat_lt
  have hshort := Decimal.length_digits_le (Nat.lt_trans hlength (by decide))
  have hfits : ¬ Oversize subnet.address.text
      (some (String.ofList (Decimal.digits subnet.length.toNat))) := by
    simp only [Oversize, Option.mem_some_iff, exists_eq_left', Address.text,
      Utf8.utf8ByteSize_ofList haddress, Utf8.utf8ByteSize_ofList hdigits, addressLimit,
      lengthLimit]
    omega
  rw [(parts_text subnet).split_eq, if_neg hfits]
  rfl

theorem ofTextIn_text {subnet : Subnet} (h : subnet.Fits) :
    ofTextIn subnet.address.family subnet.text = .ok subnet :=
  ofTextIn_eq_ok_iff.mpr ⟨_, split_text subnet,
    addressOfText_eq_ok_iff.mpr (Address.ofText?_text subnet.address), lengthOfText_digits h⟩

theorem family_text (subnet : Subnet) : Family.ofText subnet.text = subnet.address.family := by
  have hdigits : ':' ∉ Decimal.digits subnet.length.toNat :=
    fun hmem => (Decimal.mem_alphabet hmem).2 rfl
  rw [Family.ofText_eq_iff, text, chars, String.toList_ofList, List.mem_append, List.mem_cons,
    ← Address.colon_mem_chars_iff]
  exact ⟨fun hmem => hmem.resolve_right (not_or.mpr ⟨by decide, hdigits⟩), .inl⟩

theorem ofText_text {subnet : Subnet} (h : subnet.Fits) : ofText subnet.text = .ok subnet := by
  rw [ofText, family_text, ofTextIn_text h]

theorem of_ofTextIn {family : Family} {text : String} {subnet : Subnet}
    (h : ofTextIn family text = .ok subnet) : subnet.address.family = family ∧ subnet.Fits := by
  obtain ⟨parts, -, haddress, hlength⟩ := ofTextIn_eq_ok_iff.mp h
  have hfamily := family_of_ofText? (addressOfText_eq_ok_iff.mp haddress)
  refine ⟨hfamily, ?_⟩
  rw [Fits, hfamily]
  exact (lengthOfText_eq_ok_iff.mp hlength).2

theorem fits_of_ofText {text : String} {subnet : Subnet} (h : ofText text = .ok subnet) :
    subnet.Fits :=
  (of_ofTextIn h).2

/-- The written form of a subnet is read as that subnet, so it stands for every text of it. -/
theorem texts_read_back :
    (∀ subnet : Subnet, ofText subnet.text = .ok subnet ↔ subnet.Fits) ∧
    (∀ text subnet, ofText text = .ok subnet → ofText subnet.text = .ok subnet) ∧
    ∀ leftText rightText left right, ofText leftText = .ok left → ofText rightText = .ok right →
      (left = right ↔ left.text = right.text) := by
  have hagain : ∀ text subnet, ofText text = .ok subnet → ofText subnet.text = .ok subnet :=
    fun _ _ h => ofText_text (fits_of_ofText h)
  refine ⟨fun subnet => ⟨fits_of_ofText, ofText_text⟩, hagain, ?_⟩
  intro leftText rightText left right hleft hright
  refine ⟨congrArg text, fun htext => ?_⟩
  have hread := hagain leftText left hleft
  rw [htext, hagain rightText right hright] at hread
  exact (Except.ok.inj hread).symm

end Subnet

end TunnelControl
