import TunnelControl.Proofs.Address.AddressReading
import TunnelControl.Proofs.Text.Utf8

namespace TunnelControl

/-- A reader took at most `limit` characters, all of one kind, and left the rest. -/
def Took (kind : Char → Prop) (limit : Nat) (chars rest : List Char) : Prop :=
  ∃ front, chars = front ++ rest ∧ front.length ≤ limit ∧ ∀ char ∈ front, kind char

namespace Took

variable {kind other : Char → Prop} {limit more : Nat} {chars middle rest : List Char}

theorem nothing (kind : Char → Prop) (chars : List Char) : Took kind 0 chars chars :=
  ⟨[], rfl, Nat.le_refl 0, nofun⟩

theorem one {char : Char} (h : kind char) (rest : List Char) : Took kind 1 (char :: rest) rest :=
  ⟨[char], rfl, Nat.le_refl 1, List.forall_mem_singleton.mpr h⟩

theorem trans (first : Took kind limit chars middle) (second : Took kind more middle rest) :
    Took kind (limit + more) chars rest := by
  obtain ⟨front, rfl, hfront, hkind⟩ := first
  obtain ⟨back, rfl, hback, hmore⟩ := second
  refine ⟨front ++ back, (List.append_assoc front back rest).symm, ?_, ?_⟩
  · rw [List.length_append]
    exact Nat.add_le_add hfront hback
  · exact List.forall_mem_append.mpr ⟨hkind, hmore⟩

theorem mono (h : Took kind limit chars rest) (hkind : ∀ char, kind char → other char)
    (hlimit : limit ≤ more) : Took other more chars rest := by
  obtain ⟨front, happend, hlength, hfront⟩ := h
  exact ⟨front, happend, Nat.le_trans hlength hlimit, fun char hmem => hkind char (hfront char hmem)⟩

theorem weaken (h : Took kind limit chars rest) (hlimit : limit ≤ more) :
    Took kind more chars rest :=
  h.mono (fun _ hchar => hchar) hlimit

theorem takeWhile {test : Char → Bool} (hlimit : (chars.takeWhile test).length ≤ limit) :
    Took (test · = true) limit chars (chars.dropWhile test) :=
  ⟨chars.takeWhile test, List.takeWhile_append_dropWhile.symm, hlimit,
    fun _ hmem => List.mem_takeWhile_imp hmem⟩

theorem mem_of_mem (h : Took kind limit chars rest) {char : Char} (hmem : char ∈ rest) :
    char ∈ chars := by
  obtain ⟨front, rfl, -, -⟩ := h
  exact List.mem_append_right front hmem

end Took

/-! The older family. -/

namespace IPv4

def Letter (char : Char) : Prop :=
  char.isDigit = true ∨ char = '.'

theorem took_of_octet? {chars rest : List Char} {byte : UInt8}
    (h : octet? chars = some (byte, rest)) : Took Letter 3 chars rest := by
  unfold octet? at h
  dsimp only at h
  split at h
  · cases h
  · rename_i hshort
    split at h
    · cases h
    · rw [Option.bind_eq_bind, Option.bind_eq_some_iff] at h
      obtain ⟨value, -, hvalue⟩ := h
      split at hvalue
      · cases hvalue
        exact (Took.takeWhile (Nat.not_lt.mp hshort)).mono (fun _ => .inl) (Nat.le_refl 3)
      · cases hvalue

theorem took_of_dottedOctet? {chars rest : List Char} {byte : UInt8}
    (h : dottedOctet? chars = some (byte, rest)) : Took Letter 4 chars rest := by
  unfold dottedOctet? at h
  split at h
  · exact (Took.one (.inr rfl) _).trans (took_of_octet? h)
  · cases h

theorem took_of_take? {chars rest : List Char} {address : IPv4}
    (h : take? chars = some (address, rest)) : Took Letter 15 chars rest := by
  simp only [take?, Option.bind_eq_bind, Option.bind_eq_some_iff, Prod.exists] at h
  obtain ⟨a, rest₁, ha, b, rest₂, hb, c, rest₃, hc, d, rest₄, hd, heq⟩ := h
  cases heq
  exact (((took_of_octet? ha).trans (took_of_dottedOctet? hb)).trans
    (took_of_dottedOctet? hc)).trans (took_of_dottedOctet? hd)

theorem took_of_ofChars? {chars : List Char} {address : IPv4}
    (h : ofChars? chars = some address) : Took Letter 15 chars [] := by
  unfold ofChars? at h
  split at h
  · rename_i found hfound
    exact took_of_take? hfound
  · cases h

end IPv4

/-! The newer family. -/

namespace IPv6

open Hexadecimal

def Letter (char : Char) : Prop :=
  isDigit char = true ∨ char = ':' ∨ char = '.'

theorem isDigit_of_decimal {char : Char} (h : char.isDigit = true) : isDigit char = true := by
  have hrange : '0'.toNat ≤ char.toNat ∧ char.toNat ≤ '9'.toNat := by
    simp only [Char.isDigit, Bool.and_eq_true, decide_eq_true_eq] at h
    exact h
  rw [isDigit, digit?, if_pos hrange]
  rfl

theorem letter_of_older {char : Char} (h : IPv4.Letter char) : Letter char := by
  rcases h with hdigit | hdot
  · exact .inl (isDigit_of_decimal hdigit)
  · exact .inr (.inr hdot)

theorem utf8Size_of_letter {char : Char} (h : Letter char) : char.utf8Size = 1 := by
  rcases h with hdigit | rfl | rfl
  · rw [Char.utf8Size_eq_one_iff, UInt32.le_iff_toNat_le]
    have hcode : char.toNat ≤ 'f'.toNat := by
      simp only [isDigit, digit?] at hdigit
      split at hdigit
      · rename_i hrange
        exact Nat.le_trans hrange.2 (by decide)
      · split at hdigit
        · rename_i hrange
          exact hrange.2
        · split at hdigit
          · rename_i hrange
            exact Nat.le_trans hrange.2 (by decide)
          · cases hdigit
    exact Nat.le_trans hcode (by decide)
  · decide
  · decide

theorem took_of_group? {chars rest : List Char} {value : Nat}
    (h : group? chars = some (value, rest)) : Took Letter 4 chars rest := by
  unfold group? at h
  dsimp only at h
  split at h
  · cases h
  · rename_i hfits
    cases h
    exact (Took.takeWhile (Nat.not_lt.mp (not_or.mp hfits).2)).mono (fun _ => .inl) (Nat.le_refl 4)

theorem took_of_afterColon? {first : Bool} {chars rest : List Char}
    (h : afterColon? first chars = some rest) : Took Letter (1 - first.toNat) chars rest := by
  unfold afterColon? at h
  split at h
  · cases h
    exact Took.nothing Letter _
  · cases h
    exact Took.one (.inr (.inl rfl)) _
  · cases h

/-- Groups take five characters each with the colon before them, and six more if the last two are
dotted; the first of a row needs no colon. -/
def Groups.limit (first : Bool) (groups : Groups) : Nat :=
  5 * groups.values.length + 6 * groups.dotted.toNat - first.toNat

theorem took_takeGroups (first : Bool) (room : Nat) (chars : List Char) :
    Took Letter ((takeGroups first room chars).limit first) chars
      (takeGroups first room chars).rest := by
  fun_induction takeGroups first room chars with
  | case1 first chars => exact (Took.nothing Letter chars).weaken (Nat.zero_le _)
  | case2 first room chars address rest hdotted =>
      obtain ⟨-, htake⟩ := Option.ite_none_right_eq_some.mp hdotted
      obtain ⟨middle, hcolon, haddress⟩ := Option.bind_eq_some_iff.mp htake
      have hinner := (IPv4.took_of_take? haddress).mono (fun _ => letter_of_older) (Nat.le_refl 15)
      refine ((took_of_afterColon? hcolon).trans hinner).weaken ?_
      cases first with
      | false => exact Nat.le_refl 16
      | true => exact Nat.le_refl 15
  | case3 first room chars hdotted value rest hgroup more ih =>
      obtain ⟨middle, hcolon, hvalue⟩ := Option.bind_eq_some_iff.mp hgroup
      have hmore : Took Letter (more.limit false) rest more.rest := ih
      have hflag : first.toNat ≤ 1 := Bool.toNat_le first
      refine (((took_of_afterColon? hcolon).trans (took_of_group? hvalue)).trans hmore).weaken ?_
      simp only [Groups.limit, List.length_cons, Bool.toNat_false]
      omega
  | case4 first room chars => exact (Took.nothing Letter chars).weaken (Nat.zero_le _)

theorem length_takeGroups_le (first : Bool) (room : Nat) (chars : List Char) :
    (takeGroups first room chars).values.length ≤ room := by
  fun_induction takeGroups first room chars with
  | case1 first chars => exact Nat.zero_le _
  | case2 first room chars address rest hdotted =>
      obtain ⟨hroom, -⟩ := Option.ite_none_right_eq_some.mp hdotted
      exact Nat.succ_le_succ hroom
  | case3 first room chars hdotted value rest hgroup more ih => exact Nat.succ_le_succ ih
  | case4 first room chars => exact Nat.zero_le _

theorem took_of_ofChars? {chars : List Char} {address : IPv6}
    (h : ofChars? chars = some address) : Took Letter 45 chars [] := by
  have hfront := took_takeGroups true 8 chars
  have hcount := length_takeGroups_le true 8 chars
  unfold ofChars? at h
  generalize takeGroups true 8 chars = front at h hfront hcount
  have hflag : front.dotted.toNat ≤ 1 := Bool.toNat_le front.dotted
  dsimp only at h
  split at h
  · rename_i hfull
    obtain ⟨hrest, -⟩ := Option.ite_none_right_eq_some.mp h
    rw [hrest] at hfront
    refine hfront.weaken ?_
    rw [Groups.limit, hfull, Bool.toNat_true]
    omega
  · rename_i hpartial
    split at h
    · cases h
    · rename_i hplain
      split at h
      · rename_i rest hrest
        obtain ⟨hback, -⟩ := Option.ite_none_right_eq_some.mp h
        have hcolon : Letter ':' := .inr (.inl rfl)
        have hlater := took_takeGroups true (7 - front.values.length) rest
        have hroom := length_takeGroups_le true (7 - front.values.length) rest
        generalize takeGroups true (7 - front.values.length) rest = back at hback hlater hroom
        have hend : back.dotted.toNat ≤ 1 := Bool.toNat_le back.dotted
        rw [hback] at hlater
        rw [hrest] at hfront
        refine (((hfront.trans (Took.one hcolon _)).trans (Took.one hcolon _)).trans
          hlater).weaken ?_
        rw [Groups.limit, Groups.limit, Bool.eq_false_iff.mpr hplain, Bool.toNat_false,
          Bool.toNat_true]
        omega
      · cases h

/-! Colons. -/

theorem afterColon?_eq_none {chars : List Char} (h : ':' ∉ chars) :
    afterColon? false chars = none := by
  unfold afterColon?
  split
  · contradiction
  · exact absurd List.mem_cons_self h
  · rfl

/-- Without colons there is one row of at most two groups, and these are dotted. -/
theorem length_takeGroups_le_two {chars : List Char} (h : ':' ∉ chars) (room : Nat) :
    (takeGroups true room chars).values.length ≤ 2 := by
  cases room with
  | zero => exact Nat.zero_le 2
  | succ room =>
      rw [takeGroups]
      split
      · exact Nat.le_refl 2
      · split
        · rename_i value rest hgroup
          have hrest : ':' ∉ rest := fun hmem => h ((took_of_group? hgroup).mem_of_mem hmem)
          have hnone := afterColon?_eq_none hrest
          rw [takeGroups_of_none (by rw [hnone]; rfl) (by rw [hnone]; rfl)]
          exact Nat.le_succ 1
        · exact Nat.zero_le 2

theorem colon_mem_of_ofChars? {chars : List Char} {address : IPv6}
    (h : ofChars? chars = some address) : ':' ∈ chars := by
  by_contra hcolon
  have hfew := length_takeGroups_le_two hcolon 8
  have hfront := took_takeGroups true 8 chars
  unfold ofChars? at h
  generalize takeGroups true 8 chars = front at h hfew hfront
  dsimp only at h
  split at h
  · omega
  · split at h
    · cases h
    · split at h
      · rename_i rest hrest
        rw [hrest] at hfront
        exact hcolon (hfront.mem_of_mem List.mem_cons_self)
      · cases h

end IPv6

/-! Both families. -/

def Family.longestText : Family → Nat
  | .v4 => 15
  | .v6 => 45

namespace Address

theorem took_of_ofText? {family : Family} {text : String} {address : Address}
    (h : ofText? family text = some address) :
    Took IPv6.Letter family.longestText text.toList [] := by
  cases family with
  | v4 =>
      obtain ⟨octets, hread, -⟩ := Option.map_eq_some_iff.mp h
      exact (IPv4.took_of_ofChars? hread).mono (fun _ => IPv6.letter_of_older) (Nat.le_refl 15)
  | v6 =>
      obtain ⟨octets, hread, -⟩ := Option.map_eq_some_iff.mp h
      exact IPv6.took_of_ofChars? hread

theorem utf8ByteSize_le_longestText {family : Family} {text : String} {address : Address}
    (h : ofText? family text = some address) : text.utf8ByteSize ≤ family.longestText := by
  obtain ⟨front, hfront, hlength, hletters⟩ := took_of_ofText? h
  rw [List.append_nil] at hfront
  rw [← String.ofList_toList (s := text), hfront,
    Utf8.utf8ByteSize_ofList fun char hmem => IPv6.utf8Size_of_letter (hletters char hmem)]
  exact hlength

example : (ofText? .v6 "fd00:1111:2222:3333:4444:5555:192.168.100.200").isSome = true := by decide

theorem colon_mem_iff_of_ofText? {family : Family} {text : String} {address : Address}
    (h : ofText? family text = some address) : ':' ∈ text.toList ↔ family = .v6 := by
  cases family with
  | v4 =>
      obtain ⟨octets, hread, -⟩ := Option.map_eq_some_iff.mp h
      obtain ⟨front, hfront, -, hletters⟩ := IPv4.took_of_ofChars? hread
      rw [List.append_nil] at hfront
      refine ⟨fun hcolon => ?_, nofun⟩
      rcases hletters ':' (hfront ▸ hcolon) with hdigit | hdot
      · cases hdigit
      · cases hdot
  | v6 =>
      obtain ⟨octets, hread, -⟩ := Option.map_eq_some_iff.mp h
      exact ⟨fun _ => rfl, fun _ => IPv6.colon_mem_of_ofChars? hread⟩

end Address

end TunnelControl
