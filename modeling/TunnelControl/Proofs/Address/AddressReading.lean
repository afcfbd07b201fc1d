import Mathlib.Data.List.TakeWhile
import TunnelControl.Address.Printer
import TunnelControl.Address.Reader
import TunnelControl.Proofs.Device.FixedRecords
import TunnelControl.Proofs.Netlink.MessageReading
import TunnelControl.Proofs.Text.Numerals

namespace TunnelControl

namespace IPv4

open Decimal

theorem octet?_digits_append (byte : UInt8) {rest : List Char}
    (hrest : ∀ char ∈ rest.head?, char.isDigit = false) :
    octet? (digits byte.toNat ++ rest) = some (byte, rest) := by
  have hdigits : ∀ char ∈ digits byte.toNat, char.isDigit = true :=
    fun _ => isDigit_of_mem_digits
  have hbyte : byte.toNat < 256 := byte.toNat_lt
  have hlength : (digits byte.toNat).length ≤ 3 := length_digits_le (by omega)
  have hzero : ¬ ((digits byte.toNat).head? = some '0' ∧ 1 < (digits byte.toNat).length) := by
    rintro ⟨hhead, hlong⟩
    rw [eq_zero_of_head? hhead] at hlong
    exact absurd hlong (by decide)
  simp only [octet?, takeWhile_append_of_stop hdigits hrest,
    dropWhile_append_of_stop hdigits hrest, number?_digits, Option.bind_eq_bind,
    Option.bind_some, if_neg (Nat.not_lt.mpr hlength), if_neg hzero, if_pos hbyte,
    UInt8.ofNat_toNat]

theorem dottedOctet?_digits_append (byte : UInt8) {rest : List Char}
    (hrest : ∀ char ∈ rest.head?, char.isDigit = false) :
    dottedOctet? ('.' :: (digits byte.toNat ++ rest)) = some (byte, rest) :=
  octet?_digits_append byte hrest

theorem exists_chars_eq (address : IPv4) :
    ∃ a b c d : UInt8, address.bytes = [a, b, c, d] ∧
      chars address =
        digits a.toNat ++ '.' :: (digits b.toNat ++ '.' :: (digits c.toNat ++ '.' ::
          digits d.toNat)) := by
  obtain ⟨bytes, hsize⟩ := address
  match bytes, hsize with
  | [a, b, c, d], hsize => exact ⟨a, b, c, d, rfl, by simp [chars, List.intercalate]⟩

theorem take?_chars_append (address : IPv4) {rest : List Char}
    (hrest : ∀ char ∈ rest.head?, char.isDigit = false) :
    take? (chars address ++ rest) = some (address, rest) := by
  obtain ⟨a, b, c, d, hbytes, hchars⟩ := exists_chars_eq address
  have hdot : ∀ tail : List Char, ∀ char ∈ ('.' :: tail).head?, char.isDigit = false := by
    rintro tail char ⟨⟩
    rfl
  have haddress : address = ⟨[a, b, c, d], rfl⟩ := Octets.ext hbytes
  simp only [hchars, List.append_assoc, List.cons_append]
  rw [take?, octet?_digits_append a (hdot _)]
  simp only [Option.bind_eq_bind, Option.bind_some]
  rw [dottedOctet?_digits_append b (hdot _), Option.bind_some,
    dottedOctet?_digits_append c (hdot _), Option.bind_some,
    dottedOctet?_digits_append d hrest, Option.bind_some, haddress]

theorem ofChars?_chars (address : IPv4) : ofChars? (chars address) = some address := by
  have hread : take? (chars address ++ []) = some (address, []) := take?_chars_append address nofun
  rw [List.append_nil] at hread
  rw [ofChars?, hread]

theorem take?_eq_none {chars : List Char} (h : (chars.dropWhile Char.isDigit).head? ≠ some '.') :
    take? chars = none := by
  rw [take?, Option.bind_eq_bind, Option.bind_eq_none_iff]
  rintro ⟨first, rest⟩ hfirst
  have hrest : rest = chars.dropWhile Char.isDigit := by
    simp only [octet?] at hfirst
    split at hfirst
    · cases hfirst
    · split at hfirst
      · cases hfirst
      · simp only [Option.bind_eq_bind, Option.bind_eq_some_iff] at hfirst
        obtain ⟨value, -, hvalue⟩ := hfirst
        split at hvalue
        · cases hvalue
          rfl
        · cases hvalue
  subst hrest
  have hdotted : dottedOctet? (chars.dropWhile Char.isDigit) = none := by
    unfold dottedOctet?
    split
    · rename_i tail hdot
      rw [hdot] at h
      exact absurd rfl h
    · rfl
  simp only [hdotted, Option.bind_none]

end IPv4

namespace IPv6

open Hexadecimal

/-! Groups. -/

def tailChars (groups : List Nat) : List Char :=
  groups.flatMap fun group => ':' :: digits group

theorem groupChars_cons (group : Nat) (groups : List Nat) :
    groupChars (group :: groups) = digits group ++ tailChars groups := by
  induction groups generalizing group with
  | nil => simp [groupChars, tailChars, List.intercalate]
  | cons next groups ih =>
      have hnext := ih next
      simp only [groupChars, List.intercalate, List.map_cons] at hnext ⊢
      rw [List.intersperse_cons_cons, List.flatten_cons, List.flatten_cons, hnext, tailChars,
        tailChars, List.flatMap_cons]
      rfl

/-- The end of the groups that are read: nothing, or a double colon. -/
def Ends (rest : List Char) : Prop :=
  rest = [] ∨ ∃ back, rest = ':' :: ':' :: back

theorem Ends.head?_eq {rest : List Char} (h : Ends rest) (groups : List Nat) :
    ∀ char ∈ (tailChars groups ++ rest).head?, char = ':' := by
  intro char hchar
  cases groups with
  | nil =>
      rcases h with rfl | ⟨back, rfl⟩
      · cases hchar
      · exact (Option.some.inj hchar).symm
  | cons group groups => exact (Option.some.inj hchar).symm

theorem group?_digits_append {group : Nat} (hgroup : group < 65536) {rest : List Char}
    (hrest : ∀ char ∈ rest.head?, char = ':') : group? (digits group ++ rest) = some (group, rest) := by
  have hdigits : ∀ char ∈ digits group, isDigit char = true := fun _ => isDigit_of_mem_digits
  have hstop : ∀ char ∈ rest.head?, isDigit char = false := by
    intro char hchar
    rw [hrest char hchar]
    decide
  have hlength : (digits group).length ≤ 4 := length_digits_le hgroup
  have hfits : ¬ (digits group = [] ∨ 4 < (digits group).length) :=
    not_or.mpr ⟨digits_ne_nil group, Nat.not_lt.mpr hlength⟩
  simp only [group?, takeWhile_append_of_stop hdigits hstop,
    dropWhile_append_of_stop hdigits hstop, if_neg hfits, continued_digits]

/-- No dotted address starts with a group of hexadecimal digits. -/
theorem take?_digits_append (group : Nat) {rest : List Char}
    (hrest : ∀ char ∈ rest.head?, char = ':') : IPv4.take? (digits group ++ rest) = none := by
  apply IPv4.take?_eq_none
  have hdigits : ∀ char ∈ digits group, char ≠ '.' := by
    intro char hchar
    obtain ⟨digit, hdigit, rfl⟩ := exists_of_mem_toDigits (by decide) hchar
    have hall : ∀ digit < 16, Nat.digitChar digit ≠ '.' := by decide
    exact hall digit hdigit
  generalize digits group = front at hdigits
  induction front with
  | nil =>
      cases rest with
      | nil => exact nofun
      | cons char rest =>
          obtain rfl := hrest char rfl
          exact fun hdot => absurd (Option.some.inj hdot) (by decide)
  | cons char front ih =>
      obtain ⟨hchar, hfront⟩ := List.forall_mem_cons.mp hdigits
      rw [List.cons_append, List.dropWhile_cons]
      split
      · exact ih hfront
      · exact fun hdot => hchar (Option.some.inj hdot)

theorem take?_colon (rest : List Char) : IPv4.take? (':' :: rest) = none :=
  IPv4.take?_eq_none fun hdot => absurd (Option.some.inj hdot) (by decide)

theorem group?_colon (rest : List Char) : group? (':' :: rest) = none := rfl

/-! Rows of groups. -/

theorem takeGroups_of_none {first : Bool} {chars : List Char}
    (hdotted : (afterColon? first chars).bind IPv4.take? = none)
    (hgroup : (afterColon? first chars).bind group? = none) (room : Nat) :
    takeGroups first room chars = ⟨[], false, chars⟩ := by
  cases room with
  | zero => rfl
  | succ room => simp only [takeGroups, Option.bind_eq_bind, hdotted, hgroup, ite_self]

theorem takeGroups_of_group {first : Bool} {chars rest : List Char} {group : Nat}
    (hdotted : (afterColon? first chars).bind IPv4.take? = none)
    (hgroup : (afterColon? first chars).bind group? = some (group, rest)) (room : Nat) :
    takeGroups first (room + 1) chars =
      { takeGroups false room rest with values := group :: (takeGroups false room rest).values } := by
  simp only [takeGroups, Option.bind_eq_bind, hdotted, hgroup, ite_self]

theorem takeGroups_of_dotted {first : Bool} {chars rest : List Char} {address : IPv4}
    (hdotted : (afterColon? first chars).bind IPv4.take? = some (address, rest)) {room : Nat}
    (hroom : 1 ≤ room) :
    takeGroups first (room + 1) chars = ⟨dottedGroups address, true, rest⟩ := by
  simp only [takeGroups, Option.bind_eq_bind, hdotted, if_pos hroom]

theorem Ends.takeGroups_eq {rest : List Char} (h : Ends rest) (first : Bool) (room : Nat) :
    takeGroups first room rest = ⟨[], false, rest⟩ := by
  rcases h with rfl | ⟨back, rfl⟩
  · cases first <;> exact takeGroups_of_none rfl rfl room
  · cases first
    · exact @takeGroups_of_none false (':' :: ':' :: back) (take?_colon back) (group?_colon back)
        room
    · exact @takeGroups_of_none true (':' :: ':' :: back) (take?_colon (':' :: back))
        (group?_colon (':' :: back)) room

theorem takeGroups_tailChars {rest : List Char} (hrest : Ends rest) {groups : List Nat}
    (hgroups : ∀ group ∈ groups, group < 65536) {room : Nat} (hroom : groups.length ≤ room) :
    takeGroups false room (tailChars groups ++ rest) = ⟨groups, false, rest⟩ := by
  induction groups generalizing room with
  | nil => exact hrest.takeGroups_eq false room
  | cons group groups ih =>
      obtain ⟨hgroup, hlater⟩ := List.forall_mem_cons.mp hgroups
      have hcolon := hrest.head?_eq groups
      cases room with
      | zero => exact absurd hroom (Nat.not_succ_le_zero _)
      | succ room =>
          have hchars : tailChars (group :: groups) ++ rest =
              ':' :: (digits group ++ (tailChars groups ++ rest)) := by
            rw [tailChars, List.flatMap_cons, ← tailChars, List.append_assoc]
            rfl
          have hread := ih hlater (Nat.le_of_succ_le_succ hroom)
          have hdotted := take?_digits_append group hcolon
          rw [hchars, @takeGroups_of_group false (':' :: (digits group ++ _)) _ _ hdotted
            (group?_digits_append hgroup hcolon), hread]

theorem takeGroups_groupChars {rest : List Char} (hrest : Ends rest) {groups : List Nat}
    (hgroups : ∀ group ∈ groups, group < 65536) {room : Nat} (hroom : groups.length ≤ room) :
    takeGroups true room (groupChars groups ++ rest) = ⟨groups, false, rest⟩ := by
  cases groups with
  | nil => exact hrest.takeGroups_eq true room
  | cons group groups =>
      obtain ⟨hgroup, hlater⟩ := List.forall_mem_cons.mp hgroups
      have hcolon := hrest.head?_eq groups
      cases room with
      | zero => exact absurd hroom (Nat.not_succ_le_zero _)
      | succ room =>
          have hread := takeGroups_tailChars hrest hlater (Nat.le_of_succ_le_succ hroom)
          rw [groupChars_cons, List.append_assoc,
            @takeGroups_of_group true _ _ _ (take?_digits_append group hcolon)
              (group?_digits_append hgroup hcolon), hread]

/-! The whole of an address. -/

theorem ofChars?_groupChars {groups : List Nat} (hgroups : ∀ group ∈ groups, group < 65536)
    (hlength : groups.length = 8) : ofChars? (groupChars groups) = ofGroups? groups := by
  have hread := takeGroups_groupChars (.inl rfl) hgroups (Nat.le_of_eq hlength)
  rw [List.append_nil] at hread
  simp only [ofChars?, hread, if_pos hlength, if_pos]

theorem ofChars?_doubleColon {front values : List Nat} {back : List Char} {dotted : Bool}
    (hgroups : ∀ group ∈ front, group < 65536) (hlength : front.length < 8)
    (hback : takeGroups true (7 - front.length) back = ⟨values, dotted, []⟩) :
    ofChars? (groupChars front ++ ':' :: ':' :: back) =
      ofGroups? (front ++ List.replicate (8 - (front.length + values.length)) 0 ++ values) := by
  have hread := takeGroups_groupChars (.inr ⟨back, rfl⟩) hgroups (Nat.le_of_lt hlength)
  simp only [ofChars?, hread, if_neg (Nat.ne_of_lt hlength), hback]
  rfl

/-- A row is what stands before its first longest run of zeros, the run, and what follows it. -/
theorem longestZeros_spec (groups : List Nat) :
    ∃ front back, groups = front ++ List.replicate (longestZeros groups).2 0 ++ back ∧
      front.length = (longestZeros groups).1 := by
  induction groups with
  | nil => exact ⟨[], [], rfl, rfl⟩
  | cons group groups ih =>
      obtain ⟨front, back, hgroups, hfront⟩ := ih
      rw [longestZeros]
      dsimp only
      split
      · have hzeros : (group :: groups).takeWhile (· = 0) =
            List.replicate ((group :: groups).takeWhile (· = 0)).length 0 := by
          rw [List.eq_replicate_iff]
          exact ⟨rfl, fun value hmem => by simpa using List.mem_takeWhile_imp hmem⟩
        refine ⟨[], (group :: groups).dropWhile (· = 0), ?_, rfl⟩
        rw [List.nil_append, ← hzeros, List.takeWhile_append_dropWhile]
      · refine ⟨group :: front, back, ?_, congrArg (· + 1) hfront⟩
        conv => lhs; rw [hgroups]
        rfl

theorem ofChars?_compressed {groups : List Nat} (hgroups : ∀ group ∈ groups, group < 65536)
    (hlength : groups.length = 8) : ofChars? (compressed groups) = ofGroups? groups := by
  obtain ⟨front, back, hsplit, hfront⟩ := longestZeros_spec groups
  rw [compressed]
  generalize longestZeros groups = run at hsplit hfront
  obtain ⟨start, count⟩ := run
  dsimp only at hsplit hfront ⊢
  split
  · subst hsplit
    subst hfront
    rw [List.append_assoc, List.forall_mem_append, List.forall_mem_append] at hgroups
    obtain ⟨hbefore, -, hbehind⟩ := hgroups
    rw [List.length_append, List.length_append, List.length_replicate] at hlength
    have hdrop : (front ++ List.replicate count 0 ++ back).drop (front.length + count) = back :=
      List.drop_left' (by rw [List.length_append, List.length_replicate])
    have hread := takeGroups_groupChars (.inl rfl) hbehind
      (show back.length ≤ 7 - front.length by omega)
    have hzeros : 8 - (front.length + back.length) = count := by omega
    rw [List.append_nil] at hread
    rw [hdrop, List.append_assoc front, List.take_left, List.append_assoc, List.cons_append,
      List.cons_append, List.nil_append, ofChars?_doubleColon hbefore (by omega) hread, hzeros,
      List.append_assoc]
  · exact ofChars?_groupChars hgroups hlength

theorem ofBigEndian_pair (first second : UInt8) :
    Bytes.ofBigEndian 2 (first.toNat * 256 + second.toNat) = [first, second] := by
  have hfirst := first.toNat_lt
  have hsecond := second.toNat_lt
  have hlow : UInt8.ofNat (first.toNat * 256 + second.toNat) = second :=
    Bytes.ofNat_eq (by omega)
  have hhigh : UInt8.ofNat ((first.toNat * 256 + second.toNat) / 256) = first :=
    Bytes.ofNat_eq (by omega)
  simp only [Bytes.ofBigEndian, Bytes.ofLittleEndian, hlow, hhigh]
  rfl

theorem flatMap_pairs {data : Bytes} (h : data.length % 2 = 0) :
    (pairs data).flatMap (Bytes.ofBigEndian 2) = data := by
  fun_induction pairs data with
  | case1 first second rest ih =>
      have hrest : rest.length % 2 = 0 := by
        rw [List.length_cons, List.length_cons] at h
        omega
      rw [List.flatMap_cons, ofBigEndian_pair, ih hrest]
      rfl
  | case2 data hshort =>
      match data with
      | [] => rfl
      | [_] => cases h
      | first :: second :: rest => exact absurd rfl (hshort first second rest)

theorem length_pairs (data : Bytes) : (pairs data).length = data.length / 2 := by
  fun_induction pairs data with
  | case1 first second rest ih =>
      rw [List.length_cons, ih, List.length_cons, List.length_cons]
      omega
  | case2 data hshort =>
      match data with
      | [] => rfl
      | [_] => simp
      | first :: second :: rest => exact absurd rfl (hshort first second rest)

theorem pairs_lt (data : Bytes) : ∀ group ∈ pairs data, group < 65536 := by
  fun_induction pairs data with
  | case1 first second rest ih =>
      have hfirst := first.toNat_lt
      have hsecond := second.toNat_lt
      exact List.forall_mem_cons.mpr ⟨by omega, ih⟩
  | case2 => nofun

theorem ofGroups?_groups (address : IPv6) : ofGroups? (groups address) = some address := by
  have hsize : address.bytes.length % 2 = 0 := by rw [address.size_eq]
  rw [ofGroups?, groups, flatMap_pairs hsize, Octets.ofBytes?_bytes]

theorem flatMap_dottedGroups (inner : IPv4) :
    (dottedGroups inner).flatMap (Bytes.ofBigEndian 2) = inner.bytes := by
  obtain ⟨bytes, hsize⟩ := inner
  match bytes, hsize with
  | [a, b, c, d], hsize =>
      have hpair : ∀ first second : UInt8,
          Bytes.bigEndian [first, second] = first.toNat * 256 + second.toNat := by
        intro first second
        simp only [Bytes.bigEndian, List.reverse_cons, List.reverse_nil, List.nil_append,
          List.singleton_append, Bytes.littleEndian]
        omega
      have hgroups : dottedGroups ⟨[a, b, c, d], hsize⟩ =
          [a.toNat * 256 + b.toNat, c.toNat * 256 + d.toNat] :=
        congrArg₂ (fun first second => [first, second]) (hpair a b) (hpair c d)
      rw [hgroups, List.flatMap_cons, List.flatMap_singleton, ofBigEndian_pair, ofBigEndian_pair]
      rfl

theorem eq_append_of_embedded? {address : IPv6} {inner : IPv4}
    (h : embedded? address = some inner) : address.bytes = embedding ++ inner.bytes := by
  rw [embedded?] at h
  split at h
  · rename_i hfront
    rw [Octets.ofBytes?_eq_some_iff.mp h, ← hfront, List.take_append_drop]
  · cases h

theorem ofChars?_embedded {address : IPv6} {inner : IPv4} (h : embedded? address = some inner) :
    ofChars? ("::ffff:".toList ++ IPv4.chars inner) = some address := by
  have hdotted : IPv4.take? (IPv4.chars inner ++ []) = some (inner, []) :=
    IPv4.take?_chars_append inner nofun
  have hcolon : ∀ char ∈ (':' :: IPv4.chars inner).head?, char = ':' :=
    fun char hchar => (Option.some.inj hchar).symm
  have hinner : takeGroups false 6 (':' :: IPv4.chars inner) = ⟨dottedGroups inner, true, []⟩ := by
    rw [List.append_nil] at hdotted
    exact @takeGroups_of_dotted false (':' :: IPv4.chars inner) _ _ hdotted 5 (by decide)
  have hback : takeGroups true 7 (digits 0xFFFF ++ ':' :: IPv4.chars inner) =
      ⟨0xFFFF :: dottedGroups inner, true, []⟩ := by
    have hgroup : 0xFFFF < 65536 := by decide
    rw [@takeGroups_of_group true _ _ _ (take?_digits_append 0xFFFF hcolon)
      (group?_digits_append hgroup hcolon), hinner]
  have hchars : "::ffff:".toList ++ IPv4.chars inner =
      groupChars [] ++ ':' :: ':' :: (digits 0xFFFF ++ ':' :: IPv4.chars inner) := by
    have hffff : "::ffff:".toList = [':', ':'] ++ digits 0xFFFF ++ [':'] := by decide
    rw [hffff]
    simp [groupChars, List.intercalate]
  have hzeros : List.replicate 5 0 ++ 0xFFFF :: dottedGroups inner =
      (List.replicate 5 0 ++ [0xFFFF]) ++ dottedGroups inner := rfl
  have hfront : (List.replicate 5 0 ++ [0xFFFF]).flatMap (Bytes.ofBigEndian 2) = embedding := by
    decide
  have hread := @ofChars?_doubleColon [] _ _ _ nofun (by decide) hback
  rw [hchars, hread, List.nil_append]
  show ofGroups? (List.replicate 5 0 ++ 0xFFFF :: dottedGroups inner) = some address
  rw [hzeros, ofGroups?, List.flatMap_append, hfront, flatMap_dottedGroups,
    ← eq_append_of_embedded? h, Octets.ofBytes?_bytes]

theorem ofChars?_chars (address : IPv6) : ofChars? (chars address) = some address := by
  rw [chars]
  split
  · rename_i inner hinner
    exact ofChars?_embedded hinner
  · have hlength : (groups address).length = 8 := by
      rw [groups, length_pairs, address.size_eq]
    have hsmall : ∀ group ∈ groups address, group < 65536 := pairs_lt address.bytes
    rw [ofChars?_compressed hsmall hlength, ofGroups?_groups]

end IPv6

theorem Address.ofText?_text (address : Address) :
    ofText? address.family address.text = some address := by
  cases address with
  | v4 octets =>
      rw [family, ofText?, text, String.toList_ofList, chars, IPv4.ofChars?_chars]
      rfl
  | v6 octets =>
      rw [family, ofText?, text, String.toList_ofList, chars, IPv6.ofChars?_chars]
      rfl

end TunnelControl
