import Mathlib.Algebra.Ring.Nat
import TunnelControl.Text.Decimal
import TunnelControl.Text.Hexadecimal

namespace TunnelControl

/-! A list cut behind the items of one kind. -/

section

variable {α : Type} {p : α → Bool} {front rest : List α}

theorem takeWhile_append_of_stop (hfront : ∀ item ∈ front, p item = true)
    (hrest : ∀ item ∈ rest.head?, p item = false) : (front ++ rest).takeWhile p = front := by
  rw [List.takeWhile_append_of_pos hfront]
  cases rest with
  | nil => exact List.append_nil front
  | cons item rest =>
      rw [List.takeWhile_cons, hrest item rfl]
      exact List.append_nil front

theorem dropWhile_append_of_stop (hfront : ∀ item ∈ front, p item = true)
    (hrest : ∀ item ∈ rest.head?, p item = false) : (front ++ rest).dropWhile p = rest := by
  rw [List.dropWhile_append_of_pos hfront]
  cases rest with
  | nil => rfl
  | cons item rest =>
      rw [List.dropWhile_cons, hrest item rfl]
      rfl

end

theorem exists_of_mem_toDigits {base value : Nat} (hbase : 1 < base) {char : Char}
    (h : char ∈ Nat.toDigits base value) : ∃ digit < base, char = Nat.digitChar digit := by
  induction value using Nat.strongRecOn with
  | ind value ih =>
      rw [Nat.toDigits_eq_if hbase] at h
      split at h
      · rename_i hlt
        exact ⟨value, hlt, List.mem_singleton.mp h⟩
      · rename_i hge
        rcases List.mem_append.mp h with hfront | hlast
        · exact ih (value / base) (Nat.div_lt_self (by omega) hbase) hfront
        · exact ⟨value % base, Nat.mod_lt value (by omega), List.mem_singleton.mp hlast⟩

namespace Decimal

/-- A reader of digits accepts digits and nothing else. -/
theorem continue?_eq_some_iff {value result : Nat} {chars : List Char} :
    continue? value chars = some result ↔
      (∀ char ∈ chars, char.isDigit = true) ∧ Nat.ofDigitChars 10 chars value = result := by
  induction chars generalizing value with
  | nil => simp [continue?]
  | cons char chars ih =>
      rw [List.forall_mem_cons, Nat.ofDigitChars_cons, continue?, digit?]
      split
      · rename_i hdigit
        simp only [Option.bind_eq_bind, Option.bind_some, ih, hdigit, true_and,
          Nat.mul_comm value 10]
      · rename_i hdigit
        simp [hdigit]

theorem number?_eq_some_iff {value : Nat} {chars : List Char} :
    number? chars = some value ↔
      chars ≠ [] ∧ (∀ char ∈ chars, char.isDigit = true) ∧
        Nat.ofDigitChars 10 chars 0 = value := by
  cases chars with
  | nil => simp [number?]
  | cons char chars =>
      rw [number?, continue?_eq_some_iff]
      · exact (and_iff_right (List.cons_ne_nil char chars)).symm
      · exact List.cons_ne_nil char chars

/-- One decimal digit or more, with or without a plus sign before them. -/
def Numeral (chars : List Char) (value : Nat) : Prop :=
  ∃ digits, (chars = digits ∨ chars = '+' :: digits) ∧ digits ≠ [] ∧
    (∀ char ∈ digits, char.isDigit = true) ∧ Nat.ofDigitChars 10 digits 0 = value

theorem signed?_eq_some_iff {value : Nat} {chars : List Char} :
    signed? chars = some value ↔ Numeral chars value := by
  unfold signed?
  split
  · rename_i rest
    rw [number?_eq_some_iff]
    constructor
    · exact fun h => ⟨rest, .inr rfl, h⟩
    · rintro ⟨digits, rfl | hchars, h⟩
      · exact absurd (h.2.1 '+' List.mem_cons_self) (by decide)
      · obtain rfl := (List.cons.inj hchars).2
        exact h
  · rename_i hunsigned
    rw [number?_eq_some_iff]
    constructor
    · exact fun h => ⟨chars, .inl rfl, h⟩
    · rintro ⟨digits, rfl | rfl, h⟩
      · exact h
      · exact absurd rfl (hunsigned digits)

theorem Numeral.ne_nil {chars : List Char} {value : Nat} (h : Numeral chars value) :
    chars ≠ [] := by
  obtain ⟨digits, rfl | rfl, hdigits, -⟩ := h
  · exact hdigits
  · exact List.cons_ne_nil '+' digits

theorem Numeral.colon_notMem {chars : List Char} {value : Nat} (h : Numeral chars value) :
    ':' ∉ chars := by
  obtain ⟨digits, hchars, -, hdigits, -⟩ := h
  have hcolon : ':' ∉ digits := fun hmem => absurd (hdigits ':' hmem) (by decide)
  rcases hchars with rfl | rfl
  · exact hcolon
  · exact List.not_mem_cons_of_ne_of_not_mem (by decide) hcolon

theorem digits_eq (value : Nat) :
    digits value =
      if value < 10 then [value.digitChar] else digits (value / 10) ++ [(value % 10).digitChar] :=
  Nat.toDigits_eq_if (by decide)

theorem isDigit_of_mem_digits {value : Nat} {char : Char} (h : char ∈ digits value) :
    char.isDigit = true :=
  Nat.isDigit_of_mem_toDigits (by decide) (by decide) h

theorem digits_ne_nil (value : Nat) : digits value ≠ [] :=
  Nat.toDigits_ne_nil

theorem number?_digits (value : Nat) : number? (digits value) = some value :=
  number?_eq_some_iff.mpr ⟨digits_ne_nil value, fun _ => isDigit_of_mem_digits,
    Nat.ofDigitChars_toDigits (by decide) (by decide)⟩

theorem numeral_digits (value : Nat) : Numeral (digits value) value :=
  ⟨digits value, .inl rfl, number?_eq_some_iff.mp (number?_digits value)⟩

/-- Only zero starts with a zero. -/
theorem eq_zero_of_head? {value : Nat} (h : (digits value).head? = some '0') : value = 0 := by
  induction value using Nat.strongRecOn with
  | ind value ih =>
      rw [digits_eq] at h
      split at h
      · rename_i hlt
        have hall : ∀ value < 10, Nat.digitChar value = '0' → value = 0 := by decide
        exact hall value hlt (Option.some.inj h)
      · rename_i hge
        have hfront : (digits (value / 10)).head? = some '0' := by
          cases hdigits : digits (value / 10) with
          | nil => exact absurd hdigits (digits_ne_nil _)
          | cons char front => rwa [hdigits] at h
        have hzero := ih (value / 10) (by omega) hfront
        omega

theorem length_digits_le {value : Nat} (h : value < 10 ^ 3) : (digits value).length ≤ 3 :=
  (Nat.length_toDigits_le_iff (by decide) (by decide)).mpr h

end Decimal

namespace Hexadecimal

theorem digit?_digitChar {value : Nat} (h : value < 16) :
    digit? value.digitChar = some value := by
  have hall : ∀ value < 16, digit? (Nat.digitChar value) = some value := by decide
  exact hall value h

theorem digits_eq (value : Nat) :
    digits value =
      if value < 16 then [value.digitChar] else digits (value / 16) ++ [(value % 16).digitChar] :=
  Nat.toDigits_eq_if (by decide)

theorem continued_digits (value : Nat) : continued 0 (digits value) = value := by
  induction value using Nat.strongRecOn with
  | ind value ih =>
      rw [digits_eq]
      split
      · rename_i hlt
        simp only [continued, List.foldl_cons, List.foldl_nil, digit?_digitChar hlt,
          Option.getD_some, Nat.zero_mul, Nat.zero_add]
      · rename_i hge
        have hfront := ih (value / 16) (by omega)
        rw [continued] at hfront
        simp only [continued, List.foldl_append, hfront, List.foldl_cons, List.foldl_nil,
          digit?_digitChar (Nat.mod_lt value (by decide)), Option.getD_some]
        omega

theorem isDigit_of_mem_digits {value : Nat} {char : Char} (h : char ∈ digits value) :
    isDigit char = true := by
  obtain ⟨digit, hdigit, rfl⟩ := exists_of_mem_toDigits (by decide) h
  rw [isDigit, digit?_digitChar hdigit]
  rfl

theorem digits_ne_nil (value : Nat) : digits value ≠ [] :=
  Nat.toDigits_ne_nil

theorem length_digits_le {value : Nat} (h : value < 16 ^ 4) : (digits value).length ≤ 4 :=
  (Nat.length_toDigits_le_iff (by decide) (by decide)).mpr h

end Hexadecimal

end TunnelControl
