import Mathlib.Tactic.SplitIfs
import TunnelControl.Json.Token
import TunnelControl.Proofs.Text.Numerals

namespace TunnelControl.Json

namespace Token

/-! Strings. -/

/-- How a character is written inside quotes: some control characters as a number. -/
def pieceOf (char : Char) : Piece :=
  if char.toNat < 0x20 ∧ char ∉ ['\n', '\r', '\t', '\x08', '\x0C'] then .unit char.toNat
  else .plain char

theorem unit?_hexPair {value : Nat} (h : value < 0x20) :
    unit? ('0' :: '0' :: hexPair value) = some value := by
  have hall : ∀ value < 0x20, unit? ('0' :: '0' :: hexPair value) = some value := by decide
  exact hall value h

theorem pieces?_escape {letter char : Char} (h : escaped? letter = some char)
    (rest : List Char) :
    pieces? ('\\' :: letter :: rest) =
      (pieces? rest).map fun (pieces, size) => (.plain char :: pieces, size + 2) := by
  have hletter : letter ≠ 'u' := by
    rintro rfl
    cases h
  rw [pieces?]
  · simp only [h, Option.bind_eq_bind, Option.bind_some]
    cases pieces? rest <;> rfl
  · rintro a b c d tail rfl
    exact absurd rfl hletter

theorem pieces?_control {char : Char} (h : char.toNat < 0x20) (rest : List Char) :
    pieces? ('\\' :: 'u' :: '0' :: '0' :: (hexPair char.toNat ++ rest)) =
      (pieces? rest).map fun (pieces, size) => (.unit char.toNat :: pieces, size + 6) := by
  have hunit := unit?_hexPair h
  rw [hexPair] at hunit ⊢
  rw [List.cons_append, List.cons_append, List.nil_append, pieces?, hunit]
  cases pieces? rest <;> rfl

theorem pieces?_plain {char : Char} (hquote : char ≠ '"') (hslash : char ≠ '\\')
    (hcontrol : ¬ char.toNat < 0x20) (rest : List Char) :
    pieces? (char :: rest) =
      (pieces? rest).map fun (pieces, size) => (.plain char :: pieces, size + 1) := by
  rw [pieces?]
  · simp only [hcontrol, hslash, or_false, if_false]
    cases pieces? rest <;> rfl
  · exact hquote
  · rintro a b c d tail rfl
    exact absurd rfl hslash
  · rintro letter tail rfl
    exact absurd rfl hslash

theorem pieces?_quotedChar (char : Char) (rest : List Char) :
    pieces? (quotedChar char ++ rest) =
      (pieces? rest).map fun (pieces, size) =>
        (pieceOf char :: pieces, size + (quotedChar char).length) := by
  unfold quotedChar
  split_ifs with hquote hslash hline hreturn htab hback hform hcontrol
  · subst hquote
    exact pieces?_escape rfl rest
  · subst hslash
    exact pieces?_escape rfl rest
  · subst hline
    exact pieces?_escape rfl rest
  · subst hreturn
    exact pieces?_escape rfl rest
  · subst htab
    exact pieces?_escape rfl rest
  · subst hback
    exact pieces?_escape rfl rest
  · subst hform
    exact pieces?_escape rfl rest
  · have hpiece : pieceOf char = .unit char.toNat := if_pos ⟨hcontrol, by simp [*]⟩
    rw [hpiece]
    exact pieces?_control hcontrol rest
  · have hpiece : pieceOf char = .plain char := if_neg fun h => hcontrol h.1
    rw [hpiece]
    exact pieces?_plain hquote hslash hcontrol rest

theorem pieces?_quoted (chars rest : List Char) :
    pieces? (chars.flatMap quotedChar ++ '"' :: rest) =
      some (chars.map pieceOf, (chars.flatMap quotedChar).length + 1) := by
  induction chars with
  | nil => rfl
  | cons char chars ih =>
      rw [List.flatMap_cons, List.append_assoc, pieces?_quotedChar, ih, Option.map_some,
        List.map_cons, List.length_append]
      simp only [Option.some.injEq, Prod.mk.injEq, true_and]
      omega

theorem assemble?_unit {value : Nat} (h : value < 0xD800) (rest : List Piece) :
    assemble? (.unit value :: rest) = (assemble? rest).map (Char.ofNat value :: ·) := by
  have hsingle : value < 0xD800 ∨ 0xDFFF < value := .inl h
  have hnext : assemble? (.unit value :: rest) =
      (assemble? rest).bind fun chars => some (Char.ofNat value :: chars) := by
    cases rest with
    | nil => simp [assemble?, hsingle]
    | cons piece rest =>
        cases piece with
        | plain char =>
            simp only [assemble?, hsingle, if_true]
            rfl
        | unit low =>
            rw [assemble?, if_pos hsingle]
            rfl
  rw [hnext]
  cases assemble? rest <;> rfl

theorem assemble?_map (chars : List Char) : assemble? (chars.map pieceOf) = some chars := by
  induction chars with
  | nil => rfl
  | cons char chars ih =>
      rw [List.map_cons]
      by_cases hunit : char.toNat < 0x20 ∧ char ∉ ['\n', '\r', '\t', '\x08', '\x0C']
      · rw [pieceOf, if_pos hunit, assemble?_unit (by omega), ih, Char.ofNat_toNat]
        rfl
      · rw [pieceOf, if_neg hunit, assemble?, ih]
        rfl

/-! Numbers. -/

def Ends (rest : List Char) : Prop :=
  ∀ char ∈ rest.head?, char.isDigit = false ∧ char ≠ '.' ∧ char ≠ 'e' ∧ char ≠ 'E'

theorem fractionSize?_of_ends {rest : List Char} (h : Ends rest) : fractionSize? rest = some 0 := by
  cases rest with
  | nil => rfl
  | cons char rest =>
      obtain ⟨-, hpoint, -⟩ := h char rfl
      rw [fractionSize?]
      intro other hsame
      exact hpoint (List.cons.inj hsame).1

theorem exponentSize?_of_ends {rest : List Char} (h : Ends rest) : exponentSize? rest = some 0 := by
  cases rest with
  | nil => rfl
  | cons char rest =>
      obtain ⟨-, -, hlower, hupper⟩ := h char rfl
      rw [exponentSize?, if_neg]
      rintro (hletter | hletter)
      · exact hlower hletter
      · exact hupper hletter

def sign (negative : Bool) : List Char :=
  if negative then ['-'] else []

theorem exists_digits_eq_cons (magnitude : Nat) :
    ∃ first digits, Decimal.digits magnitude = first :: digits ∧ first.isDigit = true := by
  cases hdigits : Decimal.digits magnitude with
  | nil => exact absurd hdigits (Decimal.digits_ne_nil magnitude)
  | cons first digits =>
      have hmem : first ∈ Decimal.digits magnitude := hdigits ▸ List.mem_cons_self
      exact ⟨first, digits, rfl, Decimal.isDigit_of_mem_digits hmem⟩

theorem number?_append (negative : Bool) (magnitude : Nat) {rest : List Char} (h : Ends rest) :
    number? (sign negative ++ (Decimal.digits magnitude ++ rest)) =
      some (⟨negative, magnitude, true⟩,
        (sign negative ++ Decimal.digits magnitude).length) := by
  have hdigits : (Decimal.digits magnitude ++ rest).takeWhile Char.isDigit =
      Decimal.digits magnitude :=
    takeWhile_append_of_stop (fun _ => Decimal.isDigit_of_mem_digits) fun char hmem =>
      (h char hmem).1
  have hleading : ¬ ((Decimal.digits magnitude).head? = some '0' ∧
      1 < (Decimal.digits magnitude).length) := by
    rintro ⟨hzero, hlong⟩
    rw [Decimal.eq_zero_of_head? hzero] at hlong
    exact absurd hlong (by decide)
  cases negative with
  | true =>
      have hbehind : (('-' :: (Decimal.digits magnitude ++ rest)).drop
          (1 + (Decimal.digits magnitude).length)) = rest := by
        rw [Nat.add_comm, List.drop_succ_cons, List.drop_left]
      simp only [number?, sign, if_true, List.cons_append, List.nil_append, List.head?_cons,
        List.drop_succ_cons, List.drop_zero, hdigits, hleading, if_false, hbehind,
        Decimal.number?_digits, fractionSize?_of_ends h, exponentSize?_of_ends h,
        Option.bind_eq_bind, Option.bind_some, Option.pure_def, List.length_cons]
      simp [Nat.add_comm]
  | false =>
      have hhead : (Decimal.digits magnitude ++ rest).head? ≠ some '-' := by
        obtain ⟨first, digits, hfirst, hdigit⟩ := exists_digits_eq_cons magnitude
        rw [hfirst]
        intro hminus
        rw [Option.some.inj hminus] at hdigit
        exact absurd hdigit (by decide)
      simp only [number?, sign, Bool.false_eq_true, if_false, List.nil_append, hhead,
        List.drop_zero, hdigits, hleading, Nat.zero_add, List.drop_left,
        Decimal.number?_digits, fractionSize?_of_ends h, exponentSize?_of_ends h,
        Option.bind_eq_bind, Option.bind_some, Option.pure_def]
      simp

theorem exists_numeral_eq_cons (negative : Bool) (magnitude : Nat) :
    ∃ first chars, sign negative ++ Decimal.digits magnitude = first :: chars ∧
      (first = '-' ∨ first.isDigit = true) := by
  cases negative with
  | true => exact ⟨'-', Decimal.digits magnitude, rfl, .inl rfl⟩
  | false =>
      obtain ⟨first, digits, hdigits, hdigit⟩ := exists_digits_eq_cons magnitude
      exact ⟨first, digits, hdigits, .inr hdigit⟩

theorem isBlank_of_numeral {first : Char} (hfirst : first = '-' ∨ first.isDigit = true) :
    isBlank first = false := by
  cases hblank : isBlank first with
  | false => rfl
  | true =>
      simp only [isBlank, Bool.or_eq_true, decide_eq_true_eq] at hblank
      rcases hblank with ((rfl | rfl) | rfl) | rfl <;> exact absurd hfirst (by decide)

theorem read?_of_numeral {first : Char} {rest : List Char} {numeral : Numeral} {size : Nat}
    (hfirst : first = '-' ∨ first.isDigit = true)
    (h : number? (first :: rest) = some (numeral, size)) :
    read? first rest = some (.number numeral, size - 1) := by
  unfold read?
  split
  case h_11 => rw [h]; rfl
  all_goals exact absurd hfirst (by decide)

/-! A text in front of others. -/

/-- The text reads as these tokens in front of any other in which no number goes on. -/
def Lexes (chars : List Char) (tokens : List Token) : Prop :=
  ∀ rest, Ends rest → all? (chars ++ rest) = (all? rest).map (tokens ++ ·)

theorem lexes_nil : Lexes [] [] := fun rest _ => by
  cases h : all? rest <;> simp [h]

theorem lexes_of_read? {first : Char} {chars : List Char} {token : Token}
    (hblank : isBlank first = false)
    (hread : ∀ rest, Ends rest → read? first (chars ++ rest) = some (token, chars.length)) :
    Lexes (first :: chars) [token] := by
  intro rest hrest
  rw [List.cons_append, all?, hblank]
  simp only [Bool.false_eq_true, if_false, hread rest hrest, Option.bind_eq_bind,
    Option.bind_some, List.drop_left]
  cases all? rest <;> rfl

def mark? : Token → Option Char
  | .openArray => some '['
  | .closeArray => some ']'
  | .openObject => some '\x7b'
  | .closeObject => some '\x7d'
  | .comma => some ','
  | .colon => some ':'
  | _ => none

variable {front back : List Char} {tokens more : List Token} {char : Char} {token : Token}

theorem all?_mark (hmark : mark? token = some char) (rest : List Char) :
    all? (char :: rest) = (all? rest).map (token :: ·) := by
  have hblank : isBlank char = false := by cases token <;> cases hmark <;> rfl
  have hread : read? char rest = some (token, 0) := by cases token <;> cases hmark <;> rfl
  rw [all?, hblank]
  simp only [Bool.false_eq_true, if_false, hread, Option.bind_eq_bind, Option.bind_some,
    List.drop_zero]
  cases all? rest <;> rfl

theorem ends_mark (hmark : mark? token = some char) (rest : List Char) : Ends (char :: rest) := by
  cases token <;> cases hmark <;> simp [Ends]

theorem Lexes.append (hfront : Lexes front tokens) (hback : Lexes back more)
    (hends : ∀ rest, Ends (back ++ rest)) : Lexes (front ++ back) (tokens ++ more) := by
  intro rest hrest
  rw [List.append_assoc, hfront _ (hends rest), hback rest hrest, Option.map_map]
  exact congrArg (Option.map · _) (funext fun read => (List.append_assoc tokens more read).symm)

theorem Lexes.behind (hmark : mark? token = some char) (h : Lexes back more) :
    Lexes (char :: back) (token :: more) := by
  intro rest hrest
  rw [List.cons_append, all?_mark hmark, h rest hrest, Option.map_map]
  rfl

theorem Lexes.around (hfront : Lexes front tokens) (token : Token)
    (hmark : mark? token = some char) (hback : Lexes back more) :
    Lexes (front ++ char :: back) (tokens ++ token :: more) :=
  hfront.append (hback.behind hmark) fun rest => ends_mark hmark (back ++ rest)

theorem lexes_quoted (text : String) : Lexes (quoted text) [.string (some text)] := by
  have hread : ∀ rest, Ends rest →
      read? '"' (text.toList.flatMap quotedChar ++ ['"'] ++ rest) =
        some (.string (some text), (text.toList.flatMap quotedChar ++ ['"']).length) := by
    intro rest _
    rw [List.append_assoc, List.singleton_append]
    simp only [read?, pieces?_quoted, assemble?_map, Option.bind_eq_bind, Option.bind_some,
      Option.pure_def, Option.map_some, String.ofList_toList, List.length_append,
      List.length_singleton]
  exact lexes_of_read? rfl hread

theorem lexes_number (negative : Bool) (magnitude : Nat) :
    Lexes (sign negative ++ Decimal.digits magnitude) [.number ⟨negative, magnitude, true⟩] := by
  obtain ⟨first, chars, hchars, hfirst⟩ := exists_numeral_eq_cons negative magnitude
  rw [hchars]
  refine lexes_of_read? (isBlank_of_numeral hfirst) fun rest hrest => ?_
  have hnumber := number?_append negative magnitude hrest
  rw [← List.append_assoc, hchars, List.cons_append] at hnumber
  exact read?_of_numeral hfirst hnumber

end Token

end TunnelControl.Json
