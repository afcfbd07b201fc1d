import Mathlib.Data.Nat.Digits.Defs
import Mathlib.Tactic.SplitIfs
import TunnelControl.Text.Base64
import TunnelControl.Text.Blank

namespace TunnelControl

namespace Bytes

theorem littleEndian_append (front back : Bytes) :
    littleEndian (front ++ back) = littleEndian front + 256 ^ front.length * littleEndian back := by
  induction front with
  | nil => simp [littleEndian]
  | cons byte front ih =>
      rw [List.cons_append, littleEndian, littleEndian, ih, List.length_cons, Nat.pow_succ]
      ring

theorem bigEndian_append (front back : Bytes) :
    bigEndian (front ++ back) = bigEndian back + 256 ^ back.length * bigEndian front := by
  rw [bigEndian, List.reverse_append, littleEndian_append, List.length_reverse, bigEndian,
    bigEndian]

end Bytes

namespace Base64

/-- The symbols of the values stand for the bits of the bytes in sixes, first bit first, and filling
characters make four characters of every three bytes. The bits that no byte uses are zero. -/
structure Writes (values : List Nat) (fill : Nat) (chars : List Char) (data : Bytes) : Prop where
  chars_eq : chars = values.map symbol ++ List.replicate fill '='
  values_lt : ∀ value ∈ values, value < 64
  fill_lt : fill < 3
  length_eq : 3 * (values.length + fill) = 4 * (data.length + fill)
  bits_eq : Nat.ofDigits 64 values.reverse = Bytes.bigEndian data * 4 ^ fill

/-- The standard codec keeps to this rule, whether it writes or reads: nothing is read that lacks a
filling character or sets a bit that no byte uses. -/
structure Codec.Standard [Codec] : Prop where
  encode_writes (data : Bytes) : ∃ values fill, Writes values fill (Codec.encode data) data
  decode?_eq_some_iff {chars : List Char} {data : Bytes} :
    Codec.decode? chars = some data ↔ ∃ values fill, Writes values fill chars data

private theorem symbol_of_lt : ∀ value < 64,
    value? (symbol value) = some value ∧ symbol value ≠ '=' ∧
      Blank.isBlank (symbol value) = false := by decide +kernel

theorem symbol_mod (value : Nat) : symbol (value % 64) = symbol value := by
  rw [symbol, symbol, Nat.mod_mod]

private theorem mod_lt (value : Nat) : value % 64 < 64 :=
  Nat.mod_lt value (by decide)

@[simp] theorem value?_symbol (value : Nat) : value? (symbol value) = some (value % 64) := by
  rw [← symbol_mod]
  exact (symbol_of_lt _ (mod_lt value)).1

theorem symbol_ne_equals (value : Nat) : symbol value ≠ '=' := by
  rw [← symbol_mod]
  exact (symbol_of_lt _ (mod_lt value)).2.1

theorem isBlank_symbol (value : Nat) : Blank.isBlank (symbol value) = false := by
  rw [← symbol_mod]
  exact (symbol_of_lt _ (mod_lt value)).2.2

/-! Any standard codec. -/

/-- The rule leaves no choice: the bytes fix the number of the symbols and all of their values. -/
theorem Writes.unique {values others : List Nat} {fill more : Nat} {chars text : List Char}
    {data : Bytes} (h : Writes values fill chars data) (hother : Writes others more text data) :
    chars = text := by
  have hlength := h.length_eq
  have hothers := hother.length_eq
  have hfill := h.fill_lt
  have hmore := hother.fill_lt
  obtain rfl : fill = more := by omega
  have hcount : values.reverse.length = others.reverse.length := by
    rw [List.length_reverse, List.length_reverse]
    omega
  have hvalues : values.reverse = others.reverse :=
    Nat.ofDigits_inj_of_len_eq (by decide) hcount
      (fun value hmem => h.values_lt value (List.mem_reverse.mp hmem))
      (fun value hmem => hother.values_lt value (List.mem_reverse.mp hmem))
      (h.bits_eq.trans hother.bits_eq.symm)
  rw [h.chars_eq, hother.chars_eq, List.reverse_inj.mp hvalues]

section

variable [Codec] (h : Codec.Standard)

include h

theorem Codec.Standard.eq_encode_iff {chars : List Char} {data : Bytes} :
    chars = Codec.encode data ↔ ∃ values fill, Writes values fill chars data := by
  obtain ⟨others, more, hencode⟩ := h.encode_writes data
  constructor
  · rintro rfl
    exact ⟨others, more, hencode⟩
  · rintro ⟨values, fill, hwrites⟩
    exact hwrites.unique hencode

theorem Codec.Standard.decode?_iff_encode {chars : List Char} {data : Bytes} :
    Codec.decode? chars = some data ↔ chars = Codec.encode data :=
  h.decode?_eq_some_iff.trans h.eq_encode_iff.symm

theorem Codec.Standard.not_isBlank_of_mem_encode {data : Bytes} :
    ∀ char ∈ Codec.encode data, Blank.isBlank char = false := by
  obtain ⟨values, fill, hwrites⟩ := h.encode_writes data
  intro char hmem
  rw [hwrites.chars_eq] at hmem
  rcases List.mem_append.mp hmem with hsymbol | hfill
  · obtain ⟨value, -, rfl⟩ := List.mem_map.mp hsymbol
    exact isBlank_symbol value
  · rw [List.eq_of_mem_replicate hfill]
    rfl

end

/-! The codec that is written out. -/

theorem lastByte?_symbols (a : UInt8) :
    lastByte? (symbol (a.toNat * 16 / 64)) (symbol (a.toNat * 16)) = some [a] := by
  have hbits : a.toNat * 16 / 64 % 64 * 64 + a.toNat * 16 % 64 = a.toNat * 16 := by
    have ha := a.toNat_lt
    omega
  simp [lastByte?, hbits]

theorem lastBytes?_symbols (a b : UInt8) :
    let bits := (a.toNat * 256 + b.toNat) * 4
    lastBytes? (symbol (bits / 4096)) (symbol (bits / 64)) (symbol bits) = some [a, b] := by
  intro bits
  have ha := a.toNat_lt
  have hb := b.toNat_lt
  have hbits : (bits / 4096 % 64 * 64 + bits / 64 % 64) * 64 + bits % 64 = bits := by omega
  have hfirst : bits / 1024 = a.toNat := by omega
  have hsecond : UInt8.ofNat (bits / 4) = b := Bytes.ofNat_eq (by omega)
  have hrest : bits % 4 = 0 := by omega
  simp [lastBytes?, hbits, hfirst, hsecond, hrest]

theorem group?_symbols (a b c : UInt8) :
    let bits := (a.toNat * 256 + b.toNat) * 256 + c.toNat
    group? (symbol (bits / 262144)) (symbol (bits / 4096)) (symbol (bits / 64)) (symbol bits) =
      some [a, b, c] := by
  intro bits
  have ha := a.toNat_lt
  have hb := b.toNat_lt
  have hc := c.toNat_lt
  have hbits : ((bits / 262144 % 64 * 64 + bits / 4096 % 64) * 64 + bits / 64 % 64) * 64 +
      bits % 64 = bits := by omega
  have hfirst : bits / 65536 = a.toNat := by omega
  have hsecond : UInt8.ofNat (bits / 256) = b := Bytes.ofNat_eq (by omega)
  have hthird : UInt8.ofNat bits = c := Bytes.ofNat_eq (by omega)
  simp only [group?, value?_symbol, Option.bind_eq_bind, Option.bind_some, hbits, hfirst,
    hsecond, hthird, UInt8.ofNat_toNat]

theorem decode?_encode (data : Bytes) : decode? (encode data) = some data := by
  fun_induction encode data with
  | case1 => rfl
  | case2 a bits => exact lastByte?_symbols a
  | case3 a b bits =>
      rw [decode?]
      · exact lastBytes?_symbols a b
      · exact symbol_ne_equals _
  | case4 a b c rest bits ih =>
      rw [decode?, group?_symbols, ih]
      · rfl
      · exact fun _ h _ => symbol_ne_equals _ h
      · exact fun h _ => symbol_ne_equals _ h

theorem Writes.group {values : List Nat} {fill : Nat} {chars : List Char} {data : Bytes}
    (h : Writes values fill chars data) (a b c : UInt8) :
    let bits := (a.toNat * 256 + b.toNat) * 256 + c.toNat
    Writes (bits / 262144 % 64 :: bits / 4096 % 64 :: bits / 64 % 64 :: bits % 64 :: values) fill
      (symbol (bits / 262144) :: symbol (bits / 4096) :: symbol (bits / 64) :: symbol bits :: chars)
      (a :: b :: c :: data) := by
  intro bits
  have hbits : Nat.ofDigits 64 [bits % 64, bits / 64 % 64, bits / 4096 % 64, bits / 262144 % 64] =
      bits := by
    have ha := a.toNat_lt
    have hb := b.toNat_lt
    have hc := c.toNat_lt
    simp only [Nat.ofDigits_cons, Nat.ofDigits_nil]
    omega
  have hgroup : Bytes.bigEndian [a, b, c] = bits := by
    simp [Bytes.bigEndian, Bytes.littleEndian, bits]
    ring
  have hlength := h.length_eq
  have hweight : 64 ^ values.length = 256 ^ data.length * 4 ^ fill :=
    calc 64 ^ values.length = 2 ^ (6 * values.length) := (Nat.pow_mul 2 6 values.length).symm
      _ = 2 ^ (8 * data.length + 2 * fill) := by
        congr 1
        omega
      _ = 256 ^ data.length * 4 ^ fill := by
        rw [Nat.pow_add, Nat.pow_mul, Nat.pow_mul]
  refine ⟨?_, ?_, h.fill_lt, ?_, ?_⟩
  · simp [h.chars_eq, symbol_mod]
  · simpa [Nat.mod_lt] using h.values_lt
  · simp only [List.length_cons]
    omega
  · have hdata : a :: b :: c :: data = [a, b, c] ++ data := rfl
    rw [hdata, Bytes.bigEndian_append, hgroup, ← hbits]
    simp only [List.reverse_cons, List.append_assoc, List.cons_append, List.nil_append,
      Nat.ofDigits_append, List.length_reverse, h.bits_eq, hweight, hbits]
    ring

theorem exists_writes_encode (data : Bytes) :
    ∃ values fill, Writes values fill (encode data) data := by
  fun_induction encode data with
  | case1 => exact ⟨[], 0, rfl, by simp, by decide, rfl, rfl⟩
  | case2 a bits =>
      have ha := a.toNat_lt
      refine ⟨[bits / 64 % 64, bits % 64], 2, ?_, ?_, by decide, rfl, ?_⟩
      · simp [symbol_mod]
      · simp [Nat.mod_lt]
      · simp [Nat.ofDigits_cons, Bytes.bigEndian, Bytes.littleEndian]
        omega
  | case3 a b bits =>
      have ha := a.toNat_lt
      have hb := b.toNat_lt
      refine ⟨[bits / 4096 % 64, bits / 64 % 64, bits % 64], 1, ?_, ?_, by decide, rfl, ?_⟩
      · simp [symbol_mod]
      · simp [Nat.mod_lt]
      · simp [Nat.ofDigits_cons, Bytes.bigEndian, Bytes.littleEndian]
        omega
  | case4 a b c rest bits ih =>
      obtain ⟨values, fill, hrest⟩ := ih
      exact ⟨_, fill, hrest.group a b c⟩

/-- A character has the value of the symbol that it is. -/
theorem symbol_of_value? {char : Char} {value : Nat} (h : value? char = some value) :
    symbol value = char ∧ value < 64 := by
  have hcode : char.toNat < 128 := by
    simp only [value?] at h
    split_ifs at h with hupper hlower hdigit hplus hslash
    · exact Nat.lt_of_le_of_lt hupper.2 (by decide)
    · exact Nat.lt_of_le_of_lt hlower.2 (by decide)
    · exact Nat.lt_of_le_of_lt hdigit.2 (by decide)
    · exact hplus ▸ by decide
    · exact hslash ▸ by decide
  have hall : ∀ code < 128, ∀ value ∈ value? (Char.ofNat code),
      symbol value = Char.ofNat code ∧ value < 64 := by decide +kernel
  have hchar : Char.ofNat char.toNat = char := Char.ofNat_toNat char
  rw [← hchar] at h ⊢
  exact hall char.toNat hcode value h

theorem symbol_eq_of_mod {char : Char} {value bits : Nat} (h : value? char = some value)
    (hbits : bits % 64 = value) : symbol bits = char := by
  rw [← symbol_mod, hbits]
  exact (symbol_of_value? h).1

theorem encode_of_lastByte? {first second : Char} {data : Bytes}
    (h : lastByte? first second = some data) : encode data = [first, second, '=', '='] := by
  simp only [lastByte?, Option.bind_eq_bind, Option.bind_eq_some_iff] at h
  obtain ⟨a, hfirst, b, hsecond, hdata⟩ := h
  split at hdata
  · rename_i hrest
    cases hdata
    have ha := (symbol_of_value? hfirst).2
    have hb := (symbol_of_value? hsecond).2
    have hbits : (UInt8.ofNat ((a * 64 + b) / 16)).toNat * 16 = a * 64 + b := by
      rw [UInt8.toNat_ofNat']
      omega
    simp only [encode, hbits]
    rw [symbol_eq_of_mod hfirst (by omega), symbol_eq_of_mod hsecond (by omega)]
  · cases hdata

theorem encode_of_lastBytes? {first second third : Char} {data : Bytes}
    (h : lastBytes? first second third = some data) :
    encode data = [first, second, third, '='] := by
  simp only [lastBytes?, Option.bind_eq_bind, Option.bind_eq_some_iff] at h
  obtain ⟨a, hfirst, b, hsecond, c, hthird, hdata⟩ := h
  split at hdata
  · rename_i hrest
    cases hdata
    have ha := (symbol_of_value? hfirst).2
    have hb := (symbol_of_value? hsecond).2
    have hc := (symbol_of_value? hthird).2
    have hbits : ((UInt8.ofNat (((a * 64 + b) * 64 + c) / 1024)).toNat * 256 +
        (UInt8.ofNat (((a * 64 + b) * 64 + c) / 4)).toNat) * 4 = (a * 64 + b) * 64 + c := by
      rw [UInt8.toNat_ofNat', UInt8.toNat_ofNat']
      omega
    simp only [encode, hbits]
    rw [symbol_eq_of_mod hfirst (by omega), symbol_eq_of_mod hsecond (by omega),
      symbol_eq_of_mod hthird (by omega)]
  · cases hdata

theorem encode_of_group? {first second third fourth : Char} {group : Bytes}
    (h : group? first second third fourth = some group) (rest : Bytes) :
    encode (group ++ rest) = first :: second :: third :: fourth :: encode rest := by
  simp only [group?, Option.bind_eq_bind, Option.bind_eq_some_iff] at h
  obtain ⟨a, hfirst, b, hsecond, c, hthird, d, hfourth, hgroup⟩ := h
  cases hgroup
  have ha := (symbol_of_value? hfirst).2
  have hb := (symbol_of_value? hsecond).2
  have hc := (symbol_of_value? hthird).2
  have hd := (symbol_of_value? hfourth).2
  have hbits : ((UInt8.ofNat ((((a * 64 + b) * 64 + c) * 64 + d) / 65536)).toNat * 256 +
      (UInt8.ofNat ((((a * 64 + b) * 64 + c) * 64 + d) / 256)).toNat) * 256 +
      (UInt8.ofNat (((a * 64 + b) * 64 + c) * 64 + d)).toNat =
        ((a * 64 + b) * 64 + c) * 64 + d := by
    rw [UInt8.toNat_ofNat', UInt8.toNat_ofNat', UInt8.toNat_ofNat']
    omega
  simp only [List.cons_append, List.nil_append, encode, hbits]
  rw [symbol_eq_of_mod hfirst (by omega), symbol_eq_of_mod hsecond (by omega),
    symbol_eq_of_mod hthird (by omega), symbol_eq_of_mod hfourth (by omega)]

theorem encode_of_decode? {chars : List Char} {data : Bytes} (h : decode? chars = some data) :
    encode data = chars := by
  fun_induction decode? chars generalizing data with
  | case1 =>
      cases h
      rfl
  | case2 a b => exact encode_of_lastByte? h
  | case3 a b c hpadded => exact encode_of_lastBytes? h
  | case4 a b c d rest hpadded hfilled ih =>
      simp only [Option.bind_eq_bind, Option.bind_eq_some_iff] at h
      obtain ⟨group, hgroup, tail, htail, hdata⟩ := h
      cases hdata
      rw [encode_of_group? hgroup, ih htail]
  | case5 => cases h

theorem Codec.standard : Codec.Standard where
  encode_writes := exists_writes_encode
  decode?_eq_some_iff {chars data} := by
    constructor
    · exact fun hread => encode_of_decode? hread ▸ exists_writes_encode data
    · rintro ⟨values, fill, hwrites⟩
      obtain ⟨others, more, hencode⟩ := exists_writes_encode data
      rw [hwrites.unique hencode]
      exact decode?_encode data

end Base64

end TunnelControl
