/-!
Byte strings and the numbers written in them. Numbers are little endian unless a name says
otherwise, and the parts of a message start on multiples of four.
-/

namespace TunnelControl

abbrev Bytes := List UInt8

namespace Bytes

def littleEndian : Bytes → Nat
  | [] => 0
  | byte :: rest => byte.toNat + 256 * littleEndian rest

def bigEndian (data : Bytes) : Nat :=
  littleEndian data.reverse

theorem ofNat_eq {value : Nat} {byte : UInt8} (h : value % 256 = byte.toNat) :
    UInt8.ofNat value = byte := by
  apply UInt8.toNat_inj.mp
  rw [UInt8.toNat_ofNat', ← h]

/-- The lowest `width` bytes of a number, least significant first. -/
def ofLittleEndian : Nat → Nat → Bytes
  | 0, _ => []
  | width + 1, value => UInt8.ofNat value :: ofLittleEndian width (value / 256)

def ofBigEndian (width value : Nat) : Bytes :=
  (ofLittleEndian width value).reverse

@[simp] theorem length_ofLittleEndian (width value : Nat) :
    (ofLittleEndian width value).length = width := by
  induction width generalizing value with
  | zero => rfl
  | succ width ih => simp [ofLittleEndian, ih]

@[simp] theorem length_ofBigEndian (width value : Nat) :
    (ofBigEndian width value).length = width := by
  simp [ofBigEndian]

def capacity : Nat → Nat
  | 0 => 1
  | width + 1 => 256 * capacity width

theorem littleEndian_ofLittleEndian (width value : Nat) :
    littleEndian (ofLittleEndian width value) = value % capacity width := by
  induction width generalizing value with
  | zero => simp [ofLittleEndian, littleEndian, capacity, Nat.mod_one]
  | succ width ih =>
      have hbyte : (UInt8.ofNat value).toNat = value % 256 := by simp
      rw [ofLittleEndian, littleEndian, ih, hbyte, capacity, Nat.mod_mul]

/-- The first `count` bytes and what follows them, if there are that many. -/
def cut? (count : Nat) (data : Bytes) : Option (Bytes × Bytes) :=
  let front := data.take count
  if front.length = count then some (front, data.drop count) else none

theorem cut?_append {count : Nat} {front : Bytes} (h : front.length = count) (rest : Bytes) :
    cut? count (front ++ rest) = some (front, rest) := by
  subst h
  simp [cut?]

theorem eq_append_of_cut? {count : Nat} {data front rest : Bytes}
    (h : cut? count data = some (front, rest)) :
    data = front ++ rest ∧ front.length = count := by
  simp only [cut?] at h
  split at h
  · rename_i hlength
    cases h
    exact ⟨(List.take_append_drop count data).symm, hlength⟩
  · cases h

/-- The bytes before the first zero, or all of them. -/
def untilZero (data : Bytes) : Bytes :=
  data.takeWhile (· != 0)

structure Width (size : Nat) (α : Type) where
  toNat : α → Nat
  ofNat : Nat → α
  toNat_lt : ∀ value, toNat value < capacity size
  ofNat_toNat : ∀ value, ofNat (toNat value) = value
  toNat_ofNat : ∀ value, value < capacity size → toNat (ofNat value) = value

namespace Width

variable {size : Nat} {α : Type} (width : Width size α)

def write (value : α) : Bytes :=
  ofLittleEndian size (width.toNat value)

def read? (data : Bytes) : Option (α × Bytes) :=
  (cut? size data).map fun (front, rest) => (width.ofNat (littleEndian front), rest)

theorem length_write (value : α) : (width.write value).length = size :=
  length_ofLittleEndian size (width.toNat value)

theorem read?_append (value : α) (rest : Bytes) :
    width.read? (width.write value ++ rest) = some (value, rest) := by
  have hvalue : littleEndian (width.write value) = width.toNat value := by
    rw [write, littleEndian_ofLittleEndian, Nat.mod_eq_of_lt (width.toNat_lt value)]
  simp only [read?, cut?_append (width.length_write value), Option.map_some, hvalue,
    width.ofNat_toNat]

theorem length_of_read? {data rest : Bytes} {value : α}
    (h : width.read? data = some (value, rest)) : data.length = size + rest.length := by
  obtain ⟨⟨front, back⟩, hcut, hvalue⟩ := Option.map_eq_some_iff.mp h
  obtain ⟨rfl, hfront⟩ := eq_append_of_cut? hcut
  cases hvalue
  rw [List.length_append, hfront]

end Width

def width16 : Width 2 UInt16 where
  toNat := UInt16.toNat
  ofNat := UInt16.ofNat
  toNat_lt := UInt16.toNat_lt
  ofNat_toNat _ := UInt16.ofNat_toNat
  toNat_ofNat _ h := UInt16.toNat_ofNat'.trans (Nat.mod_eq_of_lt h)

def width32 : Width 4 UInt32 where
  toNat := UInt32.toNat
  ofNat := UInt32.ofNat
  toNat_lt := UInt32.toNat_lt
  ofNat_toNat _ := UInt32.ofNat_toNat
  toNat_ofNat _ h := UInt32.toNat_ofNat'.trans (Nat.mod_eq_of_lt h)

def width64 : Width 8 UInt64 where
  toNat := UInt64.toNat
  ofNat := UInt64.ofNat
  toNat_lt := UInt64.toNat_lt
  ofNat_toNat _ := UInt64.ofNat_toNat
  toNat_ofNat _ h := UInt64.toNat_ofNat'.trans (Nat.mod_eq_of_lt h)

def word16 (value : UInt16) : Bytes :=
  width16.write value

def word32 (value : UInt32) : Bytes :=
  width32.write value

def word64 (value : UInt64) : Bytes :=
  width64.write value

def word16? (data : Bytes) : Option (UInt16 × Bytes) :=
  width16.read? data

def word32? (data : Bytes) : Option (UInt32 × Bytes) :=
  width32.read? data

def word64? (data : Bytes) : Option (UInt64 × Bytes) :=
  width64.read? data

@[simp] theorem length_word16 (value : UInt16) : (word16 value).length = 2 :=
  width16.length_write value

@[simp] theorem length_word32 (value : UInt32) : (word32 value).length = 4 :=
  width32.length_write value

@[simp] theorem word16?_append (value : UInt16) (rest : Bytes) :
    word16? (word16 value ++ rest) = some (value, rest) :=
  width16.read?_append value rest

@[simp] theorem word32?_append (value : UInt32) (rest : Bytes) :
    word32? (word32 value ++ rest) = some (value, rest) :=
  width32.read?_append value rest

@[simp] theorem word64?_append (value : UInt64) (rest : Bytes) :
    word64? (word64 value ++ rest) = some (value, rest) :=
  width64.read?_append value rest

/-- The least multiple of four that is not below `size`. -/
def align (size : Nat) : Nat :=
  (size + 3) / 4 * 4

theorem le_align (size : Nat) : size ≤ align size := by
  unfold align
  omega

theorem align_mod_four (size : Nat) : align size % 4 = 0 := by
  simp [align]

def padding (size : Nat) : Bytes :=
  List.replicate (align size - size) 0

def padded (data : Bytes) : Bytes :=
  data ++ padding data.length

@[simp] theorem length_padded (data : Bytes) :
    (padded data).length = align data.length := by
  have := le_align data.length
  simp [padded, padding]
  omega

end Bytes

structure Octets (size : Nat) where
  bytes : Bytes
  size_eq : bytes.length = size
deriving DecidableEq, Repr

namespace Octets

@[ext] theorem ext {size : Nat} {left right : Octets size}
    (h : left.bytes = right.bytes) : left = right := by
  cases left
  cases right
  cases h
  rfl

def zero (size : Nat) : Octets size :=
  ⟨List.replicate size 0, List.length_replicate⟩

instance {size : Nat} : Inhabited (Octets size) :=
  ⟨zero size⟩

def ofBytes? (size : Nat) (data : Bytes) : Option (Octets size) :=
  if h : data.length = size then some ⟨data, h⟩ else none

def leading? (size : Nat) (data : Bytes) : Option (Octets size) :=
  ofBytes? size (data.take size)

@[simp] theorem ofBytes?_bytes {size : Nat} (octets : Octets size) :
    ofBytes? size octets.bytes = some octets := by
  simp [ofBytes?, octets.size_eq]

theorem ofBytes?_eq_some_iff {size : Nat} {data : Bytes} {octets : Octets size} :
    ofBytes? size data = some octets ↔ octets.bytes = data := by
  constructor
  · intro h
    unfold ofBytes? at h
    split at h <;> cases h
    rfl
  · rintro rfl
    exact ofBytes?_bytes octets

theorem ofBytes?_eq_none_iff {size : Nat} {data : Bytes} :
    ofBytes? size data = none ↔ data.length ≠ size := by
  simp [ofBytes?]

theorem leading?_append {size : Nat} (octets : Octets size) (rest : Bytes) :
    leading? size (octets.bytes ++ rest) = some octets := by
  have htake : (octets.bytes ++ rest).take size = octets.bytes := by
    rw [List.take_append_of_le_length (Nat.le_of_eq octets.size_eq.symm)]
    exact List.take_of_length_le (Nat.le_of_eq octets.size_eq)
  simp [leading?, htake]

end Octets

end TunnelControl
