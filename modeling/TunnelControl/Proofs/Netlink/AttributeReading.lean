import Mathlib.Algebra.Ring.Nat
import TunnelControl.Netlink.Attribute
import TunnelControl.Proofs.Text.Utf8

namespace TunnelControl

namespace Bytes

theorem align_add_four (size : Nat) : align (4 + size) = 4 + align size := by
  unfold align
  omega

theorem align_add_four_sub (size : Nat) : align (4 + size) - (4 + size) = align size - size := by
  rw [align_add_four]
  omega

theorem padding_add_four (size : Nat) : padding (4 + size) = padding size := by
  rw [padding, padding, align_add_four_sub]

theorem align_of_mod_four {size : Nat} (h : size % 4 = 0) : align size = size := by
  unfold align
  omega

theorem padded_of_mod_four {data : Bytes} (h : data.length % 4 = 0) : padded data = data := by
  rw [padded, padding, align_of_mod_four h, Nat.sub_self]
  exact List.append_nil data

theorem untilZero_append_zero {data : Bytes} (h : (0 : UInt8) ∉ data) (rest : Bytes) :
    untilZero (data ++ 0 :: rest) = data := by
  induction data with
  | nil => rfl
  | cons byte data ih =>
      obtain ⟨hbyte, hdata⟩ := not_or.mp fun hmem => h (List.mem_cons.mpr hmem)
      have hne : (byte != 0) = true := by simpa using fun heq : byte = 0 => hbyte heq.symm
      have htail := ih hdata
      simp only [untilZero] at htail ⊢
      rw [List.cons_append, List.takeWhile_cons, if_pos hne, htail]

theorem untilZero_of_notMem {data : Bytes} (h : (0 : UInt8) ∉ data) : untilZero data = data := by
  have hne : ∀ byte ∈ data, (byte != 0) = true :=
    fun byte hmem => bne_iff_ne.mpr fun hzero => h (hzero ▸ hmem)
  have hwhole := @List.takeWhile_append_of_pos _ _ data [] hne
  rwa [List.append_nil, List.takeWhile_nil, List.append_nil] at hwhole

end Bytes

namespace Netlink

/-! Typed payloads. -/

namespace Payload

theorem demand_write {size : Nat} {α : Type} (width : Bytes.Width size α) (kind : String)
    (value : α) : demand kind ((width.read? (width.write value)).map (·.1)) = .ok value := by
  have hread := width.read?_append value []
  rw [List.append_nil] at hread
  rw [hread]
  rfl

@[simp] theorem word16_word16 (value : UInt16) : word16 (Bytes.word16 value) = .ok value :=
  demand_write Bytes.width16 "u16" value

@[simp] theorem word32_word32 (value : UInt32) : word32 (Bytes.word32 value) = .ok value :=
  demand_write Bytes.width32 "u32" value

@[simp] theorem word64_word64 (value : UInt64) : word64 (Bytes.word64 value) = .ok value :=
  demand_write Bytes.width64 "u64" value

@[simp] theorem key_bytes (value : Key) : key value.bytes = .ok value := by
  have hread := Octets.leading?_append value []
  rw [List.append_nil] at hread
  simp only [key, hread]
  rfl

theorem text_encode (value : String) :
    text (Utf8.encode value ++ [0]) = .ok (Utf8.beforeZero value) := by
  obtain ⟨rest, hencode⟩ := Utf8.exists_encode_eq value
  have huntil := Bytes.untilZero_append_zero
    (Utf8.zero_notMem_encode (Utf8.zero_notMem_beforeZero value)) rest
  simp only [text, hencode, huntil, Utf8.decode_encode]

end Payload

namespace Attribute

/-! Sizes of encoded attributes. -/

theorem frame_eq_append (type : UInt16) (payload : Bytes) :
    frame type payload =
      Bytes.word16 (UInt16.ofNat (attributeHeader + payload.length)) ++
        (Bytes.word16 type ++ Bytes.padded payload) := by
  have hsize : 2 + (2 + payload.length) = 4 + payload.length := by omega
  simp only [frame, Bytes.padded, List.length_append, Bytes.length_word16, List.append_assoc,
    hsize, Bytes.padding_add_four]

theorem length_frame (type : UInt16) (payload : Bytes) :
    (frame type payload).length = Bytes.align (attributeHeader + payload.length) := by
  simp only [frame_eq_append, List.length_append, Bytes.length_word16, Bytes.length_padded,
    attributeHeader, Bytes.align_add_four]
  omega

theorem length_encode_mod_four (item : Attribute) : item.encode.length % 4 = 0 := by
  cases item with
  | leaf type payload =>
      rw [encode, length_frame]
      exact Bytes.align_mod_four _
  | nest type children =>
      rw [encode, length_frame]
      exact Bytes.align_mod_four _

theorem length_encodeAll_mod_four (attributes : List Attribute) :
    (encodeAll attributes).length % 4 = 0 := by
  induction attributes with
  | nil => rfl
  | cons first rest ih =>
      have hfirst := length_encode_mod_four first
      rw [encodeAll, List.length_append]
      omega

@[simp] theorem length_encode_leaf (type : UInt16) (payload : Bytes) :
    (encode (.leaf type payload)).length = Bytes.align (attributeHeader + payload.length) := by
  rw [encode, length_frame]

@[simp] theorem length_encode_nest (type : UInt16) (children : List Attribute) :
    (encode (.nest type children)).length = attributeHeader + (encodeAll children).length := by
  have hchildren := length_encodeAll_mod_four children
  rw [encode, length_frame]
  exact Bytes.align_of_mod_four (by unfold attributeHeader; omega)

@[simp] theorem encodeAll_append (front back : List Attribute) :
    encodeAll (front ++ back) = encodeAll front ++ encodeAll back := by
  induction front with
  | nil => rfl
  | cons first rest ih => simp only [List.cons_append, encodeAll, ih, List.append_assoc]

/-! Attributes whose lengths can be stated. -/

mutual

/-- The length of the attribute, and of every attribute in it, can be stated. -/
def Fits : Attribute → Prop
  | .leaf _ payload => attributeHeader + payload.length ≤ attributeLimit
  | .nest _ children =>
      FitsAll children ∧ attributeHeader + (encodeAll children).length ≤ attributeLimit

def FitsAll : List Attribute → Prop
  | [] => True
  | first :: rest => Fits first ∧ FitsAll rest

end

theorem fitsAll_iff (attributes : List Attribute) :
    FitsAll attributes ↔ ∀ item ∈ attributes, Fits item := by
  induction attributes with
  | nil => simp [FitsAll]
  | cons first rest ih => simp [FitsAll, ih]

theorem fitsAll_append {front back : List Attribute} :
    FitsAll (front ++ back) ↔ FitsAll front ∧ FitsAll back := by
  simp only [fitsAll_iff, List.mem_append, or_imp, forall_and]

/-! Reading. -/

/-- What a reader sees of an attribute. -/
def view : Attribute → View
  | .leaf type payload => ⟨type &&& typeMask, payload⟩
  | .nest type children => ⟨type &&& typeMask, encodeAll children⟩

theorem nestedFlag_masked (type : UInt16) :
    (type ||| nestedFlag) &&& typeMask = type &&& typeMask := by
  apply UInt16.toBitVec_inj.mp
  rw [UInt16.toBitVec_and, UInt16.toBitVec_or, BitVec.and_or_distrib_right, UInt16.toBitVec_and,
    show nestedFlag.toBitVec &&& typeMask.toBitVec = 0#16 from rfl, BitVec.or_zero]

theorem masked_of_lt {type : UInt16} (h : type.toNat < 2 ^ 14) : type &&& typeMask = type := by
  have hmask : typeMask.toNat = 2 ^ 14 - 1 := rfl
  apply UInt16.toNat_inj.mp
  rw [UInt16.toNat_and, hmask, Nat.and_two_pow_sub_one_eq_mod, Nat.mod_eq_of_lt h]

@[simp] theorem Header.take?_bytes_append (header : Header) (rest : Bytes) :
    take? (header.bytes ++ rest) = some (header, rest) := by
  simp only [take?, bytes, List.append_assoc, Bytes.word16?_append, Option.bind_eq_bind,
    Option.bind_some, Option.pure_def]

def heading (type : UInt16) (size : Nat) : Header :=
  ⟨UInt16.ofNat (attributeHeader + size), type⟩

theorem toNat_length_heading (type : UInt16) {size : Nat}
    (h : attributeHeader + size ≤ attributeLimit) :
    (heading type size).length.toNat = attributeHeader + size := by
  unfold attributeLimit at h
  rw [heading, UInt16.toNat_ofNat']
  exact Nat.mod_eq_of_lt (by omega)

/-- An attribute is found where its payload is all there, whatever stands behind that. -/
theorem next?_heading (type : UInt16) {payload : Bytes}
    (hfits : attributeHeader + payload.length ≤ attributeLimit) (rest : Bytes) :
    next? ((heading type payload.length).bytes ++ (payload ++ rest)) =
      some (⟨type &&& typeMask, payload⟩, (payload ++ rest).drop (Bytes.align payload.length)) := by
  have hlength := toNat_length_heading type hfits
  have hsize : attributeHeader + payload.length - attributeHeader = payload.length := by
    omega
  have hcut : Bytes.cut? payload.length (payload ++ rest) = some (payload, rest) :=
    Bytes.cut?_append rfl _
  have hkind : (heading type payload.length).kind = type &&& typeMask := rfl
  simp only [next?, Header.take?_bytes_append, Option.bind_eq_bind, Option.bind_some, hlength,
    hsize, hcut, hkind]
  rw [if_neg (by omega)]

theorem next?_filled (type : UInt16) {payload filling : Bytes}
    (hfits : attributeHeader + payload.length ≤ attributeLimit)
    (hfilled : (payload ++ filling).length = Bytes.align payload.length) (rest : Bytes) :
    next? ((heading type payload.length).bytes ++ (payload ++ filling ++ rest)) =
      some (⟨type &&& typeMask, payload⟩, rest) := by
  rw [List.append_assoc, next?_heading type hfits, ← List.append_assoc, ← hfilled, List.drop_left]

theorem next?_frame (type : UInt16) {payload : Bytes}
    (hfits : attributeHeader + payload.length ≤ attributeLimit) (rest : Bytes) :
    next? (frame type payload ++ rest) = some (⟨type &&& typeMask, payload⟩, rest) := by
  have hframe : frame type payload ++ rest =
      (heading type payload.length).bytes ++
        (payload ++ Bytes.padding payload.length ++ rest) := by
    simp only [frame_eq_append, Bytes.padded, heading, Header.bytes, List.append_assoc]
  rw [hframe]
  exact next?_filled type hfits (Bytes.length_padded payload) rest

theorem views_eq (data : Bytes) :
    views data =
      match next? data with
      | none => []
      | some (view, rest) => view :: views rest := by
  rw [views]
  split <;> simp_all

theorem views_nil : views [] = [] := by
  rw [views_eq]
  rfl

theorem views_encode_append {item : Attribute} (hfits : item.Fits) (rest : Bytes) :
    views (item.encode ++ rest) = item.view :: views rest := by
  rw [views_eq]
  cases item with
  | leaf type payload =>
      rw [encode, next?_frame type hfits]
      rfl
  | nest type children =>
      rw [encode, next?_frame _ hfits.2, nestedFlag_masked]
      rfl

theorem views_encodeAll_append {attributes : List Attribute} (hfits : FitsAll attributes)
    (rest : Bytes) :
    views (encodeAll attributes ++ rest) = attributes.map view ++ views rest := by
  induction attributes with
  | nil => rfl
  | cons first others ih =>
      obtain ⟨hfirst, hothers⟩ := hfits
      rw [encodeAll, List.append_assoc, views_encode_append hfirst, ih hothers]
      rfl

theorem views_encodeAll {attributes : List Attribute} (hfits : FitsAll attributes) :
    views (encodeAll attributes) = attributes.map view := by
  have happend := views_encodeAll_append hfits []
  rwa [List.append_nil, views_nil, List.append_nil] at happend

/-! Readers that take up one attribute after another. -/

variable {α β σ : Type}

def readAll (absorb : σ → View → Except Error σ) (state : σ) (items : List Attribute) :
    Except Error σ :=
  (items.map view).foldlM absorb state

theorem readAll_cons_of_ok {absorb : σ → View → Except Error σ} {state next : σ}
    {first : Attribute} (h : absorb state first.view = .ok next) (rest : List Attribute) :
    readAll absorb state (first :: rest) = readAll absorb next rest := by
  rw [readAll, List.map_cons, List.foldlM_cons, h]
  rfl

theorem readAll_append_of_ok {absorb : σ → View → Except Error σ} {state next : σ}
    {front : List Attribute} (h : readAll absorb state front = .ok next)
    (back : List Attribute) :
    readAll absorb state (front ++ back) = readAll absorb next back := by
  rw [readAll] at h
  rw [readAll, List.map_append, List.foldlM_append, h]
  rfl

theorem foldlM_views_encodeAll (absorb : σ → View → Except Error σ) (state : σ)
    {items : List Attribute} (hfits : FitsAll items) :
    (views (encodeAll items)).foldlM absorb state = readAll absorb state items := by
  rw [views_encodeAll hfits, readAll]

theorem mapM_views_mapIdx {build : Nat → α → Attribute} {read : Bytes → Except Error β}
    {result : α → β} {values : List α} (hfits : FitsAll (values.mapIdx build))
    (hread : ∀ value ∈ values, ∀ place, (build place value).Fits →
      read (build place value).view.payload = .ok (result value)) :
    (views (encodeAll (values.mapIdx build))).mapM (fun entry => read entry.payload) =
      .ok (values.map result) := by
  rw [views_encodeAll hfits]
  induction values generalizing build with
  | nil => rfl
  | cons value values ih =>
      rw [List.mapIdx_cons] at hfits ⊢
      have hfirst := hread value List.mem_cons_self 0 hfits.1
      have hrest := ih hfits.2 fun other hmem place =>
        hread other (List.mem_cons_of_mem _ hmem) (place + 1)
      rw [List.map_cons, List.mapM_cons, hfirst, hrest]
      rfl

end Attribute

end Netlink

end TunnelControl
