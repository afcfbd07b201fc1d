import TunnelControl.Address.Endpoint
import TunnelControl.Device.Timestamp

namespace TunnelControl

namespace Bytes

theorem bigEndian_ofBigEndian (width value : Nat) :
    bigEndian (ofBigEndian width value) = value % capacity width := by
  rw [bigEndian, ofBigEndian, List.reverse_reverse, littleEndian_ofLittleEndian]

end Bytes

namespace Endpoint

theorem port_bigEndian (port : UInt16) :
    UInt16.ofNat (Bytes.bigEndian (Bytes.ofBigEndian 2 port.toNat)) = port := by
  have hlt : port.toNat < Bytes.capacity 2 := port.toNat_lt
  rw [Bytes.bigEndian_ofBigEndian, Nat.mod_eq_of_lt hlt, UInt16.ofNat_toNat]

theorem flow_bigEndian (flow : UInt32) :
    UInt32.ofNat (Bytes.bigEndian (Bytes.ofBigEndian 4 flow.toNat)) = flow := by
  have hlt : flow.toNat < Bytes.capacity 4 := flow.toNat_lt
  rw [Bytes.bigEndian_ofBigEndian, Nat.mod_eq_of_lt hlt, UInt32.ofNat_toNat]

theorem cut?_ofBigEndian (width value : Nat) (rest : Bytes) :
    Bytes.cut? width (Bytes.ofBigEndian width value ++ rest) =
      some (Bytes.ofBigEndian width value, rest) :=
  Bytes.cut?_append (Bytes.length_ofBigEndian width value) rest

theorem ofBytes?_bytes (endpoint : Endpoint) : ofBytes? endpoint.bytes = some endpoint := by
  cases endpoint with
  | v4 address port =>
      simp only [ofBytes?, bytes, List.append_assoc, Bytes.word16?_append, cut?_ofBigEndian,
        Family.ofCode?_code, Octets.leading?_append, port_bigEndian, Option.bind_eq_bind,
        Option.bind_some, Option.pure_def]
  | v6 address port flow scope =>
      have hdrop : (address.bytes ++ Bytes.word32 scope).drop 16 = Bytes.word32 scope :=
        List.drop_left' address.size_eq
      have hscope := Bytes.word32?_append scope []
      rw [List.append_nil] at hscope
      simp only [ofBytes?, bytes, List.append_assoc, Bytes.word16?_append, cut?_ofBigEndian,
        Family.ofCode?_code, Octets.leading?_append, port_bigEndian, flow_bigEndian, hdrop,
        hscope, Option.bind_eq_bind, Option.bind_some, Option.pure_def, Option.map_some,
        Option.getD_some]

end Endpoint

namespace Timestamp

def bytes (time : Timestamp) : Bytes :=
  Bytes.word64 time.seconds.toUInt64 ++ Bytes.word64 time.nanoseconds.toUInt64

/-- The point in time lies after the epoch, and less than a second is counted in nanoseconds. -/
structure Regular (time : Timestamp) : Prop where
  seconds_nonneg : 0 ≤ time.seconds
  nanoseconds_lt : time.nanoseconds.toNat < 1000000000
  not_epoch : ¬ (time.seconds = 0 ∧ time.nanoseconds = 0)

theorem max_zero_of_nonneg {number : Int64} (h : 0 ≤ number) : max number 0 = number := by
  have hmax : max number 0 = if number ≤ 0 then 0 else number := rfl
  rw [hmax]
  split
  · rename_i hle
    exact Int64.le_antisymm h hle
  · rfl

theorem toInt_signed (number : UInt32) : number.toUInt64.toInt64.toInt = number.toNat := by
  have hbits : number.toUInt64.toInt64.toInt = number.toUInt64.toBitVec.toInt := rfl
  have hlt := number.toNat_lt
  rw [hbits, BitVec.toInt_eq_toNat_of_lt]
  · simp
  · simp only [UInt64.toNat_toBitVec, UInt32.toNat_toUInt64]
    omega

theorem ofBytes?_bytes {time : Timestamp} (h : time.Regular) :
    ofBytes? time.bytes = some time := by
  obtain ⟨seconds, nanoseconds⟩ := time
  obtain ⟨hseconds, hnanoseconds, hepoch⟩ := h
  dsimp only at hseconds hnanoseconds hepoch
  have hsigned := toInt_signed nanoseconds
  have hread := Bytes.word64?_append nanoseconds.toUInt64 []
  rw [List.append_nil] at hread
  have hnonneg : 0 ≤ nanoseconds.toUInt64.toInt64 := by
    rw [Int64.le_iff_toInt_le, hsigned]
    exact Int.natCast_nonneg _
  have hlimit : nanoseconds.toUInt64.toInt64 ≤ nanosecondLimit := by
    have hmost : nanosecondLimit.toInt = 999999999 := rfl
    rw [Int64.le_iff_toInt_le, hsigned, hmost]
    omega
  have hmin : min nanoseconds.toUInt64.toInt64 nanosecondLimit = nanoseconds.toUInt64.toInt64 :=
    if_pos hlimit
  have hpositive : ¬ (seconds ≤ 0 ∧ nanoseconds.toUInt64.toInt64 ≤ 0) := by
    rintro ⟨hfirst, hsecond⟩
    refine hepoch ⟨Int64.le_antisymm hfirst hseconds, ?_⟩
    rw [Int64.le_iff_toInt_le, hsigned] at hsecond
    apply UInt32.toNat_inj.mp
    exact Int.natCast_eq_zero.mp (Int.le_antisymm hsecond (Int.natCast_nonneg _))
  have hback : seconds.toUInt64.toInt64 = seconds := rfl
  have hnumber : nanoseconds.toUInt64.toInt64.toUInt64.toUInt32 = nanoseconds :=
    UInt32.toUInt32_toUInt64 nanoseconds
  simp only [ofBytes?, bytes, Bytes.word64?_append, hread, Option.bind_eq_bind,
    Option.bind_some, hback, if_neg hpositive, max_zero_of_nonneg hnonneg, hmin,
    max_zero_of_nonneg hseconds, afterEpoch, hnumber, Option.pure_def]

end Timestamp

end TunnelControl
