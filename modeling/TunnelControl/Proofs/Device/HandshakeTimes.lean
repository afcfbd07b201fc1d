import TunnelControl.Device.Snapshot
import TunnelControl.Proofs.Netlink.MessageReading

namespace TunnelControl

namespace Bytes

def signed64 (data : Bytes) : Int :=
  Int.bmod (littleEndian (data.take 8)) (2 ^ 64)

def signedWord (data : Bytes) : Int64 :=
  (UInt64.ofNat (littleEndian (data.take 8))).toInt64

theorem toInt_signedWord (data : Bytes) : (signedWord data).toInt = signed64 data := by
  rw [signedWord, UInt64.toInt64_ofNat']
  exact Int64.toInt_ofNat'

theorem word64?_of_lt {data : Bytes} (h : data.length < 8) : word64? data = none :=
  width64.read?_of_lt h

theorem word64?_of_le {data : Bytes} (h : 8 ≤ data.length) :
    word64? data = some (UInt64.ofNat (littleEndian (data.take 8)), data.drop 8) :=
  width64.read?_of_le h

end Bytes

namespace Timestamp

theorem toInt_max (left right : Int64) : (max left right).toInt = max left.toInt right.toInt := by
  have hmax : max left right = if left ≤ right then right else left := rfl
  rw [hmax, apply_ite Int64.toInt, Int.max_def]
  simp only [Int64.le_iff_toInt_le]

theorem toInt_min (left right : Int64) : (min left right).toInt = min left.toInt right.toInt := by
  have hmin : min left right = if left ≤ right then left else right := rfl
  rw [hmin, apply_ite Int64.toInt, Int.min_def]
  simp only [Int64.le_iff_toInt_le]

theorem toNat_toUInt64 {number : Int64} (h : 0 ≤ number.toInt) :
    number.toUInt64.toNat = number.toInt.toNat :=
  Int64.toNat_toUInt64_of_le (Int64.le_iff_toInt_le.mpr h)

/-! The clock. -/

def epoch : Timestamp := ⟨0, 0⟩

/-- The time by so much later, if the clock can show it: it counts the seconds in 64 bits, one of
them for the sign. -/
def later? (time : Timestamp) (seconds nanoseconds : Nat) : Option Timestamp :=
  let total := time.nanoseconds.toNat + nanoseconds
  let passed := seconds + total / 1000000000
  let whole := time.seconds.toInt + passed
  if whole ≤ 0x7FFFFFFFFFFFFFFF then
    some ⟨Int64.ofInt whole, UInt32.ofNat (total % 1000000000)⟩
  else none

theorem later?_epoch {seconds : Int64} {nanoseconds : UInt32} (hseconds : 0 ≤ seconds.toInt)
    (hnanoseconds : nanoseconds.toNat < 1000000000) :
    epoch.later? seconds.toInt.toNat nanoseconds.toNat =
      some (afterEpoch seconds.toUInt64 nanoseconds) := by
  have hlimit : seconds.toInt ≤ 0x7FFFFFFFFFFFFFFF := Int.le_of_lt_add_one seconds.toInt_lt
  have hnow : epoch.seconds.toInt = 0 ∧ epoch.nanoseconds.toNat = 0 := ⟨rfl, rfl⟩
  simp only [later?, hnow, Nat.zero_add, Int.zero_add, Nat.div_eq_of_lt hnanoseconds, Nat.add_zero,
    Nat.mod_eq_of_lt hnanoseconds, Int.toNat_of_nonneg hseconds, if_pos hlimit, afterEpoch,
    Int64.toInt64_toUInt64, Int64.ofInt_toInt, UInt32.ofNat_toNat]

example : epoch.later? (2 ^ 63) 0 = none := by decide

/-! The time of a record. -/

/-- What counts of a number of nanoseconds. -/
def within (nanoseconds : Int) : Int :=
  min (max nanoseconds 0) 999999999

def ofNumbers (seconds nanoseconds : Int64) : Timestamp :=
  afterEpoch (max seconds 0).toUInt64
    (min (max nanoseconds 0) nanosecondLimit).toUInt64.toUInt32

theorem ofBytes?_of_lt {data : Bytes} (h : data.length < 16) : ofBytes? data = none := by
  rcases Nat.lt_or_ge data.length 8 with hshort | hlong
  · rw [ofBytes?, Bytes.word64?_of_lt hshort]
    rfl
  · have hrest : Bytes.word64? (data.drop 8) = none :=
      Bytes.word64?_of_lt (by rw [List.length_drop]; omega)
    simp only [ofBytes?, Bytes.word64?_of_le hlong, Option.bind_eq_bind, Option.bind_some, hrest,
      Option.bind_none]

theorem ofBytes?_of_le {data : Bytes} (h : 16 ≤ data.length) :
    ofBytes? data =
      if Bytes.signed64 data ≤ 0 ∧ Bytes.signed64 (data.drop 8) ≤ 0 then none
      else some (ofNumbers (Bytes.signedWord data) (Bytes.signedWord (data.drop 8))) := by
  have hseconds := Bytes.word64?_of_le (show 8 ≤ data.length by omega)
  have hnanoseconds := Bytes.word64?_of_le
    (show 8 ≤ (data.drop 8).length by rw [List.length_drop]; omega)
  have hnone : ∀ number : Int64, number ≤ 0 ↔ number.toInt ≤ 0 :=
    fun number => Int64.le_iff_toInt_le
  simp only [ofBytes?, hseconds, hnanoseconds, Option.bind_eq_bind, Option.bind_some,
    Option.pure_def, ← Bytes.toInt_signedWord, ← hnone]
  rfl

variable (seconds nanoseconds : Int64)

theorem toInt_seconds_ofNumbers :
    (ofNumbers seconds nanoseconds).seconds.toInt = max seconds.toInt 0 := by
  rw [ofNumbers, afterEpoch, Int64.toInt64_toUInt64, toInt_max]
  rfl

theorem toNat_nanoseconds_ofNumbers :
    ((ofNumbers seconds nanoseconds).nanoseconds.toNat : Int) = within nanoseconds.toInt := by
  have hmost : nanosecondLimit.toInt = 999999999 := rfl
  have hzero : (0 : Int64).toInt = 0 := rfl
  have hinside : (min (max nanoseconds 0) nanosecondLimit).toInt = within nanoseconds.toInt := by
    rw [toInt_min, toInt_max, hmost, hzero, within]
  have hrange : 0 ≤ within nanoseconds.toInt ∧ within nanoseconds.toInt ≤ 999999999 := by
    unfold within
    omega
  have hafter : 0 ≤ (min (max nanoseconds 0) nanosecondLimit).toInt := hinside ▸ hrange.1
  rw [ofNumbers, afterEpoch, UInt64.toNat_toUInt32, toNat_toUInt64 hafter, hinside]
  omega

/-- The clock can show the time of every record. -/
theorem later?_epoch_ofNumbers :
    epoch.later? (max seconds.toInt 0).toNat (within nanoseconds.toInt).toNat =
      some (ofNumbers seconds nanoseconds) := by
  have hnanoseconds := toNat_nanoseconds_ofNumbers seconds nanoseconds
  have hlimit : within nanoseconds.toInt ≤ 999999999 := Int.min_le_right _ _
  have hshown := @later?_epoch (max seconds 0) (ofNumbers seconds nanoseconds).nanoseconds
    (by rw [toInt_max]; exact Int.le_max_right _ _) (by omega)
  rw [toInt_max] at hshown
  rw [← hnanoseconds, Int.toNat_natCast]
  exact hshown

theorem toInt_handshakeSeconds {peer : Peer} {time : Timestamp}
    (htime : peer.lastHandshake = some time) (hseconds : 0 ≤ time.seconds.toInt) :
    peer.handshakeSeconds.toInt = time.seconds.toInt := by
  have hafter : ¬ time.seconds < 0 := by
    rw [Int64.lt_iff_toInt_lt]
    exact Int.not_lt.mpr hseconds
  rw [Peer.handshakeSeconds, htime, Option.bind_some, sinceEpoch?, if_neg hafter]
  exact congrArg Int64.toInt (Int64.toInt64_toUInt64 _)

theorem toInt_handshakeSeconds_ofBytes? (peer : Peer) (data : Bytes) :
    Int64.toInt { peer with lastHandshake := ofBytes? data }.handshakeSeconds =
      if data.length < 16 then 0 else max (Bytes.signed64 data) 0 := by
  rcases Nat.lt_or_ge data.length 16 with hshort | hlong
  · rw [ofBytes?_of_lt hshort, if_pos hshort]
    rfl
  · rw [ofBytes?_of_le hlong, if_neg (Nat.not_lt.mpr hlong)]
    split
    · rename_i hbefore
      rw [Int.max_eq_right hbefore.1]
      rfl
    · have hseconds :=
        toInt_seconds_ofNumbers (Bytes.signedWord data) (Bytes.signedWord (data.drop 8))
      have hafter : 0 ≤ (ofNumbers (Bytes.signedWord data)
          (Bytes.signedWord (data.drop 8))).seconds.toInt := by
        rw [hseconds]
        exact Int.le_max_right _ _
      rw [toInt_handshakeSeconds rfl hafter, hseconds, Bytes.toInt_signedWord]

/-- Of any bytes, the time is none if they are too few or neither number is positive, and otherwise
one that the clock can show, with the seconds and nanoseconds that the numbers state, brought into
their range; and the seconds to it are never negative, whatever the numbers. -/
theorem handshake_times_shown (data : Bytes) :
    let seconds := Bytes.signed64 data
    let nanoseconds := Bytes.signed64 (data.drop 8)
    (∃ time, epoch.later? (max seconds 0).toNat (within nanoseconds).toNat = some time ∧
      time.seconds.toInt = max seconds 0 ∧ time.nanoseconds.toNat = within nanoseconds ∧
      ofBytes? data =
        if data.length < 16 ∨ seconds ≤ 0 ∧ nanoseconds ≤ 0 then none else some time) ∧
    ∀ peer : Peer, Int64.toInt { peer with lastHandshake := ofBytes? data }.handshakeSeconds =
      if data.length < 16 then 0 else max seconds 0 := by
  intro seconds nanoseconds
  refine ⟨?_, fun peer => toInt_handshakeSeconds_ofBytes? peer data⟩
  have hseconds := toInt_seconds_ofNumbers (Bytes.signedWord data) (Bytes.signedWord (data.drop 8))
  have hnanoseconds :=
    toNat_nanoseconds_ofNumbers (Bytes.signedWord data) (Bytes.signedWord (data.drop 8))
  have hshown := later?_epoch_ofNumbers (Bytes.signedWord data) (Bytes.signedWord (data.drop 8))
  simp only [Bytes.toInt_signedWord] at hseconds hnanoseconds hshown
  refine ⟨_, hshown, hseconds, hnanoseconds, ?_⟩
  rcases Nat.lt_or_ge data.length 16 with hshort | hlong
  · rw [ofBytes?_of_lt hshort, if_pos (.inl hshort)]
  · simp only [ofBytes?_of_le hlong, Nat.not_lt.mpr hlong, false_or, seconds, nanoseconds]

end Timestamp

end TunnelControl
