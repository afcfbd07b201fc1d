import TunnelControl.Bytes

namespace TunnelControl

structure Timestamp where
  seconds : Int64
  nanoseconds : UInt32 := 0
deriving DecidableEq, Repr

namespace Timestamp

def nanosecondLimit : Int64 := 999999999

def afterEpoch (seconds : UInt64) (nanoseconds : UInt32) : Timestamp :=
  ⟨seconds.toInt64, nanoseconds⟩

def sinceEpoch? (time : Timestamp) : Option UInt64 :=
  if time.seconds < 0 then none else some time.seconds.toUInt64

/-- The time of a kernel record of two numbers. Where neither is positive there is none; a
number out of range is brought to the end of the range. -/
def ofBytes? (data : Bytes) : Option Timestamp := do
  let (seconds, rest) ← Bytes.word64? data
  let (nanoseconds, _) ← Bytes.word64? rest
  let seconds := seconds.toInt64
  let nanoseconds := nanoseconds.toInt64
  if seconds ≤ 0 ∧ nanoseconds ≤ 0 then none
  else
    let within := min (max nanoseconds 0) nanosecondLimit
    return afterEpoch (max seconds 0).toUInt64 within.toUInt64.toUInt32

end Timestamp

end TunnelControl
