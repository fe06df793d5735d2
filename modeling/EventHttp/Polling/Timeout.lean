import EventHttp.Polling.Poller

/-! How long a wait may last, in the words of the machine.  A duration is seconds and nanoseconds;
its milliseconds are added up in 128 bits, rounded up, and cut to a signed word that the wait
takes.  No width is ever too small, so this is `Poller.timeoutMillis`. -/

namespace EventHttp

structure Duration where
  secs : UInt64
  nanos : UInt32
  nanos_lt : nanos.toNat < 1000000000
  deriving DecidableEq, Repr

namespace Duration

def toNanos (d : Duration) : Nat :=
  d.secs.toNat * 1000000000 + d.nanos.toNat

def wholeMillis (d : Duration) : BitVec 128 :=
  d.secs.toBitVec.setWidth 128 * 1000 + (d.nanos / 1000000).toBitVec.setWidth 128

def isWhole (d : Duration) : Bool :=
  d.nanos % 1000000 = 0

def millis (d : Duration) : BitVec 128 :=
  d.wholeMillis + if d.isWhole then 0 else 1

theorem toNat_wholeMillis (d : Duration) : d.wholeMillis.toNat = d.toNanos / 1000000 := by
  have hsecs := d.secs.toNat_lt
  have hnanos := d.nanos_lt
  have hdiv : (d.nanos / 1000000).toNat = d.nanos.toNat / 1000000 := UInt32.toNat_div ..
  have hthousand : (1000 : BitVec 128).toNat = 1000 := rfl
  rw [wholeMillis, toNanos, BitVec.toNat_add, BitVec.toNat_mul, BitVec.toNat_setWidth,
    BitVec.toNat_setWidth, UInt64.toNat_toBitVec, UInt32.toNat_toBitVec, hdiv, hthousand]
  omega

theorem isWhole_iff (d : Duration) : d.isWhole = true ↔ d.toNanos % 1000000 = 0 := by
  have hmod : (d.nanos % 1000000).toNat = d.nanos.toNat % 1000000 := UInt32.toNat_mod ..
  rw [isWhole, decide_eq_true_iff, ← UInt32.toNat_inj, hmod, toNanos]
  change d.nanos.toNat % 1000000 = 0 ↔ _
  omega

theorem toNat_millis (d : Duration) : d.millis.toNat = (d.toNanos + 999999) / 1000000 := by
  have hwhole := d.toNat_wholeMillis
  have hrest := d.isWhole_iff
  have hbound : d.toNanos < 2 ^ 64 * 1000000000 := by
    have hsecs := d.secs.toNat_lt
    have hnanos := d.nanos_lt
    rw [toNanos]
    omega
  rw [millis, BitVec.toNat_add, hwhole]
  by_cases hw : d.isWhole = true
  · rw [if_pos hw]
    have hzero := hrest.mp hw
    change (_ + 0) % 2 ^ 128 = _
    omega
  · rw [if_neg hw]
    have hpos : d.toNanos % 1000000 ≠ 0 := fun hz => hw (hrest.mpr hz)
    change (_ + 1) % 2 ^ 128 = _
    omega

end Duration

namespace Poller

def capped (millis : BitVec 128) : BitVec 128 :=
  if millis ≤ 0x7FFFFFFF then millis else 0x7FFFFFFF

/-- The argument of the wait; a negative one sets no end to it. -/
def timeoutWord : Option Duration → Int32
  | none => -1
  | some d => Int32.ofBitVec ((capped d.millis).setWidth 32)

theorem toNat_capped (millis : BitVec 128) : (capped millis).toNat = min millis.toNat maxMillis := by
  have hcap : (0x7FFFFFFF : BitVec 128).toNat = maxMillis := rfl
  rw [capped, ← hcap]
  by_cases hle : millis ≤ 0x7FFFFFFF
  · rw [if_pos hle]
    exact (Nat.min_eq_left hle).symm
  · rw [if_neg hle]
    exact (Nat.min_eq_right (Nat.le_of_not_le hle)).symm

theorem toInt_timeoutWord (d : Option Duration) :
    (timeoutWord d).toInt = timeoutMillis (d.map Duration.toNanos) := by
  cases d with
  | none => rfl
  | some d =>
    have hcapped := toNat_capped d.millis
    have hle : min d.millis.toNat maxMillis ≤ 0x7FFFFFFF := Nat.min_le_right ..
    have hword : ((capped d.millis).setWidth 32).toNat = min d.millis.toNat maxMillis := by
      rw [BitVec.toNat_setWidth, hcapped, Nat.mod_eq_of_lt (by omega)]
    rw [timeoutWord, Int32.toInt_ofBitVec, BitVec.toInt_eq_toNat_of_lt (by omega), hword,
      Duration.toNat_millis]
    rfl

end Poller
end EventHttp
