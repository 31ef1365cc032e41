import BajaDaq.ClockTracking
import BajaDaq.SamplePipeline
import Mathlib.Tactic.Linarith

/-!
# The time of a sample from the node to UTC

`time_sync.c` of the node, and `gps_time.c` and `absolute_clock_sample_utc` of the master. On the
way a time in milliseconds is a counter that wraps at 32 bits.
-/

namespace BajaDaq.SampleTimes
open ClockDiscipline SamplePipeline

/-- The offset that a beacon received at `localUs` gives. -/
def timeSyncUpdate (masterTimeUs : UInt64) (localUs : ℤ) : ℤ :=
  masterTimeUs.toInt64.toInt - localUs

def timeSyncTimestampMsAt (masterOffsetUs localUs : ℤ) : Int32 :=
  Int32.ofInt ((localUs + masterOffsetUs).tdiv 1000)

def gpsTimeSampleUtc (utcNowMs : ℤ) (uptimeNowMs : UInt64) (sampleMs : UInt32) : ℤ :=
  if utcNowMs ≤ 0 then 0
  else
    let delta := sampleMs - uptimeNowMs.toUInt32
    let signedDelta : ℤ := if delta ≤ 2147483647 then delta.toNat else delta.toNat - 4294967296
    utcNowMs + signedDelta

def absoluteClockSampleUtc (clock : Clock) (nowUs : ℤ) (sampleMs : UInt32) : ℤ :=
  let utcUs := clockDisciplineUtcUs clock nowUs
  if utcUs = 0 then 0
  else gpsTimeSampleUtc (utcUs.tdiv 1000) (UInt64.ofInt (nowUs.tdiv 1000)) sampleMs

/-- The upper word of the payload, as `data_logger_enqueue` takes it from a message. -/
def upperWord (data : UInt64) : UInt32 := (data >>> 32).toUInt32

theorem toNat_ofInt (a : ℤ) : (UInt32.ofInt a).toNat = (a % 4294967296).toNat := by
  change (a % 4294967296).toNat % 4294967296 = _
  omega

/-- Narrowing keeps the lower half. -/
theorem toUInt32_ofInt (a : ℤ) : (UInt64.ofInt a).toUInt32 = UInt32.ofInt a := by
  rw [← UInt32.toNat_inj, UInt64.toNat_toUInt32, toNat_ofInt]
  change (a % 18446744073709551616).toNat % 18446744073709551616 % 4294967296 = _
  omega

/-- The difference of two counters, read as a signed number. -/
theorem signedDelta_eq {a b : ℤ} (h : |a - b| < 2147483648) :
    (if UInt32.ofInt a - UInt32.ofInt b ≤ 2147483647 then
      ((UInt32.ofInt a - UInt32.ofInt b).toNat : ℤ)
      else (UInt32.ofInt a - UInt32.ofInt b).toNat - 4294967296) = a - b := by
  have hdelta : (UInt32.ofInt a - UInt32.ofInt b).toNat = ((a - b) % 4294967296).toNat := by
    rw [UInt32.toNat_sub, toNat_ofInt, toNat_ofInt]
    omega
  have hle : UInt32.ofInt a - UInt32.ofInt b ≤ 2147483647 ↔
      ((a - b) % 4294967296).toNat ≤ 2147483647 := by
    rw [UInt32.le_iff_toNat_le, hdelta]
    rfl
  rw [abs_lt] at h
  rw [hdelta]
  by_cases hpositive : UInt32.ofInt a - UInt32.ofInt b ≤ 2147483647
  · rw [if_pos hpositive]
    have hsmall := hle.mp hpositive
    omega
  · rw [if_neg hpositive]
    have hlarge := mt hle.mpr hpositive
    omega

/-- The offset is the distance of the two clocks. -/
theorem timeSyncUpdate_eq {masterTimeUs : UInt64} (h : masterTimeUs.toNat < 2 ^ 63)
    (localUs : ℤ) : localUs + timeSyncUpdate masterTimeUs localUs = masterTimeUs.toNat := by
  have hint : masterTimeUs.toInt64.toInt = masterTimeUs.toNat := by
    change masterTimeUs.toBitVec.toInt = _
    rw [BitVec.toInt_eq_toNat_of_lt]
    · rfl
    · change 2 * masterTimeUs.toNat < _
      omega
  rw [timeSyncUpdate, hint]
  omega

/-- The master takes the timestamp out of the message as it was put in. -/
theorem upperWord_received (canId : UInt32) (timestampMs value : Int32) :
    upperWord (receiveCallback (sendTask ⟨canId, timestampMs, value⟩)).data =
      timestampMs.toUInt32 := by
  rw [receiveCallback_sendTask]
  exact timestamp_packed ⟨canId, timestampMs, value⟩

/-- The converted time of a sample captured at `m` and converted at `n`, in any order. -/
theorem absoluteClockSampleUtc_eq {clock : Clock} {n m : ℤ} (hn : 0 ≤ n) (hm : 0 ≤ m)
    (hnear : |m / 1000 - n / 1000| < 2147483648) (hutc : 1000 ≤ clockDisciplineUtcUs clock n) :
    absoluteClockSampleUtc clock n (UInt32.ofInt (m.tdiv 1000)) =
      clockDisciplineUtcUs clock n / 1000 + m / 1000 - n / 1000 := by
  have hdiv : ∀ t : ℤ, 0 ≤ t → t.tdiv 1000 = t / 1000 :=
    fun t ht => Int.tdiv_eq_ediv_of_nonneg ht
  rw [absoluteClockSampleUtc, if_neg (by omega), hdiv _ (by omega), hdiv n hn, hdiv m hm,
    gpsTimeSampleUtc, if_neg (by omega), toUInt32_ofInt]
  dsimp only
  rw [signedDelta_eq hnear]
  omega

/-- Whatever the counters have wrapped, the time of a sample is converted exactly in milliseconds
and so to less than 2 ms. -/
theorem sampleUtc_of_wrapped (clock : Clock) (n m : ℤ) (hn : 0 ≤ n) (hm : 0 ≤ m)
    (hnear : |m / 1000 - n / 1000| < 2 ^ 31) (hutc : 1000 ≤ clockDisciplineUtcUs clock n)
    (masterOffsetUs localUs : ℤ)
    (hexact : localUs + masterOffsetUs = m) (canId : UInt32) (value : Int32) :
    absoluteClockSampleUtc clock n (upperWord (receiveCallback
        (sendTask ⟨canId, timeSyncTimestampMsAt masterOffsetUs localUs, value⟩)).data) =
      clockDisciplineUtcUs clock n / 1000 + m / 1000 - n / 1000 ∧
    |((clockDisciplineUtcUs clock n / 1000 + m / 1000 - n / 1000 : ℤ) : ℚ) -
      ((clockDisciplineUtcUs clock n : ℚ) - (n - m)) / 1000| < 2 := by
  refine ⟨?_, ?_⟩
  · rw [upperWord_received, timeSyncTimestampMsAt, hexact, toUInt32_int32_ofInt]
    exact absoluteClockSampleUtc_eq hn hm hnear hutc
  · have hround : -2000 < 1000 * (clockDisciplineUtcUs clock n / 1000 + m / 1000 - n / 1000) -
          (clockDisciplineUtcUs clock n - (n - m)) ∧
        1000 * (clockDisciplineUtcUs clock n / 1000 + m / 1000 - n / 1000) -
          (clockDisciplineUtcUs clock n - (n - m)) < 2000 := by
      omega
    generalize clockDisciplineUtcUs clock n / 1000 + m / 1000 - n / 1000 = sampleMs at hround ⊢
    generalize clockDisciplineUtcUs clock n = utcUs at hround ⊢
    obtain ⟨hlow, hhigh⟩ := hround
    have hlow' : (-2000 : ℚ) < 1000 * sampleMs - (utcUs - (n - m)) := by exact_mod_cast hlow
    have hhigh' : (1000 : ℚ) * sampleMs - (utcUs - (n - m)) < 2000 := by exact_mod_cast hhigh
    rw [abs_lt]
    constructor <;> linarith

/-- A sample of 2³² − 1 ms that is converted 3 ms later, behind the wrap, by a clock that was set
at 1 s of uptime; the node has its offset from a beacon. -/
theorem wrappedSample_utc : absoluteClockSampleUtc (jumpTo 1000000 1789065723000000) 4294967298000
    (upperWord (receiveCallback (sendTask ⟨0x064,
      timeSyncTimestampMsAt (timeSyncUpdate 5000500 5000000) 4294967294999, 7⟩)).data) =
      1793360689295 := by
  have hbeacon := @timeSyncUpdate_eq 5000500 (by decide) 5000000
  have hexact : 4294967294999 + timeSyncUpdate 5000500 5000000 = 4294967295499 := by
    change _ = (5000500 : ℤ) at hbeacon
    omega
  have hrun := sampleUtc_of_wrapped (jumpTo 1000000 1789065723000000) 4294967298000 4294967295499
    (by decide) (by decide) (by decide) (by decide) _ 4294967294999 hexact 0x064 7
  exact hrun.1

end BajaDaq.SampleTimes
