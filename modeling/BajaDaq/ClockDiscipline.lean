import BajaDaq.GradualCorrections

/-!
# The UTC estimate of the master

`clock_discipline.c`. The estimate is a line through an anchor point with the last error added
gradually. Times are microseconds; uptimes and dates of any deployment are far inside the range
of `int64_t`.
-/

namespace BajaDaq.ClockDiscipline
open GradualCorrections

def clockDisciplineCorrectionUs : ℤ := 32000000
def clockDisciplineMaxErrorUs : ℤ := 200000
def clockDisciplineStepAfterUs : ℤ := 5000000
def clockDisciplineStepAfterRejections : UInt8 := 5

/-- `clock_discipline_t`. -/
structure Clock where
  synchronized : Bool
  anchorUptimeUs : ℤ
  anchorUtcUs : ℤ
  correctionUs : ℤ
  rejectedInARow : UInt8
  rejectingSinceUs : ℤ
  deriving DecidableEq, Repr

/-- Static storage: all zero until the first observation. -/
def Clock.initial : Clock := ⟨false, 0, 0, 0, 0, 0⟩

inductive ClockObservation where
  | anchored
  | corrected
  | rejected
  | stepped
  deriving DecidableEq, Repr

def clockDisciplineUtcUs (clock : Clock) (uptimeUs : ℤ) : ℤ :=
  if !clock.synchronized then 0
  else
    let elapsedUs := uptimeUs - clock.anchorUptimeUs
    let correctingUs := if elapsedUs < clockDisciplineCorrectionUs then elapsedUs
      else clockDisciplineCorrectionUs
    let correctionSoFarUs := (clock.correctionUs * correctingUs).tdiv clockDisciplineCorrectionUs
    clock.anchorUtcUs + elapsedUs + correctionSoFarUs

def jumpTo (uptimeUs utcUs : ℤ) : Clock := ⟨true, uptimeUs, utcUs, 0, 0, 0⟩

/-- The error exceeds `CLOCK_DISCIPLINE_MAX_ERROR_US`. -/
def TooFar (errorUs : ℤ) : Prop := clockDisciplineMaxErrorUs < |errorUs|

instance (errorUs : ℤ) : Decidable (TooFar errorUs) := inferInstanceAs (Decidable (_ < _))

/-- The clock after counting one more rejection. -/
def countRejection (clock : Clock) (uptimeUs : ℤ) : Clock :=
  { clock with
    rejectingSinceUs := if clock.rejectedInARow = 0 then uptimeUs else clock.rejectingSinceUs
    rejectedInARow := if clock.rejectedInARow < 255 then clock.rejectedInARow + 1
      else clock.rejectedInARow }

/-- The new clock, the result and the reported error. -/
def clockDisciplineObserve (clock : Clock) (uptimeUs utcUs : ℤ) : Clock × ClockObservation × ℤ :=
  if !clock.synchronized then (jumpTo uptimeUs utcUs, .anchored, 0)
  else
    let estimateUs := clockDisciplineUtcUs clock uptimeUs
    let errorUs := utcUs - estimateUs
    if TooFar errorUs then
      let counted := countRejection clock uptimeUs
      if counted.rejectedInARow < clockDisciplineStepAfterRejections ∨
          uptimeUs - counted.rejectingSinceUs < clockDisciplineStepAfterUs then
        (counted, .rejected, errorUs)
      else (jumpTo uptimeUs utcUs, .stepped, errorUs)
    else
      ({ clock with
          anchorUptimeUs := uptimeUs
          anchorUtcUs := estimateUs
          correctionUs := errorUs
          rejectedInARow := 0 }, .corrected, errorUs)

theorem utcUs_of_unsynchronized {clock : Clock} (h : clock.synchronized = false) (uptimeUs : ℤ) :
    clockDisciplineUtcUs clock uptimeUs = 0 := by
  simp [clockDisciplineUtcUs, h]

theorem utcUs_of_synchronized {clock : Clock} (h : clock.synchronized = true) (uptimeUs : ℤ) :
    clockDisciplineUtcUs clock uptimeUs = clock.anchorUtcUs + (uptimeUs - clock.anchorUptimeUs) +
      share clockDisciplineCorrectionUs clock.correctionUs (uptimeUs - clock.anchorUptimeUs) := by
  have hmin : ∀ e p : ℤ, (if e < p then e else p) = min e p := by
    intro e p
    omega
  simp [clockDisciplineUtcUs, h, share, hmin]

/-- Reads of one line never run backwards. -/
theorem utcUs_mono {clock : Clock} {a b : ℤ} (hc : |clock.correctionUs| ≤ clockDisciplineMaxErrorUs)
    (ha : clock.synchronized = true → clock.anchorUptimeUs ≤ a) (hab : a ≤ b) :
    clockDisciplineUtcUs clock a ≤ clockDisciplineUtcUs clock b := by
  cases h : clock.synchronized with
  | false => rw [utcUs_of_unsynchronized h, utcUs_of_unsynchronized h]
  | true =>
    have hsmall : |clock.correctionUs| ≤ clockDisciplineCorrectionUs := hc.trans (by decide)
    have hanchor := ha h
    have hline := add_share_le (by decide) hsmall (show 0 ≤ a - clock.anchorUptimeUs by omega)
      (show a - clock.anchorUptimeUs ≤ b - clock.anchorUptimeUs by omega)
    rw [utcUs_of_synchronized h, utcUs_of_synchronized h]
    omega

/-- What an observation can do to the clock. -/
inductive Observed (clock : Clock) (uptimeUs utcUs : ℤ) : Clock → ClockObservation → Prop
  | anchored (h : clock.synchronized = false) :
    Observed clock uptimeUs utcUs (jumpTo uptimeUs utcUs) .anchored
  | corrected {after : Clock} (h : clock.synchronized = true)
    (hnear : ¬ TooFar (utcUs - clockDisciplineUtcUs clock uptimeUs))
    (hsync : after.synchronized = true) (hanchor : after.anchorUptimeUs = uptimeUs)
    (hutc : after.anchorUtcUs = clockDisciplineUtcUs clock uptimeUs)
    (hcorrection : after.correctionUs = utcUs - clockDisciplineUtcUs clock uptimeUs) :
    Observed clock uptimeUs utcUs after .corrected
  | rejected (h : clock.synchronized = true)
    (hfar : TooFar (utcUs - clockDisciplineUtcUs clock uptimeUs)) :
    Observed clock uptimeUs utcUs (countRejection clock uptimeUs) .rejected
  | stepped (h : clock.synchronized = true)
    (hfar : TooFar (utcUs - clockDisciplineUtcUs clock uptimeUs)) :
    Observed clock uptimeUs utcUs (jumpTo uptimeUs utcUs) .stepped

theorem observed (clock : Clock) (uptimeUs utcUs : ℤ) :
    Observed clock uptimeUs utcUs (clockDisciplineObserve clock uptimeUs utcUs).1
      (clockDisciplineObserve clock uptimeUs utcUs).2.1 := by
  unfold clockDisciplineObserve
  cases h : clock.synchronized with
  | false => exact .anchored h
  | true =>
    simp only [Bool.not_true, Bool.false_eq_true, if_false]
    split_ifs with hfar hreject
    · exact .rejected h hfar
    · exact .stepped h hfar
    · exact .corrected h hfar rfl rfl rfl rfl

/-- A rejection leaves the line as it is. -/
theorem utcUs_countRejection (clock : Clock) (m uptimeUs : ℤ) :
    clockDisciplineUtcUs (countRejection clock m) uptimeUs = clockDisciplineUtcUs clock uptimeUs :=
  rfl

end BajaDaq.ClockDiscipline
