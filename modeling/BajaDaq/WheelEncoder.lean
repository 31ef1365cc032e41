import Mathlib.Algebra.BigOperators.Group.List.Basic
import Mathlib.Data.Int.ModEq
import BajaDaq.CarriedRemainders
import BajaDaq.BearingEncoder

/-!
# The encoder of the wheel simulator

The edges that `simulators/wheel-rpm/src/main.c` puts on its two outputs: `set_encoder_rpm`
sets the speed, and the timer's alarm takes one quadrature step and asks
`next_interval_locked` for the time of the next.
-/

namespace BajaDaq.WheelEncoder

open CarriedRemainders

def pulsesPerRevolution : UInt32 := 32
def countsPerRevolution : UInt32 := pulsesPerRevolution * 4
def defaultRpm : Int32 := 500
def maxAbsoluteRpm : Int32 := 3000

/-- `encoder_state_t` without its lock. -/
structure EncoderState where
  rpm : Int32
  absoluteRpm : UInt32
  direction : Int8
  stateIndex : UInt8
  intervalDenominator : UInt64
  fractionalAccumulator : UInt64
  deriving DecidableEq, Repr

/-- The initializer of `encoder`: the rest of it is zero. -/
def initialEncoder : EncoderState :=
  ⟨defaultRpm, defaultRpm.toUInt32, 1, 0, 0, 0⟩

def quadratureStates : List UInt8 := [0, 1, 3, 2]

/-- The levels of A and B that `write_quadrature_state` puts out. -/
def quadratureLevels (index : UInt8) : UInt8 × UInt8 :=
  let state := quadratureStates.getD (index &&& 3).toNat 0
  ((state >>> 1) &&& 1, state &&& 1)

/-- The base of an interval with its carry, and the accumulator it leaves. -/
def carriedBase (encoder : EncoderState) : UInt64 × UInt64 :=
  let base := 60000000 / encoder.intervalDenominator
  let remainder := 60000000 % encoder.intervalDenominator
  let accumulator := encoder.fractionalAccumulator + remainder
  if encoder.intervalDenominator ≤ accumulator then
    (base + 1, accumulator - encoder.intervalDenominator)
  else (base, accumulator)

def nextIntervalLocked (encoder : EncoderState) : UInt32 × EncoderState :=
  if encoder.intervalDenominator = 0 then (100000, encoder)
  else
    let (base, accumulator) := carriedBase encoder
    (if base ≠ 0 then base.toUInt32 else 1, { encoder with fractionalAccumulator := accumulator })

/-- `(uint8_t)((state_index + direction + 4) & 3)`, in `int`. -/
def nextStateIndex (index : UInt8) (direction : Int8) : UInt8 :=
  ((index.toUInt32.toInt32 + direction.toInt32 + 4) &&& 3).toUInt32.toUInt8

def moveStateIndex (encoder : EncoderState) : EncoderState :=
  if encoder.absoluteRpm ≠ 0 then
    { encoder with stateIndex := nextStateIndex encoder.stateIndex encoder.direction }
  else encoder

/-- The two bounds at the start of `set_encoder_rpm`. -/
def boundedRpm (rpm : Int32) : Int32 :=
  let rpm := if maxAbsoluteRpm < rpm then maxAbsoluteRpm else rpm
  if rpm < -maxAbsoluteRpm then -maxAbsoluteRpm else rpm

def setEncoderRpm (rpm : Int32) (encoder : EncoderState) : EncoderState :=
  let rpm := boundedRpm rpm
  let absolute := if rpm < 0 then (-rpm).toUInt32 else rpm.toUInt32
  { encoder with
    rpm := rpm
    absoluteRpm := absolute
    direction := if rpm < 0 then -1 else 1
    intervalDenominator := absolute.toUInt64 * countsPerRevolution.toUInt64
    fractionalAccumulator := 0 }

/-- The encoder with its outputs and the count its timer waits for. -/
structure Wheel where
  encoder : EncoderState
  levels : UInt8 × UInt8
  alarmCount : UInt64
  deriving DecidableEq, Repr

/-- After `init_outputs` and `init_edge_timer`. -/
def Wheel.start : Wheel :=
  ⟨initialEncoder, quadratureLevels 0, 1⟩

/-- `edge_alarm_callback`, with the interval it adds. -/
def edgeAlarmCallback (wheel : Wheel) : UInt32 × Wheel :=
  let moved := moveStateIndex wheel.encoder
  let (interval, encoder) := nextIntervalLocked moved
  (interval, ⟨encoder, quadratureLevels moved.stateIndex, wheel.alarmCount + interval.toUInt64⟩)

/-- What happens to the wheel: a speed is set, or the timer's alarm fires. -/
inductive Event where
  | setRpm (rpm : Int32)
  | alarm
  deriving DecidableEq, Repr

def Wheel.after (wheel : Wheel) : Event → Wheel
  | .setRpm rpm => { wheel with encoder := setEncoderRpm rpm wheel.encoder }
  | .alarm => (edgeAlarmCallback wheel).2

/-- The wheel after everything that happened since the start. -/
def Wheel.history (events : List Event) : Wheel :=
  events.foldl Wheel.after Wheel.start

/-- The next `n` results of `next_interval_locked`, and the encoder after them. -/
def nextIntervals : ℕ → EncoderState → List UInt32 × EncoderState
  | 0, encoder => ([], encoder)
  | n + 1, encoder =>
    let first := nextIntervalLocked encoder
    let rest := nextIntervals n first.2
    (first.1 :: rest.1, rest.2)

/-- The wheel after `n` alarms. -/
def Wheel.alarms : ℕ → Wheel → Wheel
  | 0, wheel => wheel
  | n + 1, wheel => Wheel.alarms n (wheel.after .alarm)

/-- The intervals of the next `n` alarms. -/
def Wheel.intervals : ℕ → Wheel → List UInt32
  | 0, _ => []
  | n + 1, wheel => (edgeAlarmCallback wheel).1 :: Wheel.intervals n (wheel.after .alarm)

variable {encoder : EncoderState} {d : ℕ}

/-- The timing fields after a speed was set, for `d` counts a minute. -/
structure Timed (d : ℕ) (encoder : EncoderState) : Prop where
  denominator : encoder.intervalDenominator.toNat = d
  kept : encoder.fractionalAccumulator.toNat < d

theorem carriedBase_toNat (h : Timed d encoder) (hd : d ≤ 384000) :
    (carriedBase encoder).1.toNat =
        (part 60000000 d encoder.fractionalAccumulator.toNat).1 ∧
      (carriedBase encoder).2.toNat =
        (part 60000000 d encoder.fractionalAccumulator.toNat).2 := by
  obtain ⟨hden, hkept⟩ := h
  have hmod : 60000000 % d < d := Nat.mod_lt _ (by omega)
  have hquotient : 60000000 / d ≤ 60000000 := Nat.div_le_self _ _
  have hsum : (encoder.fractionalAccumulator +
      60000000 % encoder.intervalDenominator).toNat =
      encoder.fractionalAccumulator.toNat + 60000000 % d := by
    rw [UInt64.toNat_add, UInt64.toNat_mod, hden]
    exact Nat.mod_eq_of_lt (by simp; omega)
  have hbase : (60000000 / encoder.intervalDenominator).toNat = 60000000 / d := by
    rw [UInt64.toNat_div, hden]
    rfl
  unfold carriedBase part
  by_cases hcarry : d ≤ encoder.fractionalAccumulator.toNat + 60000000 % d
  · have hle : encoder.intervalDenominator ≤ encoder.fractionalAccumulator +
        60000000 % encoder.intervalDenominator := by
      rw [UInt64.le_iff_toNat_le, hsum, hden]
      exact hcarry
    rw [if_pos hle, if_pos hcarry]
    constructor
    · rw [UInt64.toNat_add, hbase]
      exact Nat.mod_eq_of_lt (by simp; omega)
    · rw [UInt64.toNat_sub_of_le _ _ hle, hsum, hden]
  · have hnot : ¬ encoder.intervalDenominator ≤ encoder.fractionalAccumulator +
        60000000 % encoder.intervalDenominator := by
      rw [UInt64.le_iff_toNat_le, hsum, hden]
      exact hcarry
    rw [if_neg hnot, if_neg hcarry]
    exact ⟨hbase, hsum⟩

/-- The 64-bit base of an interval is not zero and fits the 32 bits it is cast to. -/
theorem carriedBase_bounds (h : Timed d encoder) (hd : d ≤ 384000) (hlow : 128 ≤ d) :
    0 < (carriedBase encoder).1.toNat ∧ (carriedBase encoder).1.toNat < 2 ^ 32 := by
  obtain ⟨hlower, hupper⟩ := part_bounds 60000000 d encoder.fractionalAccumulator.toNat
  have hsmall : 60000000 / d ≤ 60000000 := Nat.div_le_self _ _
  have hlarge : 0 < 60000000 / d := Nat.div_pos (by omega) (by omega)
  rw [(carriedBase_toNat h hd).1]
  omega

/-- The next interval is its 64-bit base. -/
theorem nextIntervalLocked_toNat (h : Timed d encoder) (hd : d ≤ 384000) (hlow : 128 ≤ d) :
    (nextIntervalLocked encoder).1.toNat = (carriedBase encoder).1.toNat ∧
      (nextIntervalLocked encoder).2 =
        { encoder with fractionalAccumulator := (carriedBase encoder).2 } := by
  obtain ⟨hpos, hfits⟩ := carriedBase_bounds h hd hlow
  have hden : encoder.intervalDenominator ≠ 0 := by
    intro hzero
    have hdenominator := h.denominator
    rw [hzero, UInt64.toNat_zero] at hdenominator
    omega
  have hbase : (carriedBase encoder).1 ≠ 0 := by
    intro hzero
    rw [hzero, UInt64.toNat_zero] at hpos
    omega
  rw [nextIntervalLocked, if_neg hden]
  refine ⟨?_, rfl⟩
  simp only [if_pos hbase, UInt64.toNat_toUInt32]
  exact Nat.mod_eq_of_lt hfits

theorem Timed.next (h : Timed d encoder) (hd : d ≤ 384000) (hlow : 128 ≤ d) :
    Timed d (nextIntervalLocked encoder).2 := by
  rw [(nextIntervalLocked_toNat h hd hlow).2]
  refine ⟨h.denominator, ?_⟩
  rw [(carriedBase_toNat h hd).2]
  exact part_kept_lt h.kept

/-- The calls hand out the parts of a minute: each keeps the remainder for the next. -/
theorem nextIntervals_parts (h : Timed d encoder) (hd : d ≤ 384000) (hlow : 128 ≤ d) (n : ℕ) :
    (nextIntervals n encoder).1.map UInt32.toNat =
        (parts 60000000 d n encoder.fractionalAccumulator.toNat).1 ∧
      Timed d (nextIntervals n encoder).2 := by
  induction n generalizing encoder with
  | zero => exact ⟨rfl, h⟩
  | succ n ih =>
    obtain ⟨hrest, htimed⟩ := ih (h.next hd hlow)
    refine ⟨?_, htimed⟩
    rw [(nextIntervalLocked_toNat h hd hlow).2] at hrest
    simp only [nextIntervals, parts, List.map_cons]
    rw [(nextIntervalLocked_toNat h hd hlow).1, (nextIntervalLocked_toNat h hd hlow).2, hrest,
      (carriedBase_toNat h hd).1, (carriedBase_toNat h hd).2]

theorem sum_nextIntervals (h : Timed d encoder) (hd : d ≤ 384000) (hlow : 128 ≤ d) (n : ℕ) :
    ((nextIntervals n encoder).1.map UInt32.toNat).sum =
      (encoder.fractionalAccumulator.toNat + n * 60000000) / d := by
  rw [(nextIntervals_parts h hd hlow n).1]
  exact sum_parts h.kept n

theorem toNat_toUInt32_of_nonneg {r : Int32} (h : 0 ≤ r.toInt) :
    r.toUInt32.toNat = r.toInt.natAbs := by
  have hle : (0 : Int32) ≤ r := Int32.le_iff_toInt_le.mpr h
  rw [Int32.toNat_toUInt32_of_le hle, ← Int32.toNat_toInt]
  omega

theorem toInt_neg_of_bounded {r : Int32} (h : r.toInt.natAbs ≤ 3000) :
    (-r).toInt = -r.toInt := by
  rw [Int32.toInt_neg]
  exact Int.bmod_eq_of_le (by omega) (by omega)

/-- A speed within the bounds is taken as it is. -/
theorem boundedRpm_eq {r : Int32} (hmax : r.toInt.natAbs ≤ 3000) : boundedRpm r = r := by
  have hupper : ¬ maxAbsoluteRpm < r := by
    rw [Int32.lt_iff_toInt_lt]
    simp [maxAbsoluteRpm]
    omega
  have hlower : ¬ r < -maxAbsoluteRpm := by
    rw [Int32.lt_iff_toInt_lt]
    simp [maxAbsoluteRpm]
    omega
  rw [boundedRpm, if_neg hupper, if_neg hlower]

theorem setEncoderRpm_of_bounded {r : Int32} (hmax : r.toInt.natAbs ≤ 3000)
    (encoder : EncoderState) :
    (setEncoderRpm r encoder).rpm = r ∧
      (setEncoderRpm r encoder).absoluteRpm.toNat = r.toInt.natAbs ∧
      (setEncoderRpm r encoder).direction = if r < 0 then -1 else 1 := by
  simp only [setEncoderRpm, boundedRpm_eq hmax, true_and, and_true]
  by_cases hneg : r < 0
  · have hsign : r.toInt < 0 := Int32.lt_iff_toInt_lt.mp hneg
    have habsolute := toInt_neg_of_bounded hmax
    rw [if_pos hneg, toNat_toUInt32_of_nonneg (by omega), habsolute, Int.natAbs_neg]
  · have hsign : ¬ r.toInt < 0 := fun h => hneg (Int32.lt_iff_toInt_lt.mpr h)
    rw [if_neg hneg, toNat_toUInt32_of_nonneg (by omega)]

theorem setEncoderRpm_denominator (r : Int32) (encoder : EncoderState) :
    (setEncoderRpm r encoder).intervalDenominator.toNat =
      128 * (setEncoderRpm r encoder).absoluteRpm.toNat := by
  have hcounts : countsPerRevolution.toUInt64.toNat = 128 := by decide
  unfold setEncoderRpm
  dsimp only
  generalize (if boundedRpm r < 0 then (-boundedRpm r).toUInt32
    else (boundedRpm r).toUInt32) = absolute
  have hlt := absolute.toNat_lt
  rw [UInt64.toNat_mul, UInt32.toNat_toUInt64, hcounts]
  omega

/-- Every speed starts its train with nothing kept. -/
theorem setEncoderRpm_timed {r : Int32} (hmin : 1 ≤ r.toInt.natAbs)
    (hmax : r.toInt.natAbs ≤ 3000) (encoder : EncoderState) :
    Timed (128 * r.toInt.natAbs) (setEncoderRpm r encoder) := by
  refine ⟨?_, ?_⟩
  · rw [setEncoderRpm_denominator, (setEncoderRpm_of_bounded hmax encoder).2.1]
  · change 0 < _
    omega

theorem index_cases {index : UInt8} (h : index.toNat < 4) :
    index = 0 ∨ index = 1 ∨ index = 2 ∨ index = 3 := by
  simp only [← UInt8.toNat_inj]
  simp
  omega

/-- The index moves by the direction, modulo 4. -/
theorem nextStateIndex_modEq {index : UInt8} {direction : Int8} (h : index.toNat < 4)
    (hdir : direction = 1 ∨ direction = -1) :
    (nextStateIndex index direction).toNat < 4 ∧
      ((nextStateIndex index direction).toNat : ℤ) ≡ index.toNat + direction.toInt [ZMOD 4] := by
  rcases index_cases h with rfl | rfl | rfl | rfl <;> rcases hdir with rfl | rfl <;> decide

/-- Exactly one of the two outputs differs. -/
def OneChanges (before after : UInt8 × UInt8) : Prop :=
  before.1 ≠ after.1 ∧ before.2 = after.2 ∨ before.1 = after.1 ∧ before.2 ≠ after.2

instance (before after : UInt8 × UInt8) : Decidable (OneChanges before after) :=
  inferInstanceAs (Decidable (_ ∨ _))

/-- The four codes are in the order of a quadrature cycle. -/
theorem nextStateIndex_oneChanges {index : UInt8} {direction : Int8} (h : index.toNat < 4)
    (hdir : direction = 1 ∨ direction = -1) :
    OneChanges (quadratureLevels index) (quadratureLevels (nextStateIndex index direction)) := by
  rcases index_cases h with rfl | rfl | rfl | rfl <;> rcases hdir with rfl | rfl <;> decide

/-- The two levels as `read_state` of the bearing node reads them. -/
def readLevels (levels : UInt8 × UInt8) : BearingEncoder.AbState :=
  ⟨(2 * levels.1.toNat + levels.2.toNat) % 4, Nat.mod_lt _ (Nat.succ_pos 3)⟩

/-- The node takes every step of the simulator for a valid transition. With A and B wired in
order, its count goes the other way. -/
theorem nextStateIndex_encoderTransition {index : UInt8} {direction : Int8}
    (h : index.toNat < 4) (hdir : direction = 1 ∨ direction = -1) :
    BearingEncoder.encoderTransition (readLevels (quadratureLevels index))
      (readLevels (quadratureLevels (nextStateIndex index direction))) = -direction.toInt := by
  rcases index_cases h with rfl | rfl | rfl | rfl <;> rcases hdir with rfl | rfl <;> decide

/-- What holds of the wheel between two events. -/
structure Wheel.Sound (wheel : Wheel) : Prop where
  index : wheel.encoder.stateIndex.toNat < 4
  direction : wheel.encoder.direction = 1 ∨ wheel.encoder.direction = -1
  levels : wheel.levels = quadratureLevels wheel.encoder.stateIndex

/-- Asking for an interval moves the accumulator only. -/
theorem nextIntervalLocked_frame (encoder : EncoderState) :
    (nextIntervalLocked encoder).2 = { encoder with
      fractionalAccumulator := (nextIntervalLocked encoder).2.fractionalAccumulator } := by
  unfold nextIntervalLocked
  split <;> rfl

theorem after_alarm_encoder (wheel : Wheel) :
    (wheel.after .alarm).encoder = (nextIntervalLocked (moveStateIndex wheel.encoder)).2 := rfl

theorem moveStateIndex_direction (encoder : EncoderState) :
    (moveStateIndex encoder).direction = encoder.direction := by
  unfold moveStateIndex
  split <;> rfl

theorem moveStateIndex_index_lt (h : encoder.stateIndex.toNat < 4)
    (hdir : encoder.direction = 1 ∨ encoder.direction = -1) :
    (moveStateIndex encoder).stateIndex.toNat < 4 := by
  unfold moveStateIndex
  split
  · exact (nextStateIndex_modEq h hdir).1
  · exact h

theorem setEncoderRpm_direction (rpm : Int32) (encoder : EncoderState) :
    (setEncoderRpm rpm encoder).direction = 1 ∨ (setEncoderRpm rpm encoder).direction = -1 := by
  unfold setEncoderRpm
  dsimp only
  by_cases hneg : boundedRpm rpm < 0
  · exact .inr (if_pos hneg)
  · exact .inl (if_neg hneg)

theorem Wheel.Sound.after {wheel : Wheel} (h : wheel.Sound) (event : Event) :
    (wheel.after event).Sound := by
  cases event with
  | setRpm rpm => exact ⟨h.index, setEncoderRpm_direction rpm _, h.levels⟩
  | alarm =>
    refine ⟨?_, ?_, ?_⟩
    · rw [after_alarm_encoder, nextIntervalLocked_frame]
      exact moveStateIndex_index_lt h.index h.direction
    · rw [after_alarm_encoder, nextIntervalLocked_frame]
      change (moveStateIndex wheel.encoder).direction = 1 ∨ _ = -1
      rw [moveStateIndex_direction]
      exact h.direction
    · rw [after_alarm_encoder, nextIntervalLocked_frame]
      rfl

/-- Whatever happened since the start. -/
theorem Wheel.sound_history (events : List Event) : (Wheel.history events).Sound := by
  have hstart : Wheel.start.Sound := ⟨by decide, .inl rfl, rfl⟩
  unfold Wheel.history
  induction events using List.reverseRecOn with
  | nil => exact hstart
  | append_singleton events event ih =>
    rw [List.foldl_append]
    exact ih.after event

/-- A wheel that turns: the speed is not zero. -/
structure Turning (d : ℕ) (wheel : Wheel) : Prop where
  sound : wheel.Sound
  timed : Timed d wheel.encoder
  rpm : wheel.encoder.absoluteRpm ≠ 0

theorem Turning.encoder_after {wheel : Wheel} (h : Turning d wheel) (hd : d ≤ 384000)
    (hlow : 128 ≤ d) :
    (wheel.after .alarm).encoder = { wheel.encoder with
      stateIndex := nextStateIndex wheel.encoder.stateIndex wheel.encoder.direction
      fractionalAccumulator := (carriedBase wheel.encoder).2 } := by
  have hmove : moveStateIndex wheel.encoder = { wheel.encoder with
      stateIndex := nextStateIndex wheel.encoder.stateIndex wheel.encoder.direction } :=
    if_pos h.rpm
  have hmoved : Timed d (moveStateIndex wheel.encoder) := by
    rw [hmove]
    exact ⟨h.timed.denominator, h.timed.kept⟩
  rw [after_alarm_encoder, (nextIntervalLocked_toNat hmoved hd hlow).2, hmove]
  rfl

theorem Turning.after {wheel : Wheel} (h : Turning d wheel) (hd : d ≤ 384000) (hlow : 128 ≤ d) :
    Turning d (wheel.after .alarm) := by
  refine ⟨h.sound.after .alarm, ?_, ?_⟩
  · rw [h.encoder_after hd hlow]
    refine ⟨h.timed.denominator, ?_⟩
    have hkept := (h.timed.next hd hlow).kept
    rwa [(nextIntervalLocked_toNat h.timed hd hlow).2] at hkept
  · rw [h.encoder_after hd hlow]
    exact h.rpm

theorem Turning.alarms {wheel : Wheel} (h : Turning d wheel) (hd : d ≤ 384000) (hlow : 128 ≤ d)
    (n : ℕ) : Turning d (wheel.alarms n) := by
  induction n generalizing wheel with
  | zero => exact h
  | succ n ih => exact ih (h.after hd hlow)

/-- The interval does not depend on the state index, so the alarms ask for the same intervals as
the calls alone. -/
theorem nextIntervals_stateIndex (n : ℕ) (index : UInt8) (encoder : EncoderState) :
    (nextIntervals n { encoder with stateIndex := index }).1 = (nextIntervals n encoder).1 := by
  induction n generalizing encoder with
  | zero => rfl
  | succ n ih =>
    have hnext : nextIntervalLocked { encoder with stateIndex := index } =
        ((nextIntervalLocked encoder).1,
          { (nextIntervalLocked encoder).2 with stateIndex := index }) := by
      unfold nextIntervalLocked
      dsimp only
      split <;> rfl
    simp only [nextIntervals, hnext, ih]

theorem moveStateIndex_eq (encoder : EncoderState) :
    moveStateIndex encoder =
      { encoder with stateIndex := (moveStateIndex encoder).stateIndex } := by
  unfold moveStateIndex
  split <;> rfl

theorem intervals_eq_nextIntervals (wheel : Wheel) (n : ℕ) :
    wheel.intervals n = (nextIntervals n wheel.encoder).1 := by
  induction n generalizing wheel with
  | zero => rfl
  | succ n ih =>
    have hcalls : (nextIntervals (n + 1) (moveStateIndex wheel.encoder)).1 =
        (nextIntervals (n + 1) wheel.encoder).1 := by
      rw [moveStateIndex_eq]
      exact nextIntervals_stateIndex _ _ _
    rw [← hcalls, Wheel.intervals, ih, after_alarm_encoder]
    rfl

/-- After `n` alarms the index has moved `n` times by the direction. -/
theorem Turning.index_alarms {wheel : Wheel} (h : Turning d wheel) (hd : d ≤ 384000)
    (hlow : 128 ≤ d) (n : ℕ) :
    ((wheel.alarms n).encoder.stateIndex.toNat : ℤ) ≡
      wheel.encoder.stateIndex.toNat + n * wheel.encoder.direction.toInt [ZMOD 4] := by
  induction n generalizing wheel with
  | zero => simp [Wheel.alarms, Int.ModEq.refl]
  | succ n ih =>
    have hrest := ih (h.after hd hlow)
    rw [h.encoder_after hd hlow] at hrest
    have hfirst := (nextStateIndex_modEq h.sound.index h.sound.direction).2
    refine hrest.trans ((hfirst.add_right _).trans ?_)
    rw [Nat.cast_succ, add_mul, one_mul, add_assoc, add_comm (wheel.encoder.direction.toInt)]

theorem Turning.oneChanges {wheel : Wheel} (h : Turning d wheel) (hd : d ≤ 384000)
    (hlow : 128 ≤ d) : OneChanges wheel.levels (wheel.after .alarm).levels := by
  rw [h.sound.levels, (h.after hd hlow).sound.levels, h.encoder_after hd hlow]
  exact nextStateIndex_oneChanges h.sound.index h.sound.direction

theorem turning_setRpm {wheel : Wheel} (h : wheel.Sound) {r : Int32}
    (hmin : 1 ≤ r.toInt.natAbs) (hmax : r.toInt.natAbs ≤ 3000) :
    Turning (128 * r.toInt.natAbs) (wheel.after (.setRpm r)) := by
  refine ⟨h.after _, setEncoderRpm_timed hmin hmax _, ?_⟩
  intro hzero
  have habsolute := (setEncoderRpm_of_bounded hmax wheel.encoder).2.1
  change (setEncoderRpm r wheel.encoder).absoluteRpm = 0 at hzero
  rw [hzero, UInt32.toNat_zero] at habsolute
  omega

theorem direction_toInt {r : Int32} (hmin : 1 ≤ r.toInt.natAbs) (hmax : r.toInt.natAbs ≤ 3000)
    (encoder : EncoderState) :
    (setEncoderRpm r encoder).direction.toInt = r.toInt.sign := by
  rw [(setEncoderRpm_of_bounded hmax encoder).2.2]
  split
  · next hneg =>
    rw [Int.sign_eq_neg_one_of_neg (Int32.lt_iff_toInt_lt.mp hneg)]
    rfl
  · next hpos =>
    rw [Int32.lt_iff_toInt_lt] at hpos
    rw [Int.sign_eq_one_of_pos (by simp at hpos; omega)]
    rfl

theorem Wheel.alarms_succ (n : ℕ) (wheel : Wheel) :
    wheel.alarms (n + 1) = (wheel.alarms n).after .alarm := by
  induction n generalizing wheel with
  | zero => rfl
  | succ n ih => exact ih (wheel.after .alarm)

/-- The next interval is its 64-bit base, which is positive and fits 32 bits, and the accumulator
keeps less than its denominator. -/
def Carrying (encoder : EncoderState) : Prop :=
  encoder.fractionalAccumulator < encoder.intervalDenominator ∧
    0 < (carriedBase encoder).1.toNat ∧ (carriedBase encoder).1.toNat < 2 ^ 32 ∧
    (nextIntervalLocked encoder).1.toNat = (carriedBase encoder).1.toNat

theorem Timed.carrying (h : Timed d encoder) (hd : d ≤ 384000) (hlow : 128 ≤ d) :
    Carrying encoder := by
  obtain ⟨hpos, hfits⟩ := carriedBase_bounds h hd hlow
  refine ⟨?_, hpos, hfits, (nextIntervalLocked_toNat h hd hlow).1⟩
  rw [UInt64.lt_iff_toNat_lt, h.denominator]
  exact h.kept

/-- After any history, a speed that is set gives a train of edges without cumulative error: `n`
intervals last the floor of `n` counts, and every alarm moves one output by one step. -/
theorem edge_train_exact (past : List Event) (r : Int32) (hmin : 1 ≤ r.toInt.natAbs)
    (hmax : r.toInt.natAbs ≤ 3000) (n : ℕ) :
    let wheel := (Wheel.history past).after (.setRpm r)
    let calls := nextIntervals n wheel.encoder
    (calls.1.map UInt32.toNat).sum = n * 60000000 / (128 * r.toInt.natAbs) ∧
      wheel.intervals n = calls.1 ∧
      Carrying calls.2 ∧ Carrying (wheel.alarms n).encoder ∧
      ((wheel.alarms n).encoder.stateIndex.toNat : ℤ) ≡
        wheel.encoder.stateIndex.toNat + n * r.toInt.sign [ZMOD 4] ∧
      OneChanges (wheel.alarms n).levels (wheel.alarms (n + 1)).levels := by
  intro wheel calls
  have hturning := turning_setRpm (Wheel.sound_history past) hmin hmax
  have hd : 128 * r.toInt.natAbs ≤ 384000 := by omega
  have hlow : 128 ≤ 128 * r.toInt.natAbs := by omega
  have hlater := hturning.alarms hd hlow n
  refine ⟨?_, intervals_eq_nextIntervals wheel n, ?_, hlater.timed.carrying hd hlow, ?_, ?_⟩
  · rw [sum_nextIntervals hturning.timed hd hlow n]
    change (0 + n * 60000000) / _ = _
    rw [Nat.zero_add]
  · exact (nextIntervals_parts hturning.timed hd hlow n).2.carrying hd hlow
  · rw [← direction_toInt hmin hmax (Wheel.history past).encoder]
    exact hturning.index_alarms hd hlow n
  · rw [Wheel.alarms_succ]
    exact hlater.oneChanges hd hlow

/-- Seven revolutions a minute backwards, after one alarm at the initial speed. -/
theorem edge_train_exact_backwards :
    ((nextIntervals 10 (((Wheel.history [.alarm]).after (.setRpm (-7))).encoder)).1.map
      UInt32.toNat).sum = 669642 ∧
    OneChanges (((Wheel.history [.alarm]).after (.setRpm (-7))).alarms 10).levels
      (((Wheel.history [.alarm]).after (.setRpm (-7))).alarms 11).levels :=
  have h := edge_train_exact [.alarm] (-7) (by decide) (by decide) 10
  ⟨h.1.trans (by decide), h.2.2.2.2.2⟩

end BajaDaq.WheelEncoder
