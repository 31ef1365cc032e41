import Mathlib.Algebra.BigOperators.Group.List.Basic
import Mathlib.Algebra.Order.Group.Unbundled.Int
import Mathlib.Algebra.Ring.Int.Defs
import BajaDaq.TransitionRuns

/-!
# The bearing encoder

`bearing_encoder.c`: an interrupt counts the transitions of the two quadrature inputs, and
`read_rpm` averages the counts of the last reads. The count between two reads is an `int32_t`;
runs are about counts that fit, and all else is `int64_t`.
-/

namespace BajaDaq.BearingEncoder

def encoderPulsesPerRevolution : ℤ := 32
def encoderQuadratureEdgesPerPulse : ℤ := 4
def encoderSamplePeriodUs : ℕ := 20000
def encoderRpmWindowUs : ℕ := 100000
def encoderStopTimeoutUs : ℤ := 100000
def encoderDirectionSign : ℤ := 1
def encoderCountsPerRevolution : ℤ := encoderPulsesPerRevolution * encoderQuadratureEdgesPerPulse
def encoderWindowSamples : ℕ := encoderRpmWindowUs / encoderSamplePeriodUs

def int32Max : ℤ := 2 ^ 31 - 1
def int32Min : ℤ := -2 ^ 31

/-- `read_state`: the level of A in the high bit, that of B in the low bit. -/
abbrev AbState := Fin 4

def transitions : List ℤ :=
  [ 0, -1,  1,  0,
    1,  0,  0, -1,
   -1,  0,  0,  1,
    0,  1, -1,  0]

def encoderTransition (previous current : AbState) : ℤ :=
  encoderDirectionSign * transitions.getD (4 * previous.val + current.val) 0

def calculateRpm (counts elapsedUs : ℤ) : ℤ :=
  if elapsedUs ≤ 0 ∨ counts = 0 then 0
  else
    let numerator := counts * 60000000
    let denominator := encoderCountsPerRevolution * elapsedUs
    let rounded := if 0 < numerator then (numerator + denominator.tdiv 2).tdiv denominator
      else (numerator - denominator.tdiv 2).tdiv denominator
    if int32Max < rounded then int32Max
    else if rounded < int32Min then int32Min
    else rounded

def encoderIsStopped (lastEdgeUs nowUs : ℤ) : Bool :=
  decide (lastEdgeUs ≤ 0) || decide (encoderStopTimeoutUs ≤ nowUs - lastEdgeUs)

/-- `encoder_context_t`. -/
structure EncoderContext where
  pendingCount : ℤ
  lastValidEdgeUs : ℤ
  lastState : AbState
  countWindow : List ℤ
  timeWindowUs : List ℤ
  windowIndex : ℕ
  windowSize : ℕ
  lastReadUs : ℤ
  deriving DecidableEq, Repr

def encoderIsr (context : EncoderContext) (nowUs : ℤ) (state : AbState) : EncoderContext :=
  let transition := encoderTransition context.lastState state
  let context := if transition ≠ 0 then
      { context with
        pendingCount := context.pendingCount + transition
        lastValidEdgeUs := nowUs }
    else context
  { context with lastState := state }

def startEncoder (context : EncoderContext) (nowUs : ℤ) : EncoderContext :=
  { context with
    pendingCount := 0
    lastValidEdgeUs := 0
    countWindow := List.replicate encoderWindowSamples 0
    timeWindowUs := List.replicate encoderWindowSamples 0
    windowIndex := 0
    windowSize := 0
    lastReadUs := nowUs }

/-- `read_rpm` up to the windows. -/
def advanceWindows (context : EncoderContext) (nowUs : ℤ) : EncoderContext :=
  { context with
    lastReadUs := nowUs
    pendingCount := 0
    countWindow := context.countWindow.set context.windowIndex context.pendingCount
    timeWindowUs := context.timeWindowUs.set context.windowIndex (nowUs - context.lastReadUs)
    windowIndex := (context.windowIndex + 1) % encoderWindowSamples
    windowSize := if context.windowSize < encoderWindowSamples then context.windowSize + 1
      else context.windowSize }

/-- The rest of it: the value from the windows. -/
def windowRpm (context : EncoderContext) (nowUs : ℤ) : ℤ :=
  if encoderIsStopped context.lastValidEdgeUs nowUs then 0
  else calculateRpm (context.countWindow.take context.windowSize).sum
    (context.timeWindowUs.take context.windowSize).sum

/-- `read_rpm`: the new context, the count it takes over and the value. -/
def readRpm (context : EncoderContext) (nowUs : ℤ) : EncoderContext × ℤ × ℤ :=
  if nowUs - context.lastReadUs ≤ 0 then (context, 0, 0)
  else
    let after := advanceWindows context nowUs
    (after, context.pendingCount, windowRpm after nowUs)

/-- Every `int64_t` that `read_rpm` computes, with the partial sums of its loop. -/
def readValues (context : EncoderContext) (nowUs : ℤ) : List ℤ :=
  let after := advanceWindows context nowUs
  let counts := (after.countWindow.take after.windowSize).sum
  let elapsedUs := (after.timeWindowUs.take after.windowSize).sum
  let numerator := counts * 60000000
  let denominator := encoderCountsPerRevolution * elapsedUs
  [nowUs - context.lastReadUs, nowUs - context.lastValidEdgeUs, numerator, denominator,
    denominator.tdiv 2, numerator + denominator.tdiv 2, numerator - denominator.tdiv 2] ++
  (List.range (after.windowSize + 1)).map (fun i => (after.countWindow.take i).sum) ++
  (List.range (after.windowSize + 1)).map (fun i => (after.timeWindowUs.take i).sum)

/-- The encoder and the time of its last step. -/
structure Encoder where
  context : EncoderContext
  timeUs : ℤ
  deriving DecidableEq, Repr

/-- An interrupt with the levels it finds, and a read with the count it takes over and its value. -/
inductive Action where
  | interrupt (nowUs : ℤ) (state : AbState)
  | read (nowUs count value : ℤ)
  deriving DecidableEq, Repr

def uptimeLimitUs : ℤ := 2 ^ 55

/-- Interrupts and reads come at strictly increasing times. -/
def step (s : Encoder) : Action → Option Encoder
  | .interrupt nowUs state =>
    if s.timeUs < nowUs ∧ nowUs < uptimeLimitUs then some ⟨encoderIsr s.context nowUs state, nowUs⟩
    else none
  | .read nowUs count value =>
    if (s.timeUs < nowUs ∧ nowUs < uptimeLimitUs) ∧
        count = (readRpm s.context nowUs).2.1 ∧ value = (readRpm s.context nowUs).2.2 then
      some ⟨(readRpm s.context nowUs).1, nowUs⟩
    else none

/-- Right after `start_encoder`; the uptime counts from the boot. -/
def Encoder.start (context : EncoderContext) (startUs : ℕ) : Encoder :=
  ⟨startEncoder context startUs, startUs⟩

/-- The pending count stays in an `int32_t`. -/
def PendingFits (s : Encoder) : Action → Prop
  | .interrupt _ state =>
    int32Min ≤ s.context.pendingCount + encoderTransition s.context.lastState state ∧
      s.context.pendingCount + encoderTransition s.context.lastState state ≤ int32Max
  | .read .. => True

instance (s : Encoder) : (a : Action) → Decidable (PendingFits s a)
  | .interrupt .. => inferInstanceAs (Decidable (_ ∧ _))
  | .read .. => .isTrue trivial

/-- The place of a state on the cycle 0, 2, 3, 1. -/
def cyclePosition : AbState → ℤ
  | 0 => 0
  | 2 => 1
  | 3 => 2
  | 1 => 3

/-- The state at a place. -/
def grayState (p : ℤ) : AbState :=
  if p % 4 = 0 then 0 else if p % 4 = 1 then 2 else if p % 4 = 2 then 3 else 1

/-- The signed step along the cycle; 0 where the state does not change or both inputs do. -/
def turn (a b : AbState) : ℤ :=
  if (cyclePosition b - cyclePosition a) % 4 = 1 then 1
  else if (cyclePosition b - cyclePosition a) % 4 = 3 then -1
  else 0

/-- Exactly one of the inputs changes. -/
def SingleBit (a b : AbState) : Prop := a.val ^^^ b.val = 1 ∨ a.val ^^^ b.val = 2

instance (a b : AbState) : Decidable (SingleBit a b) := inferInstanceAs (Decidable (_ ∨ _))

/-- The table is the signed step along the cycle. -/
theorem encoderTransition_eq_turn : ∀ a b, encoderTransition a b = turn a b := by
  decide

theorem turn_ne_zero_iff : ∀ a b, turn a b ≠ 0 ↔ SingleBit a b := by
  decide

theorem abs_turn_le : ∀ a b, |turn a b| ≤ 1 := by
  decide

end BajaDaq.BearingEncoder
