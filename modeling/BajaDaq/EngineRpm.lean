import BajaDaq.TransitionRuns
import Mathlib.Data.Int.Order.Basic
import Mathlib.Data.Nat.ModEq

/-!
# Sparks captured by the engine node

`engine_rpm.c`: an interrupt puts the detected edges into a bounded queue, a task takes them out
and makes events of them, and a timeout makes zero events while the engine stands still. Each
critical section is one step. The number of 32 bits that counts the captures lost wraps around.
-/

namespace BajaDaq.EngineRpm
open TransitionRuns

def revolutionsPerSpark : ℤ := 1
def minEngineRpm : ℤ := 1000
def maxEngineRpm : ℤ := 6000
def engineStopTimeoutUs : ℤ := 100000
def minSparkIntervalUs : ℤ := 60000000 * revolutionsPerSpark / maxEngineRpm
def maxSparkIntervalUs : ℤ := 60000000 * revolutionsPerSpark / minEngineRpm
def captureQueueLength : ℕ := 256

/-- `spark_capture_t`. -/
structure SparkCapture where
  timestampUs : ℤ
  elapsedUs : ℤ
  valid : Bool
  deriving DecidableEq, Repr

/-- `engine_event_t`. -/
structure EngineEvent where
  timestampUs : ℤ
  engineRpm : ℤ
  spark : Bool
  deriving DecidableEq, Repr

/-- `engine_rpm_context_t` with the contents of its queue, the oldest capture first. -/
structure EngineRpmContext where
  lastSparkUs : ℤ
  lastZeroUs : ℤ
  dropped : UInt32
  events : List SparkCapture
  deriving DecidableEq, Repr

def engineRpmIsr (context : EngineRpmContext) (nowUs : ℤ) : EngineRpmContext :=
  let elapsedUs := nowUs - context.lastSparkUs
  let capture : SparkCapture := ⟨nowUs, elapsedUs, context.lastSparkUs != 0 &&
    decide (minSparkIntervalUs ≤ elapsedUs) && decide (elapsedUs ≤ maxSparkIntervalUs)⟩
  let context := { context with lastSparkUs := nowUs }
  -- xQueueSendFromISR
  if context.events.length < captureQueueLength then
    { context with events := context.events ++ [capture] }
  else { context with dropped := context.dropped + 1 }

def engineRpmDiscardPending (context : EngineRpmContext) (nowUs : ℤ) : EngineRpmContext :=
  { context with events := [], lastSparkUs := 0, lastZeroUs := nowUs, dropped := 0 }

/-- The event of a capture taken from the queue. -/
def sparkEvent (capture : SparkCapture) : EngineEvent :=
  ⟨capture.timestampUs,
    if capture.valid then (60000000 * revolutionsPerSpark).tdiv capture.elapsedUs else 0, true⟩

/-- The critical section of `engine_rpm_next_event` after the queue was found empty. -/
def stopCheck (context : EngineRpmContext) (nowUs : ℤ) : EngineRpmContext × Option EngineEvent :=
  let stopped := decide (engineStopTimeoutUs ≤ nowUs - context.lastSparkUs) &&
    decide (engineStopTimeoutUs ≤ nowUs - context.lastZeroUs)
  if stopped then ({ context with lastZeroUs := nowUs }, some ⟨nowUs, 0, false⟩)
  else (context, none)

def engineRpmDroppedEvents (context : EngineRpmContext) : EngineRpmContext × UInt32 :=
  ({ context with dropped := 0 }, context.dropped)

/-- The driver with its callers: how many calls of `engine_rpm_next_event` have found the queue
empty and not yet made the stop check, the time of the last timed step and the time of the last
edge since the last discard, 0 before it. -/
structure Engine where
  context : EngineRpmContext
  checking : ℕ
  timeUs : ℤ
  edgeUs : ℤ
  deriving DecidableEq, Repr

/-- A step with its time and what it returns. -/
inductive Action where
  | edge (nowUs : ℤ)
  | receive (event : EngineEvent)
  | receiveTimeout
  | stopCheck (nowUs : ℤ) (event : Option EngineEvent)
  | droppedEvents (count : UInt32)
  deriving DecidableEq, Repr

def step (s : Engine) : Action → Option Engine
  | .edge nowUs =>
    if s.timeUs ≤ nowUs ∧ s.edgeUs < nowUs then
      some { s with context := engineRpmIsr s.context nowUs, timeUs := nowUs, edgeUs := nowUs }
    else none
  | .receive event =>
    match s.context.events with
    | [] => none
    | capture :: rest =>
      if event = sparkEvent capture then
        some { s with context := { s.context with events := rest } }
      else none
  | .receiveTimeout =>
    if s.context.events = [] then some { s with checking := s.checking + 1 } else none
  | .stopCheck nowUs event =>
    if 0 < s.checking ∧ s.timeUs ≤ nowUs ∧ event = (EngineRpm.stopCheck s.context nowUs).2 then
      some { s with
        context := (EngineRpm.stopCheck s.context nowUs).1
        checking := s.checking - 1
        timeUs := nowUs }
    else none
  | .droppedEvents count =>
    if count = (engineRpmDroppedEvents s.context).2 then
      some { s with context := (engineRpmDroppedEvents s.context).1 }
    else none

/-- Right after `engine_rpm_discard_pending` at `startUs`, whatever was before it. -/
def Engine.start (context : EngineRpmContext) (checking : ℕ) (startUs : ℤ) : Engine :=
  ⟨engineRpmDiscardPending context startUs, checking, startUs, 0⟩

/-- What one step can do. -/
inductive Stepped (s : Engine) : Action → Engine → Prop
  | queued {nowUs : ℤ} {capture : SparkCapture} (htime : s.timeUs ≤ nowUs)
    (hedge : s.edgeUs < nowUs) (hroom : s.context.events.length < captureQueueLength)
    (hcapture : capture = ⟨nowUs, nowUs - s.context.lastSparkUs, s.context.lastSparkUs != 0 &&
      decide (minSparkIntervalUs ≤ nowUs - s.context.lastSparkUs) &&
      decide (nowUs - s.context.lastSparkUs ≤ maxSparkIntervalUs)⟩) :
    Stepped s (.edge nowUs) { s with
      context := { s.context with
        lastSparkUs := nowUs
        events := s.context.events ++ [capture] }
      timeUs := nowUs
      edgeUs := nowUs }
  | lost {nowUs : ℤ} (htime : s.timeUs ≤ nowUs) (hedge : s.edgeUs < nowUs)
    (hfull : ¬ s.context.events.length < captureQueueLength) :
    Stepped s (.edge nowUs) { s with
      context := { s.context with
        lastSparkUs := nowUs
        dropped := s.context.dropped + 1 }
      timeUs := nowUs
      edgeUs := nowUs }
  | receive {capture : SparkCapture} {rest : List SparkCapture}
    (hevents : s.context.events = capture :: rest) :
    Stepped s (.receive (sparkEvent capture))
      { s with context := { s.context with events := rest } }
  | receiveTimeout : Stepped s .receiveTimeout { s with checking := s.checking + 1 }
  | stopped {nowUs : ℤ} (htime : s.timeUs ≤ nowUs)
    (hspark : engineStopTimeoutUs ≤ nowUs - s.context.lastSparkUs)
    (hzero : engineStopTimeoutUs ≤ nowUs - s.context.lastZeroUs) :
    Stepped s (.stopCheck nowUs (some ⟨nowUs, 0, false⟩)) { s with
      context := { s.context with lastZeroUs := nowUs }
      checking := s.checking - 1
      timeUs := nowUs }
  | running {nowUs : ℤ} (htime : s.timeUs ≤ nowUs) :
    Stepped s (.stopCheck nowUs none) { s with checking := s.checking - 1, timeUs := nowUs }
  | droppedEvents : Stepped s (.droppedEvents s.context.dropped) { s with
      context := { s.context with dropped := 0 } }

theorem stepped {s t : Engine} {a : Action} (h : step s a = some t) : Stepped s a t := by
  cases a with
  | edge nowUs =>
    simp only [step, Option.ite_none_right_eq_some, Option.some_inj] at h
    obtain ⟨⟨htime, hedge⟩, rfl⟩ := h
    by_cases hroom : s.context.events.length < captureQueueLength
    · rw [engineRpmIsr, if_pos hroom]
      exact .queued htime hedge hroom rfl
    · rw [engineRpmIsr, if_neg hroom]
      exact .lost htime hedge hroom
  | receive event =>
    simp only [step] at h
    cases hevents : s.context.events with
    | nil => simp [hevents] at h
    | cons capture rest =>
      simp only [hevents, Option.ite_none_right_eq_some, Option.some_inj] at h
      obtain ⟨rfl, rfl⟩ := h
      exact .receive hevents
  | receiveTimeout =>
    simp only [step, Option.ite_none_right_eq_some, Option.some_inj] at h
    obtain ⟨-, rfl⟩ := h
    exact .receiveTimeout
  | stopCheck nowUs event =>
    simp only [step, Option.ite_none_right_eq_some, Option.some_inj] at h
    obtain ⟨⟨-, htime, rfl⟩, rfl⟩ := h
    by_cases hstopped : engineStopTimeoutUs ≤ nowUs - s.context.lastSparkUs ∧
        engineStopTimeoutUs ≤ nowUs - s.context.lastZeroUs
    · simp only [EngineRpm.stopCheck, hstopped, decide_true, Bool.and_true, if_true]
      exact .stopped htime hstopped.1 hstopped.2
    · rw [EngineRpm.stopCheck, if_neg (by simpa using hstopped)]
      exact .running htime
  | droppedEvents count =>
    simp only [step, Option.ite_none_right_eq_some, Option.some_inj] at h
    obtain ⟨rfl, rfl⟩ := h
    exact .droppedEvents

end BajaDaq.EngineRpm
