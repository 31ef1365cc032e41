import BajaDaq.EngineRpm
import BajaDaq.SamplePipeline

/-!
# The tasks of a sensor node

`sampler.c`: `sample_task` fills the sample queue, `send_task` empties it, and the callbacks of
the CAN tasks start and stop sampling and reset the queue. A step is one access to shared state;
between two steps of a task any other task may run. The engine build takes its samples from the
capture queue, all other builds read their sensors periodically.
-/

namespace BajaDaq.SamplerTasks
open AppProtocol
open EngineRpm (EngineRpmContext EngineEvent captureQueueLength engineRpmIsr
  engineRpmDiscardPending engineRpmDroppedEvents sparkEvent)
open SamplePipeline (Sample TwaiFrame sendTask)

def sampleQueueLength : ℕ := 64

/-- `NODE_FIXED_ENGINE_CONFIG` or not. -/
inductive Build where
  | periodic
  | engine
  deriving DecidableEq, Repr

/-- The part of `sensor_t` that the sampler uses. -/
structure Sensor where
  canId : UInt32
  periodUs : ℤ
  nextSampleUs : ℤ
  deriving DecidableEq, Repr

/-- A sample, with the number of calls of `sampler_start` that had begun to start a session when
it was timestamped (of an engine sample: when its edge was captured or its timeout detected) and
the number of its engine event. -/
structure Queued where
  sample : Sample
  begun : ℕ
  event : ℕ
  deriving DecidableEq, Repr

/-- An engine event in `enqueue_engine_event`. -/
structure Pending where
  event : EngineEvent
  timestampMs : Int32
  begun : ℕ
  number : ℕ
  deriving DecidableEq, Repr

def Pending.hasRpm (p : Pending) : Bool := !p.event.spark || decide (0 < p.event.engineRpm)

def Pending.count (p : Pending) : ℕ :=
  (if p.event.spark then 1 else 0) + (if p.hasRpm then 1 else 0)

def Pending.sparkSample (p : Pending) : Queued :=
  ⟨⟨canIdEngineSpark, p.timestampMs, 1⟩, p.begun, p.number⟩

def Pending.rpmSample (p : Pending) : Queued :=
  ⟨⟨canIdEngineRpm, p.timestampMs, Int32.ofInt p.event.engineRpm⟩, p.begun, p.number⟩

/-- Where `sample_task` is. In the periodic part `i` is the sensor visited, `nowUs` the time of
the pass and `nextDueUs` the earliest time due so far. -/
inductive SamplePc where
  | top
  | pass
  | visit (i : ℕ) (nowUs nextDueUs : ℤ)
  | stamp (i : ℕ) (nowUs nextDueUs : ℤ)
  | read (i : ℕ) (nowUs nextDueUs : ℤ) (q : Queued)
  | send (i : ℕ) (nowUs nextDueUs : ℤ) (q : Queued)
  | evict (i : ℕ) (nowUs nextDueUs : ℤ) (q : Queued)
  | resend (i : ℕ) (nowUs nextDueUs : ℤ) (q : Queued)
  | settle (i : ℕ) (nowUs nextDueUs : ℤ)
  | nextEvent
  | stopCheck
  | testActive (event : EngineEvent) (begun : ℕ)
  | stampEvent (event : EngineEvent) (begun : ℕ)
  | reserve (p : Pending)
  | sendSpark (p : Pending)
  | sendRpm (p : Pending)
  | report
  deriving DecidableEq, Repr

/-- Where the task that runs `sampler_start` and `sampler_stop` is. -/
inductive ControlPc where
  | idle
  | startReset
  | startDrivers
  | arm
  | activate
  | stopReset
  deriving DecidableEq, Repr

structure Sampler where
  active : Bool
  queue : List Queued
  sensors : List Sensor
  engine : EngineRpmContext
  /-- for each capture in the queue of the driver, the starts begun when it was captured -/
  captured : List ℕ
  sampleTask : SamplePc
  /-- the sample that `send_task` has taken and not yet dealt with -/
  sending : Option Queued
  control : ControlPc
  /-- `sampler_discard_pending` is before its reset of the sample queue -/
  discarding : Bool
  /-- calls of `sampler_start` that have begun to start a session -/
  begun : ℕ
  /-- the last of them that has completed -/
  completed : ℕ
  events : ℕ
  deriving DecidableEq, Repr

/-- After `sampler_init`. -/
def Sampler.boot (sensors : List Sensor) (engine : EngineRpmContext) : Sampler :=
  ⟨false, [], sensors, { engine with events := [] }, [], .top, none, .idle, false, 0, 0, 0⟩

/-- What a step of `sample_task` reads from the clock, from `time_sync` and from a sensor, whose
read may fail. -/
structure Input where
  nowUs : ℤ
  timestampMs : Int32
  reading : Option Int32
  deriving DecidableEq, Repr

inductive Action where
  | sample (input : Input)
  | edge (nowUs : ℤ)
  | take (q : Queued)
  | transmit (frame : Option TwaiFrame)
  | start
  | stop
  | control (nowUs : ℤ)
  | busOff (nowUs : ℤ)
  | busOffReset
  deriving DecidableEq, Repr

/-- `xQueueSend` that does not wait. -/
def xQueueSend (queue : List Queued) (q : Queued) : List Queued :=
  if queue.length < sampleQueueLength then queue ++ [q] else queue

/-- The loop `while (next_sample_us <= now) next_sample_us += period_us`. -/
def catchUp (sensor : Sensor) (nowUs : ℤ) : Sensor :=
  if sensor.nextSampleUs ≤ nowUs then
    { sensor with nextSampleUs := sensor.nextSampleUs +
        ((nowUs - sensor.nextSampleUs) / sensor.periodUs + 1) * sensor.periodUs }
  else sensor

/-- One step of `sample_task`. -/
def sampleStep (build : Build) (s : Sampler) (input : Input) : Sampler :=
  match s.sampleTask with
  | .top =>
    if !s.active then s
    else match build with
      | .periodic => { s with sampleTask := .pass }
      | .engine => { s with sampleTask := .nextEvent }
  | .pass => { s with sampleTask := .visit 0 input.nowUs (input.nowUs + 1000000) }
  | .visit i nowUs nextDueUs =>
    match s.sensors[i]? with
    | none => { s with sampleTask := .top }
    | some sensor =>
      if sensor.nextSampleUs ≤ nowUs then { s with sampleTask := .stamp i nowUs nextDueUs }
      else { s with sampleTask := .settle i nowUs nextDueUs }
  | .stamp i nowUs nextDueUs =>
    match s.sensors[i]? with
    | none => s
    | some sensor =>
      let q : Queued := ⟨⟨sensor.canId, input.timestampMs, 0⟩, s.begun, 0⟩
      { s with sampleTask := .read i nowUs nextDueUs q }
  | .read i nowUs nextDueUs q =>
    let s := { s with sensors := s.sensors.modify i (catchUp · nowUs) }
    match input.reading with
    | none => { s with sampleTask := .settle i nowUs nextDueUs }
    | some value =>
      let q := { q with sample := { q.sample with value := value } }
      { s with sampleTask := .send i nowUs nextDueUs q }
  | .send i nowUs nextDueUs q =>
    if s.queue.length < sampleQueueLength then
      { s with queue := s.queue ++ [q], sampleTask := .settle i nowUs nextDueUs }
    else { s with sampleTask := .evict i nowUs nextDueUs q }
  | .evict i nowUs nextDueUs q =>
    { s with queue := s.queue.tail, sampleTask := .resend i nowUs nextDueUs q }
  | .resend i nowUs nextDueUs q =>
    { s with queue := xQueueSend s.queue q, sampleTask := .settle i nowUs nextDueUs }
  | .settle i nowUs nextDueUs =>
    let nextDueUs := match s.sensors[i]? with
      | some sensor => if sensor.nextSampleUs < nextDueUs then sensor.nextSampleUs else nextDueUs
      | none => nextDueUs
    { s with sampleTask := .visit (i + 1) nowUs nextDueUs }
  | .nextEvent =>
    match s.engine.events with
    | [] => { s with sampleTask := .stopCheck }
    | capture :: rest => { s with
        engine := { s.engine with events := rest }
        captured := s.captured.tail
        sampleTask := .testActive (sparkEvent capture) (s.captured.headD 0) }
  | .stopCheck =>
    let (engine, event) := EngineRpm.stopCheck s.engine input.nowUs
    { s with
      engine := engine
      sampleTask := match event with
        | some event => .testActive event s.begun
        | none => .report }
  | .testActive event begun =>
    if s.active then { s with sampleTask := .stampEvent event begun }
    else { s with sampleTask := .report }
  | .stampEvent event begun => { s with
      events := s.events + 1
      sampleTask := .reserve ⟨event, input.timestampMs, begun, s.events⟩ }
  | .reserve p =>
    if sampleQueueLength - s.queue.length < p.count then { s with sampleTask := .report }
    else if p.event.spark then { s with sampleTask := .sendSpark p }
    else if p.hasRpm then { s with sampleTask := .sendRpm p }
    else { s with sampleTask := .report }
  | .sendSpark p => { s with
      queue := xQueueSend s.queue p.sparkSample
      sampleTask := if p.hasRpm then .sendRpm p else .report }
  | .sendRpm p => { s with queue := xQueueSend s.queue p.rpmSample, sampleTask := .report }
  | .report => { s with engine := (engineRpmDroppedEvents s.engine).1, sampleTask := .top }

/-- The next step of a call of `sampler_start` or `sampler_stop`. -/
def controlStep (build : Build) (s : Sampler) (nowUs : ℤ) : Option Sampler :=
  match s.control with
  | .idle => none
  | .startReset => some { s with queue := [], control := .startDrivers }
  | .startDrivers =>
    match build with
    | .periodic => some { s with control := .arm }
    | .engine => some { s with
        engine := engineRpmDiscardPending s.engine nowUs
        captured := []
        control := .arm }
  | .arm => some { s with
      sensors := s.sensors.map fun sensor => { sensor with nextSampleUs := nowUs }
      control := .activate }
  | .activate => some { s with active := true, completed := s.begun, control := .idle }
  | .stopReset => some { s with queue := [], control := .idle }

def step (build : Build) (s : Sampler) : Action → Option Sampler
  | .sample input => some (sampleStep build s input)
  | .edge nowUs => some { s with
      engine := engineRpmIsr s.engine nowUs
      captured := if s.engine.events.length < captureQueueLength then s.captured ++ [s.begun]
        else s.captured }
  | .take q =>
    match s.sending, s.queue with
    | none, p :: rest => if q = p then some { s with queue := rest, sending := some p } else none
    | _, _ => none
  | .transmit frame =>
    match s.sending with
    | none => none
    | some p =>
      if frame = (if s.active then some (sendTask p.sample) else none) then
        some { s with sending := none }
      else none
  | .start =>
    if s.control = .idle then
      if s.active then some s else some { s with begun := s.begun + 1, control := .startReset }
    else none
  | .stop =>
    if s.control = .idle then
      if !s.active then some s else some { s with active := false, control := .stopReset }
    else none
  | .control nowUs => controlStep build s nowUs
  | .busOff nowUs =>
    if s.discarding then none
    else match build with
      | .periodic => some { s with discarding := true }
      | .engine => some { s with
          engine := engineRpmDiscardPending s.engine nowUs
          captured := []
          discarding := true }
  | .busOffReset => if s.discarding then some { s with queue := [], discarding := false } else none

/-- `sampler_start` from its call to its return. -/
def startCall (nowUs : ℤ) : List Action :=
  [.start, .control nowUs, .control nowUs, .control nowUs, .control nowUs]

def stopCall (nowUs : ℤ) : List Action := [.stop, .control nowUs]

/-- The sample that the next step of `sample_task` puts into the queue. -/
def aboutToSend (s : Sampler) : Option Queued :=
  match s.sampleTask with
  | .send _ _ _ q => some q
  | .resend _ _ _ q => some q
  | .sendSpark p => some p.sparkSample
  | .sendRpm p => some p.rpmSample
  | _ => none

theorem mem_xQueueSend {queue : List Queued} {p q : Queued} (h : p ∈ xQueueSend queue q) :
    p ∈ queue ∨ p = q := by
  unfold xQueueSend at h
  split_ifs at h
  · simpa using h
  · exact Or.inl h

/-- What a step of `sample_task` can do to the queue, and what it leaves alone. -/
theorem sampleStep_queue (build : Build) (s : Sampler) (input : Input) :
    ∀ p ∈ (sampleStep build s input).queue, p ∈ s.queue ∨ aboutToSend s = some p := by
  intro p hp
  unfold sampleStep at hp
  unfold aboutToSend
  cases hpc : s.sampleTask with
  | send i nowUs nextDueUs q =>
    simp only [hpc] at hp ⊢
    split_ifs at hp
    · rcases List.mem_append.mp hp with hp | hp
      · exact Or.inl hp
      · exact Or.inr (congrArg some (List.mem_singleton.mp hp).symm)
    · exact Or.inl hp
  | evict i nowUs nextDueUs q =>
    simp only [hpc] at hp
    exact Or.inl (List.mem_of_mem_tail hp)
  | resend i nowUs nextDueUs q =>
    simp only [hpc] at hp ⊢
    exact (mem_xQueueSend hp).imp_right (fun h => congrArg some h.symm)
  | sendSpark q =>
    simp only [hpc] at hp ⊢
    exact (mem_xQueueSend hp).imp_right (fun h => congrArg some h.symm)
  | sendRpm q =>
    simp only [hpc] at hp ⊢
    exact (mem_xQueueSend hp).imp_right (fun h => congrArg some h.symm)
  | top | pass | visit | stamp | read | settle | nextEvent | stopCheck | testActive | stampEvent
  | reserve | report =>
    simp only [hpc] at hp
    left
    repeat' split at hp
    all_goals exact hp

theorem sampleStep_control (build : Build) (s : Sampler) (input : Input) :
    (sampleStep build s input).control = s.control ∧
      (sampleStep build s input).begun = s.begun ∧
      (sampleStep build s input).completed = s.completed := by
  unfold sampleStep
  repeat' split
  all_goals exact ⟨rfl, rfl, rfl⟩

end BajaDaq.SamplerTasks
