import BajaDaq.PendingWrites
import BajaDaq.WheelEncoder

/-!
# The wheel simulator

The console task, the sweep task and the timer of `simulators/wheel-rpm/src/main.c` as steps on
their shared state. Each section under `control_mutex` or the encoder's lock is one step; between
two of them the others may run, and a dwell may last for any number of their steps. A command line
is given as the command it parses to, with its integers.
-/

namespace BajaDaq.WheelSimulator

open TransitionRuns PendingWrites WheelEncoder

/-- `sweep_state_t`. -/
structure SweepState where
  active : Bool
  generation : UInt32
  startRpm : Int32
  endRpm : Int32
  stepRpm : Int32
  dwellMs : UInt32
  deriving DecidableEq, Repr

inductive Command where
  | rpm (value : Int32)
  | sweep (startRpm endRpm stepRpm dwell : Int32)
  | stop
  | cancel
  | status
  | help
  | unknown
  deriving DecidableEq, Repr

/-- The checks of `handle_command` on the integers. -/
def Command.accepted : Command → Bool
  | .rpm value => !(decide (value < -maxAbsoluteRpm) || decide (maxAbsoluteRpm < value))
  | .sweep startRpm endRpm stepRpm dwell =>
    !(decide (startRpm < -maxAbsoluteRpm) || decide (maxAbsoluteRpm < startRpm) ||
      decide (endRpm < -maxAbsoluteRpm) || decide (maxAbsoluteRpm < endRpm) ||
      decide (stepRpm = 0) || decide (dwell ≤ 0) ||
      (decide (startRpm < endRpm) && decide (stepRpm < 0)) ||
      (decide (endRpm < startRpm) && decide (0 < stepRpm)))
  | _ => true

/-- The console waits for a line, or the second step of a command is due. -/
inductive Console where
  | ready
  | executing (command : Command)
  deriving DecidableEq, Repr

/-- Where `sweep_task` stands, with its copy of the sweep and its speed. -/
inductive SweepTask where
  | idle
  | check (current : SweepState) (rpm : Int32)
  | set (current : SweepState) (rpm : Int32)
  | dwell (current : SweepState) (rpm : Int32)
  | finish (current : SweepState)
  | zero
  deriving DecidableEq, Repr

structure Simulator where
  wheel : Wheel
  sweep : SweepState
  console : Console
  sweepTask : SweepTask
  deriving DecidableEq, Repr

def Simulator.rpm (s : Simulator) : Int32 := s.wheel.encoder.rpm

/-- Set a speed of the wheel. -/
def Simulator.setRpm (s : Simulator) (rpm : Int32) : Simulator :=
  { s with wheel := s.wheel.after (.setRpm rpm) }

def cancelSweep (sweep : SweepState) : SweepState :=
  { sweep with
    active := false
    generation := sweep.generation + 1 }

def armSweep (startRpm endRpm stepRpm dwell : Int32) (sweep : SweepState) : SweepState :=
  ⟨true, sweep.generation + 1, startRpm, endRpm, stepRpm, dwell.toUInt32⟩

/-- `handle_command` up to the end of its section under the mutex. -/
def beginCommand (s : Simulator) (command : Command) : Simulator :=
  if command.accepted then
    match command with
    | .rpm _ => { s with sweep := cancelSweep s.sweep, console := .executing command }
    | .sweep startRpm endRpm stepRpm dwell =>
      { s with
        sweep := armSweep startRpm endRpm stepRpm dwell s.sweep
        console := .executing command }
    | .stop => { s with sweep := cancelSweep s.sweep, console := .executing command }
    | .cancel => { s with sweep := cancelSweep s.sweep }
    | .status => s
    | .help => s
    | .unknown => s
  else s

/-- The rest of it. -/
def finishCommand (s : Simulator) (command : Command) : Simulator :=
  match command with
  | .rpm value => { s.setRpm value with console := .ready }
  | .sweep startRpm _ _ _ => { s.setRpm startRpm with console := .ready }
  | .stop => { s.setRpm 0 with console := .ready }
  | _ => { s with console := .ready }

/-- The next speed of the sweep; the sum is an `int64_t` and cannot overflow. -/
def nextRpm (current : SweepState) (rpm : Int32) : Int32 :=
  let next : ℤ := rpm.toInt + current.stepRpm.toInt
  if 0 < current.stepRpm ∧ current.endRpm.toInt < next then current.endRpm
  else if current.stepRpm < 0 ∧ next < current.endRpm.toInt then current.endRpm
  else Int32.ofInt next

/-- `sweep_task` from one point where the others may run to the next. -/
def sweepTaskStep (s : Simulator) : Simulator :=
  match s.sweepTask with
  | .idle =>
    if s.sweep.active then { s with sweepTask := .check s.sweep s.sweep.startRpm }
    else s
  | .check current rpm =>
    if s.sweep.active ∧ s.sweep.generation = current.generation then
      { s with sweepTask := .set current rpm }
    else { s with sweepTask := .idle }
  | .set current rpm => { s.setRpm rpm with sweepTask := .dwell current rpm }
  | .dwell current rpm =>
    if rpm = current.endRpm then { s with sweepTask := .finish current }
    else { s with sweepTask := .check current (nextRpm current rpm) }
  | .finish current =>
    { s with
      sweep := if s.sweep.generation = current.generation then { s.sweep with active := false }
        else s.sweep
      sweepTask := .zero }
  | .zero => { s.setRpm 0 with sweepTask := .idle }

inductive Label where
  | command (command : Command)
  | console
  | sweepTask
  | alarm
  deriving DecidableEq, Repr

def step (s : Simulator) : Label → Option Simulator
  | .command command =>
    match s.console with
    | .ready => some (beginCommand s command)
    | .executing _ => none
  | .console =>
    match s.console with
    | .ready => none
    | .executing command => some (finishCommand s command)
  | .sweepTask => some (sweepTaskStep s)
  | .alarm => some { s with wheel := s.wheel.after .alarm }

/-- After `app_main`; its timer may have fired before the default speed is set. -/
def Simulator.start (early : ℕ) : Simulator :=
  ⟨(Wheel.start.alarms early).after (.setRpm defaultRpm), ⟨false, 0, 0, 0, 0, 0⟩, .ready, .idle⟩

/-- The command is accepted and is a sweep or a manual command. -/
def Command.takesOver (command : Command) : Bool :=
  command.accepted &&
    match command with
    | .rpm _ => true
    | .sweep _ _ _ _ => true
    | .stop => true
    | .cancel => true
    | .status => false
    | .help => false
    | .unknown => false

/-- No new sweep and no manual command. -/
def Quiet (_ : Simulator) : Label → Prop
  | .command command => command.takesOver = false
  | _ => True

instance (s : Simulator) : (a : Label) → Decidable (Quiet s a)
  | .command command => inferInstanceAs (Decidable (command.takesOver = false))
  | .console | .sweepTask | .alarm => .isTrue trivial

/-- The speed commanded by the manual command that this step completes. -/
def commanded (s : Simulator) : Label → Option Int32
  | .command command =>
    match command with
    | .cancel => some s.rpm
    | .rpm _ => none
    | .sweep _ _ _ _ => none
    | .stop => none
    | .status => none
    | .help => none
    | .unknown => none
  | .console =>
    match s.console with
    | .ready => none
    | .executing command =>
      match command with
      | .rpm value => some value
      | .stop => some 0
      | .sweep _ _ _ _ => none
      | .cancel => none
      | .status => none
      | .help => none
      | .unknown => none
  | .sweepTask => none
  | .alarm => none

/-- The speeds that the sweep task sets without asking for its generation again. -/
def SweepTask.pendingWrites : SweepTask → List Int32
  | .idle => []
  | .check _ _ => []
  | .set current rpm => if rpm = current.endRpm then [rpm, 0] else [rpm]
  | .dwell current rpm => if rpm = current.endRpm then [0] else []
  | .finish _ => [0]
  | .zero => [0]

/-- A sweep as `handle_command` accepts it. -/
structure Planned (sweep : SweepState) : Prop where
  startBound : sweep.startRpm.toInt.natAbs ≤ 3000
  endBound : sweep.endRpm.toInt.natAbs ≤ 3000
  upwards : sweep.startRpm.toInt < sweep.endRpm.toInt → 0 < sweep.stepRpm.toInt
  downwards : sweep.endRpm.toInt < sweep.startRpm.toInt → sweep.stepRpm.toInt < 0

/-- A speed from the start of the sweep to its end. -/
def Between (sweep : SweepState) (rpm : Int32) : Prop :=
  sweep.startRpm.toInt ≤ rpm.toInt ∧ rpm.toInt ≤ sweep.endRpm.toInt ∨
    sweep.endRpm.toInt ≤ rpm.toInt ∧ rpm.toInt ≤ sweep.startRpm.toInt

theorem Between.bounded {sweep : SweepState} {rpm : Int32} (h : Between sweep rpm)
    (hplan : Planned sweep) : rpm.toInt.natAbs ≤ 3000 := by
  have hstart := hplan.startBound
  have hend := hplan.endBound
  rcases h with ⟨hlow, hhigh⟩ | ⟨hlow, hhigh⟩ <;> omega

theorem between_start (sweep : SweepState) : Between sweep sweep.startRpm := by
  unfold Between
  omega

theorem toInt_ofInt_of_bounded {next : ℤ} (h : next.natAbs ≤ 3000) :
    (Int32.ofInt next).toInt = next :=
  Int32.toInt_ofInt_of_le (by omega) (by omega)

/-- A sweep does not leave the speeds between its start and its end. -/
theorem between_nextRpm {sweep : SweepState} {rpm : Int32} (hplan : Planned sweep)
    (h : Between sweep rpm) (hne : rpm ≠ sweep.endRpm) : Between sweep (nextRpm sweep rpm) := by
  have hends : Between sweep sweep.endRpm := by
    unfold Between
    omega
  have hne : rpm.toInt ≠ sweep.endRpm.toInt := fun heq => hne (Int32.toInt_inj.mp heq)
  have hstart := hplan.startBound
  have hend := hplan.endBound
  have hup := hplan.upwards
  have hdown := hplan.downwards
  unfold nextRpm
  simp only [Int32.lt_iff_toInt_lt, Int32.toInt_zero]
  split
  · exact hends
  · next hnotUp =>
    split
    · exact hends
    · next hnotDown =>
      unfold Between at h ⊢
      rw [toInt_ofInt_of_bounded (by omega)]
      omega

/-- The sweep that the task works on is planned, and its speed lies on it. -/
def SweepTask.Planned : SweepTask → Prop
  | .check current rpm => WheelSimulator.Planned current ∧ Between current rpm
  | .set current rpm => WheelSimulator.Planned current ∧ Between current rpm
  | .dwell current rpm => WheelSimulator.Planned current ∧ Between current rpm
  | _ => True

/-- A manual command is completed with the sweep cancelled. -/
def Console.Cancelled (sweep : SweepState) : Console → Prop
  | .executing (.rpm value) => sweep.active = false ∧ value.toInt.natAbs ≤ 3000
  | .executing .stop => sweep.active = false
  | _ => True

structure Sound (s : Simulator) : Prop where
  sweep : s.sweep.active = true → Planned s.sweep
  task : s.sweepTask.Planned
  console : s.console.Cancelled s.sweep

theorem planned_of_accepted {startRpm endRpm stepRpm dwell : Int32}
    (h : (Command.sweep startRpm endRpm stepRpm dwell).accepted = true) (sweep : SweepState) :
    Planned (armSweep startRpm endRpm stepRpm dwell sweep) := by
  simp [Command.accepted, maxAbsoluteRpm, Int32.lt_iff_toInt_lt, Int32.le_iff_toInt_le,
    ← Int32.toInt_inj] at h
  constructor <;> simp [armSweep] <;> omega

theorem bounded_of_accepted {value : Int32} (h : (Command.rpm value).accepted = true) :
    value.toInt.natAbs ≤ 3000 := by
  simp [Command.accepted, maxAbsoluteRpm, Int32.lt_iff_toInt_lt] at h
  omega

theorem Sound.beginCommand {s : Simulator} (h : Sound s) (hready : s.console = .ready)
    (command : Command) : Sound (beginCommand s command) := by
  unfold WheelSimulator.beginCommand
  split
  · next haccepted =>
    cases command with
    | rpm value => exact ⟨nofun, h.task, rfl, bounded_of_accepted haccepted⟩
    | sweep startRpm endRpm stepRpm dwell =>
      exact ⟨fun _ => planned_of_accepted haccepted s.sweep, h.task, trivial⟩
    | stop => exact ⟨nofun, h.task, rfl⟩
    | cancel =>
      refine ⟨nofun, h.task, ?_⟩
      rw [hready]
      trivial
    | status => exact h
    | help => exact h
    | unknown => exact h
  · exact h

theorem Sound.finishCommand {s : Simulator} (h : Sound s) (command : Command) :
    Sound (finishCommand s command) := by
  cases command <;> exact ⟨h.sweep, h.task, trivial⟩

/-- The task may only end the sweep, which no command in progress minds. -/
theorem Console.Cancelled.finish {sweep : SweepState} {console : Console}
    (h : console.Cancelled sweep) : console.Cancelled { sweep with active := false } := by
  cases console with
  | ready => trivial
  | executing command =>
    cases command with
    | rpm value => exact ⟨rfl, h.2⟩
    | stop => exact rfl
    | _ => trivial

theorem Sound.sweepTaskStep {s : Simulator} (h : Sound s) : Sound (sweepTaskStep s) := by
  have htask := h.task
  unfold WheelSimulator.sweepTaskStep
  cases hpc : s.sweepTask with
  | idle =>
    dsimp only
    split
    · next hactive => exact ⟨h.sweep, ⟨h.sweep hactive, between_start s.sweep⟩, h.console⟩
    · exact h
  | check current rpm =>
    rw [hpc] at htask
    dsimp only
    split
    · exact ⟨h.sweep, htask, h.console⟩
    · exact ⟨h.sweep, trivial, h.console⟩
  | set current rpm =>
    rw [hpc] at htask
    exact ⟨h.sweep, htask, h.console⟩
  | dwell current rpm =>
    rw [hpc] at htask
    dsimp only
    split
    · exact ⟨h.sweep, trivial, h.console⟩
    · next hne => exact ⟨h.sweep, ⟨htask.1, between_nextRpm htask.1 htask.2 hne⟩, h.console⟩
  | finish current =>
    dsimp only
    split
    · exact ⟨nofun, trivial, h.console.finish⟩
    · exact ⟨h.sweep, trivial, h.console⟩
  | zero => exact ⟨h.sweep, trivial, h.console⟩

theorem Sound.step {s t : Simulator} {a : Label} (h : Sound s) (hs : step s a = some t) :
    Sound t := by
  cases a with
  | command command =>
    cases hconsole : s.console with
    | ready =>
      simp only [WheelSimulator.step, hconsole, Option.some.injEq] at hs
      exact hs ▸ h.beginCommand hconsole command
    | executing busy => simp [WheelSimulator.step, hconsole] at hs
  | console =>
    cases hconsole : s.console with
    | ready => simp [WheelSimulator.step, hconsole] at hs
    | executing command =>
      simp only [WheelSimulator.step, hconsole, Option.some.injEq] at hs
      exact hs ▸ h.finishCommand command
  | sweepTask => exact Option.some.inj hs ▸ h.sweepTaskStep
  | alarm => exact Option.some.inj hs ▸ ⟨h.sweep, h.task, h.console⟩

theorem sound_start (early : ℕ) : Sound (Simulator.start early) :=
  ⟨nofun, trivial, trivial⟩

theorem sound_run {early : ℕ} {s : Simulator} {as : List Label}
    (hrun : Run step Free (Simulator.start early) as s) : Sound s :=
  hrun.invariant (sound_start early) fun _ _ _ h _ hs => h.step hs

/-- No sweep is active, and no command is in progress. -/
structure Settled (s : Simulator) : Prop where
  sound : Sound s
  inactive : s.sweep.active = false
  ready : s.console = .ready

theorem rpm_setRpm {s : Simulator} {rpm : Int32} (h : rpm.toInt.natAbs ≤ 3000) :
    (s.setRpm rpm).rpm = rpm :=
  (setEncoderRpm_of_bounded h s.wheel.encoder).1

theorem rpm_alarm (wheel : Wheel) : (wheel.after .alarm).encoder.rpm = wheel.encoder.rpm := by
  rw [after_alarm_encoder, nextIntervalLocked_frame, moveStateIndex_eq]

/-- A quiet step leaves all to the sweep task, or changes nothing that it or the output depends
on. -/
theorem quiet_cases {s t : Simulator} {a : Label} (h : Settled s) (hq : Quiet s a)
    (hs : step s a = some t) :
    t = sweepTaskStep s ∨
      t.rpm = s.rpm ∧ t.sweep = s.sweep ∧ t.console = s.console ∧ t.sweepTask = s.sweepTask := by
  cases a with
  | command command =>
    simp only [step, h.ready, Option.some.injEq] at hs
    have hsame : beginCommand s command = s := by
      unfold beginCommand
      split
      · next haccepted =>
        simp only [Quiet, Command.takesOver, haccepted, Bool.true_and] at hq
        cases command with
        | status => rfl
        | help => rfl
        | unknown => rfl
        | _ => simp at hq
      · rfl
    rw [← hs, hsame]
    exact .inr ⟨rfl, rfl, rfl, rfl⟩
  | console => simp [step, h.ready] at hs
  | sweepTask => exact .inl (Option.some.inj hs).symm
  | alarm =>
    obtain rfl := Option.some.inj hs
    exact .inr ⟨rpm_alarm s.wheel, rfl, rfl, rfl⟩

/-- With no sweep active, the task stays idle or works off what is pending. -/
theorem sweepTaskStep_accounts {s : Simulator} (h : Settled s) :
    (sweepTaskStep s).sweep.active = false ∧ (sweepTaskStep s).console = .ready ∧
      ((sweepTaskStep s).rpm = s.rpm ∨ (sweepTaskStep s).rpm ∈ s.sweepTask.pendingWrites) ∧
      (sweepTaskStep s).sweepTask.pendingWrites ⊆ s.sweepTask.pendingWrites := by
  have htask := h.sound.task
  unfold sweepTaskStep
  cases hpc : s.sweepTask with
  | idle => simp [h.inactive, h.ready, hpc]
  | check current rpm => simp [h.inactive, h.ready, SweepTask.pendingWrites, Simulator.rpm]
  | set current rpm =>
    rw [hpc] at htask
    have hrpm : (s.setRpm rpm).rpm = rpm := rpm_setRpm (htask.2.bounded htask.1)
    refine ⟨h.inactive, h.ready, .inr ?_, ?_⟩
    · change (s.setRpm rpm).rpm ∈ _
      rw [hrpm]
      by_cases hend : rpm = current.endRpm <;> simp [SweepTask.pendingWrites, hend]
    · by_cases hend : rpm = current.endRpm <;> simp [SweepTask.pendingWrites, hend]
  | dwell current rpm =>
    by_cases hend : rpm = current.endRpm <;>
      simp [h.inactive, h.ready, SweepTask.pendingWrites, hend, Simulator.rpm]
  | finish current =>
    refine ⟨?_, h.ready, .inl rfl, by simp [SweepTask.pendingWrites]⟩
    dsimp only
    split
    · rfl
    · exact h.inactive
  | zero =>
    have hrpm : (s.setRpm 0).rpm = 0 := rpm_setRpm (by decide)
    refine ⟨h.inactive, h.ready, .inr ?_, by simp [SweepTask.pendingWrites]⟩
    change (s.setRpm 0).rpm ∈ _
    rw [hrpm]
    simp [SweepTask.pendingWrites]

theorem reaches_of_task {s : Simulator} {w : Int32}
    (h : Reaches step Quiet Simulator.rpm (sweepTaskStep s) w) :
    Reaches step Quiet Simulator.rpm s w := by
  have hquiet : Quiet s .sweepTask := trivial
  exact h.of_step hquiet rfl

theorem reaches_zero {s : Simulator} (hpc : s.sweepTask = .zero) :
    Reaches step Quiet Simulator.rpm s 0 := by
  refine reaches_of_task (.of_output ?_)
  have hstep : (sweepTaskStep s).rpm = (s.setRpm 0).rpm := by
    unfold sweepTaskStep
    rw [hpc]
    rfl
  rw [hstep]
  exact rpm_setRpm (by decide)

theorem reaches_finish {s : Simulator} {current : SweepState}
    (hpc : s.sweepTask = .finish current) :
    Reaches step Quiet Simulator.rpm s 0 := by
  refine reaches_of_task (reaches_zero ?_)
  unfold sweepTaskStep
  rw [hpc]

theorem reaches_dwell {s : Simulator} {current : SweepState}
    (hpc : s.sweepTask = .dwell current current.endRpm) :
    Reaches step Quiet Simulator.rpm s 0 := by
  refine reaches_of_task (@reaches_finish _ current ?_)
  unfold sweepTaskStep
  rw [hpc]
  dsimp only
  rw [if_pos rfl]

theorem sweepTaskStep_set {s : Simulator} {current : SweepState} {rpm : Int32}
    (hpc : s.sweepTask = .set current rpm) :
    sweepTaskStep s = { s.setRpm rpm with sweepTask := .dwell current rpm } := by
  unfold sweepTaskStep
  rw [hpc]

/-- Nothing stops the task from its pending writes. -/
theorem reaches_pending {s : Simulator} (h : Sound s) {w : Int32}
    (hw : w ∈ s.sweepTask.pendingWrites) : Reaches step Quiet Simulator.rpm s w := by
  have htask := h.task
  cases hpc : s.sweepTask with
  | idle => simp [hpc, SweepTask.pendingWrites] at hw
  | check current rpm => simp [hpc, SweepTask.pendingWrites] at hw
  | set current rpm =>
    rw [hpc] at htask hw
    have hset : (sweepTaskStep s).rpm = rpm := by
      rw [sweepTaskStep_set hpc]
      exact rpm_setRpm (htask.2.bounded htask.1)
    by_cases hend : rpm = current.endRpm
    · subst hend
      have hcases : w = current.endRpm ∨ w = 0 := by
        simpa [SweepTask.pendingWrites] using hw
      rcases hcases with rfl | rfl
      · exact reaches_of_task (.of_output hset)
      · refine reaches_of_task (@reaches_dwell _ current ?_)
        rw [sweepTaskStep_set hpc]
    · have hcases : w = rpm := by simpa [SweepTask.pendingWrites, hend] using hw
      exact reaches_of_task (.of_output (hset.trans hcases.symm))
  | dwell current rpm =>
    rw [hpc] at hw
    by_cases hend : rpm = current.endRpm
    · subst hend
      obtain rfl : w = 0 := by simpa [SweepTask.pendingWrites] using hw
      exact reaches_dwell hpc
    · simp [SweepTask.pendingWrites, hend] at hw
  | finish current =>
    obtain rfl : w = 0 := by simpa [hpc, SweepTask.pendingWrites] using hw
    exact reaches_finish hpc
  | zero =>
    obtain rfl : w = 0 := by simpa [hpc, SweepTask.pendingWrites] using hw
    exact reaches_zero hpc

/-- The pending writes are exact. -/
theorem accounts : Accounts step Quiet Settled Simulator.rpm
    (fun s => s.sweepTask.pendingWrites) where
  keeps s a t h hq hs := by
    have hsound := h.sound.step hs
    rcases quiet_cases h hq hs with rfl | ⟨-, hsweep, hconsole, -⟩
    · obtain ⟨hinactive, hready, -⟩ := sweepTaskStep_accounts h
      exact ⟨hsound, hinactive, hready⟩
    · exact ⟨hsound, hsweep ▸ h.inactive, hconsole.trans h.ready⟩
  writes s a t h hq hs := by
    rcases quiet_cases h hq hs with rfl | ⟨hrpm, -⟩
    · exact (sweepTaskStep_accounts h).2.2.1
    · exact .inl hrpm
  closes s a t h hq hs := by
    rcases quiet_cases h hq hs with rfl | ⟨-, -, -, htask⟩
    · exact (sweepTaskStep_accounts h).2.2.2
    · rw [htask]
      exact fun _ hw => hw
  reaches s w h hw := reaches_pending h.sound hw

/-- Completing a manual command gives the commanded speed and leaves no sweep active; the sweep
task stands where it stood. -/
theorem settled_of_commanded {s t : Simulator} {a : Label} {v : Int32} (h : Sound s)
    (hs : step s a = some t) (hv : commanded s a = some v) :
    Settled t ∧ t.rpm = v ∧ t.sweepTask = s.sweepTask := by
  have hsound := h.step hs
  have hcancelled := h.console
  cases a with
  | command command =>
    cases command with
    | cancel =>
      cases hconsole : s.console with
      | ready =>
        obtain rfl := Option.some.inj hv
        simp only [step, hconsole, Option.some.injEq] at hs
        subst hs
        exact ⟨⟨hsound, rfl, hconsole⟩, rfl, rfl⟩
      | executing busy => simp [step, hconsole] at hs
    | _ => simp [commanded] at hv
  | console =>
    cases hconsole : s.console with
    | ready => simp [step, hconsole] at hs
    | executing command =>
      rw [hconsole] at hcancelled
      simp only [step, hconsole, Option.some.injEq] at hs
      simp only [commanded, hconsole] at hv
      subst hs
      cases command with
      | rpm value =>
        obtain rfl := Option.some.inj hv
        exact ⟨⟨hsound, hcancelled.1, rfl⟩, rpm_setRpm hcancelled.2, rfl⟩
      | stop =>
        obtain rfl := Option.some.inj hv
        exact ⟨⟨hsound, hcancelled, rfl⟩, rpm_setRpm (by decide), rfl⟩
      | _ => simp at hv
  | sweepTask => simp [commanded] at hv
  | alarm => simp [commanded] at hv

/-- A manual command has the last word if and only if the sweep task holds no other speed. -/
theorem last_word_iff {s t : Simulator} {a : Label} {v : Int32} (h : Sound s)
    (hs : step s a = some t) (hv : commanded s a = some v) :
    Stays step Quiet Simulator.rpm t v ↔ ∀ w ∈ s.sweepTask.pendingWrites, w = v := by
  obtain ⟨hsettled, hrpm, htask⟩ := settled_of_commanded h hs hv
  rw [← htask]
  exact accounts.stays_iff hsettled v hrpm

end BajaDaq.WheelSimulator
