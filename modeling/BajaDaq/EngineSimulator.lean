import BajaDaq.PendingWrites

/-!
# The engine simulator

The console task, the sweep tasks and the pulse timer of `simulators/engine-rpm/src/main.c` as
steps on their shared state. Each section under the state's lock is one step. Every sweep has a
task of its own: a cancelled one lives on until it asks for its generation again. A command line is
given as the command it parses to.
-/

namespace BajaDaq.EngineSimulator

open TransitionRuns PendingWrites

def defaultRpm : UInt32 := 1000
def maxRpm : UInt32 := 4000
def pulseHighUs : UInt32 := 200

/-- `simulator_state_t` without its lock. -/
structure SimulatorState where
  rpm : UInt32
  periodUs : UInt32
  outputHigh : Bool
  sweepActive : Bool
  sweepGeneration : UInt32
  deriving DecidableEq, Repr

/-- The initializer of `state`: the rest of it is zero. -/
def initialState : SimulatorState :=
  ⟨defaultRpm, 0, false, false, 0⟩

def rpmToPeriodUs (rpm : UInt32) : UInt32 :=
  if rpm ≠ 0 then (60000000 / rpm.toUInt64).toUInt32 else 0

def setSweepRpm (rpm : UInt32) (state : SimulatorState) : SimulatorState :=
  { state with
    rpm := rpm
    periodUs := rpmToPeriodUs rpm
    outputHigh := false }

def setManualRpm (rpm : UInt32) (state : SimulatorState) : SimulatorState :=
  { state with
    rpm := rpm
    periodUs := rpmToPeriodUs rpm
    outputHigh := false
    sweepActive := false
    sweepGeneration := state.sweepGeneration + 1 }

/-- The level and the delay that `pulse_alarm_callback` asks for, and the state after it. -/
def pulseAlarmCallback (state : SimulatorState) : Bool × UInt32 × SimulatorState :=
  if state.rpm = 0 ∨ state.periodUs = 0 then (false, 100000, { state with outputHigh := false })
  else if state.outputHigh = false then (true, pulseHighUs, { state with outputHigh := true })
  else
    (false, if pulseHighUs < state.periodUs then state.periodUs - pulseHighUs else 1,
      { state with outputHigh := false })

/-- The two loops of `sweep_task`. -/
inductive Leg where
  | up
  | down
  deriving DecidableEq, Repr

inductive TaskPc where
  | check (leg : Leg) (rpm : Int32)
  | set (leg : Leg) (rpm : Int32)
  | dwell (leg : Leg) (rpm : Int32)
  | finish
  | zero
  | done
  deriving DecidableEq, Repr

/-- A task with the generation that it got as its argument. -/
structure SweepTask where
  generation : UInt32
  pc : TaskPc
  deriving DecidableEq, Repr

/-- The condition of the second loop. -/
def enterDown (rpm : Int32) : TaskPc :=
  if 0 ≤ rpm then .check .down rpm else .finish

/-- The condition of the first loop. -/
def enterUp (rpm : Int32) : TaskPc :=
  if rpm ≤ maxRpm.toInt32 then .check .up rpm else enterDown (maxRpm.toInt32 - 250)

def SweepTask.start (generation : UInt32) : SweepTask :=
  ⟨generation, enterUp 0⟩

/-- `sweep_task` from one point where the others may run to the next. -/
def sweepTaskStep (state : SimulatorState) (task : SweepTask) :
    Option (SimulatorState × TaskPc) :=
  match task.pc with
  | .check leg rpm =>
    if state.sweepActive ∧ state.sweepGeneration = task.generation then
      some (state, .set leg rpm)
    else some (state, .done)
  | .set leg rpm => some (setSweepRpm rpm.toUInt32 state, .dwell leg rpm)
  | .dwell .up rpm => some (state, enterUp (rpm + 250))
  | .dwell .down rpm => some (state, enterDown (rpm - 250))
  | .finish =>
    some (if state.sweepGeneration = task.generation then { state with sweepActive := false }
      else state, .zero)
  | .zero => some (setSweepRpm 0 state, .done)
  | .done => none

inductive Command where
  | rpm (value : UInt32)
  | stop
  | sweep
  | status
  | help
  | unknown
  deriving DecidableEq, Repr

/-- The check of `process_command` on the integer. -/
def Command.accepted : Command → Bool
  | .rpm value => !decide (maxRpm < value)
  | _ => true

/-- The console waits for a line, or `start_sweep` is about to create its task. -/
inductive Console where
  | ready
  | creating (generation : UInt32)
  deriving DecidableEq, Repr

structure Simulator where
  state : SimulatorState
  console : Console
  tasks : List SweepTask
  deriving DecidableEq, Repr

def Simulator.rpm (s : Simulator) : UInt32 := s.state.rpm

/-- `process_command` up to the end of its locked section. -/
def processCommand (s : Simulator) (command : Command) : Simulator :=
  if command.accepted then
    match command with
    | .rpm value => { s with state := setManualRpm value s.state }
    | .stop => { s with state := setManualRpm 0 s.state }
    | .sweep =>
      { s with
        state := { s.state with
          sweepActive := true
          sweepGeneration := s.state.sweepGeneration + 1 }
        console := .creating (s.state.sweepGeneration + 1) }
    | .status => s
    | .help => s
    | .unknown => s
  else s

/-- The rest of `start_sweep`. -/
def createTask (s : Simulator) (generation : UInt32) (created : Bool) : Simulator :=
  if created then { s with tasks := s.tasks ++ [SweepTask.start generation], console := .ready }
  else { s with state := { s.state with sweepActive := false }, console := .ready }

inductive Label where
  | command (command : Command)
  | create (created : Bool)
  | sweepTask (index : ℕ)
  | alarm
  deriving DecidableEq, Repr

def step (s : Simulator) : Label → Option Simulator
  | .command command =>
    match s.console with
    | .ready => some (processCommand s command)
    | .creating _ => none
  | .create created =>
    match s.console with
    | .ready => none
    | .creating generation => some (createTask s generation created)
  | .sweepTask index =>
    (s.tasks[index]?).bind fun task =>
      (sweepTaskStep s.state task).map fun after =>
        { s with
          state := after.1
          tasks := s.tasks.set index { task with pc := after.2 } }
  | .alarm => some { s with state := (pulseAlarmCallback s.state).2.2 }

/-- After `app_main`; its timer may have fired before the default speed is set, which does
nothing as the period is zero. -/
def Simulator.start : Simulator :=
  ⟨setManualRpm defaultRpm (pulseAlarmCallback initialState).2.2, .ready, []⟩

/-- The command is accepted and is a sweep or a manual command. -/
def Command.takesOver (command : Command) : Bool :=
  command.accepted &&
    match command with
    | .rpm _ => true
    | .stop => true
    | .sweep => true
    | .status => false
    | .help => false
    | .unknown => false

/-- No new sweep and no manual command. -/
def Quiet (_ : Simulator) : Label → Prop
  | .command command => command.takesOver = false
  | _ => True

instance (s : Simulator) : (a : Label) → Decidable (Quiet s a)
  | .command command => inferInstanceAs (Decidable (command.takesOver = false))
  | .create _ | .sweepTask _ | .alarm => .isTrue trivial

/-- The speed commanded by the manual command that this step completes. -/
def commanded (_ : Simulator) : Label → Option UInt32
  | .command command =>
    match command with
    | .rpm value => if command.accepted then some value else none
    | .stop => some 0
    | .sweep => none
    | .status => none
    | .help => none
    | .unknown => none
  | .create _ => none
  | .sweepTask _ => none
  | .alarm => none

/-- The task is at the last speed of its second loop. -/
def lastSpeed : Leg → Int32 → Bool
  | .up, _ => false
  | .down, rpm => !decide (0 ≤ rpm - 250)

/-- The speeds that a task sets without asking for its generation again. -/
def SweepTask.pendingWrites (task : SweepTask) : List UInt32 :=
  match task.pc with
  | .check _ _ => []
  | .set leg rpm => if lastSpeed leg rpm then [rpm.toUInt32, 0] else [rpm.toUInt32]
  | .dwell leg rpm => if lastSpeed leg rpm then [0] else []
  | .finish => [0]
  | .zero => [0]
  | .done => []

def Simulator.pendingWrites (s : Simulator) : List UInt32 :=
  s.tasks.flatMap SweepTask.pendingWrites

/-- The speeds of the two loops. -/
def TaskPc.Bounded : TaskPc → Prop
  | .check _ rpm => 0 ≤ rpm.toInt ∧ rpm.toInt ≤ 4000
  | .set _ rpm => 0 ≤ rpm.toInt ∧ rpm.toInt ≤ 4000
  | .dwell _ rpm => 0 ≤ rpm.toInt ∧ rpm.toInt ≤ 4000
  | _ => True

/-- The speed is one that the simulator gives out, and the period belongs to it. -/
def SimulatorState.Fits (state : SimulatorState) : Prop :=
  state.rpm ≤ maxRpm ∧ state.periodUs = rpmToPeriodUs state.rpm

structure Sound (s : Simulator) : Prop where
  fits : s.state.Fits
  tasks : ∀ task ∈ s.tasks, task.pc.Bounded

theorem toInt_add_of_bounded {rpm : Int32} (h : 0 ≤ rpm.toInt ∧ rpm.toInt ≤ 4000) :
    (rpm + 250).toInt = rpm.toInt + 250 := by
  rw [Int32.toInt_add]
  exact Int.bmod_eq_of_le (by simp; omega) (by simp; omega)

theorem toInt_sub_of_bounded {rpm : Int32} (h : 0 ≤ rpm.toInt ∧ rpm.toInt ≤ 4000) :
    (rpm - 250).toInt = rpm.toInt - 250 := by
  rw [Int32.toInt_sub]
  exact Int.bmod_eq_of_le (by simp; omega) (by simp; omega)

theorem enterDown_bounded {rpm : Int32} (h : rpm.toInt ≤ 4000) : (enterDown rpm).Bounded := by
  unfold enterDown
  split
  · next hlow => exact ⟨by simpa [Int32.le_iff_toInt_le] using hlow, h⟩
  · trivial

theorem enterUp_bounded {rpm : Int32} (h : 0 ≤ rpm.toInt) : (enterUp rpm).Bounded := by
  unfold enterUp
  split
  · next hhigh => exact ⟨h, by simpa [Int32.le_iff_toInt_le, maxRpm] using hhigh⟩
  · exact enterDown_bounded (by decide)

theorem toUInt32_le_maxRpm {rpm : Int32} (h : 0 ≤ rpm.toInt ∧ rpm.toInt ≤ 4000) :
    rpm.toUInt32 ≤ maxRpm := by
  have hle : (0 : Int32) ≤ rpm := Int32.le_iff_toInt_le.mpr h.1
  rw [UInt32.le_iff_toNat_le, Int32.toNat_toUInt32_of_le hle, ← Int32.toNat_toInt]
  change rpm.toInt.toNat ≤ 4000
  omega

theorem sweepTaskStep_fits {state after : SimulatorState} {task : SweepTask} {pc : TaskPc}
    (h : state.Fits) (hpc : task.pc.Bounded)
    (hs : sweepTaskStep state task = some (after, pc)) : after.Fits ∧ pc.Bounded := by
  unfold sweepTaskStep at hs
  cases htask : task.pc with
  | check leg rpm =>
    simp only [htask] at hs hpc
    split at hs
    · obtain ⟨rfl, rfl⟩ := Prod.mk.inj (Option.some.inj hs)
      exact ⟨h, hpc⟩
    · obtain ⟨rfl, rfl⟩ := Prod.mk.inj (Option.some.inj hs)
      exact ⟨h, trivial⟩
  | set leg rpm =>
    simp only [htask] at hs hpc
    obtain ⟨rfl, rfl⟩ := Prod.mk.inj (Option.some.inj hs)
    exact ⟨⟨toUInt32_le_maxRpm hpc, rfl⟩, hpc⟩
  | dwell leg rpm =>
    rw [htask] at hpc
    cases leg with
    | up =>
      simp only [htask] at hs
      obtain ⟨rfl, rfl⟩ := Prod.mk.inj (Option.some.inj hs)
      refine ⟨h, enterUp_bounded ?_⟩
      rw [toInt_add_of_bounded hpc]
      exact Int.add_nonneg hpc.1 (by decide)
    | down =>
      simp only [htask] at hs
      obtain ⟨rfl, rfl⟩ := Prod.mk.inj (Option.some.inj hs)
      refine ⟨h, enterDown_bounded ?_⟩
      rw [toInt_sub_of_bounded hpc]
      have hhigh := hpc.2
      omega
  | finish =>
    simp only [htask] at hs
    obtain ⟨rfl, rfl⟩ := Prod.mk.inj (Option.some.inj hs)
    split
    · exact ⟨h, trivial⟩
    · exact ⟨h, trivial⟩
  | zero =>
    simp only [htask] at hs
    obtain ⟨rfl, rfl⟩ := Prod.mk.inj (Option.some.inj hs)
    have hzero : (0 : UInt32) ≤ maxRpm := by decide
    exact ⟨⟨hzero, rfl⟩, trivial⟩
  | done => simp [htask] at hs

/-- A step of a task, with the task that takes it. -/
theorem sweepTask_cases {s t : Simulator} {index : ℕ} (hs : step s (.sweepTask index) = some t) :
    ∃ task state pc, s.tasks[index]? = some task ∧
      sweepTaskStep s.state task = some (state, pc) ∧
      t = { s with state := state, tasks := s.tasks.set index { task with pc := pc } } := by
  obtain ⟨task, htask, hmap⟩ := Option.bind_eq_some_iff.mp hs
  obtain ⟨⟨state, pc⟩, hstep, rfl⟩ := Option.map_eq_some_iff.mp hmap
  exact ⟨task, state, pc, htask, hstep, rfl⟩

theorem rpm_alarm (state : SimulatorState) : (pulseAlarmCallback state).2.2.rpm = state.rpm ∧
    (pulseAlarmCallback state).2.2.periodUs = state.periodUs ∧
    (pulseAlarmCallback state).2.2.sweepActive = state.sweepActive := by
  unfold pulseAlarmCallback
  split
  · exact ⟨rfl, rfl, rfl⟩
  · split <;> exact ⟨rfl, rfl, rfl⟩

theorem Sound.processCommand {s : Simulator} (h : Sound s) (command : Command) :
    Sound (processCommand s command) := by
  unfold EngineSimulator.processCommand
  split
  · next haccepted =>
    cases command with
    | rpm value =>
      have hvalue : value ≤ maxRpm := by simpa [Command.accepted] using haccepted
      exact ⟨⟨hvalue, rfl⟩, h.tasks⟩
    | stop =>
      have hzero : (0 : UInt32) ≤ maxRpm := by decide
      exact ⟨⟨hzero, rfl⟩, h.tasks⟩
    | sweep => exact ⟨h.fits, h.tasks⟩
    | status => exact h
    | help => exact h
    | unknown => exact h
  · exact h

theorem Sound.createTask {s : Simulator} (h : Sound s) (generation : UInt32) (created : Bool) :
    Sound (createTask s generation created) := by
  unfold EngineSimulator.createTask
  split
  · refine ⟨h.fits, ?_⟩
    intro task htask
    rcases List.mem_append.mp htask with hold | hnew
    · exact h.tasks task hold
    · obtain rfl := List.mem_singleton.mp hnew
      have hfirst : 0 ≤ (0 : Int32).toInt := by decide
      exact enterUp_bounded hfirst
  · exact ⟨h.fits, h.tasks⟩

theorem Sound.step {s t : Simulator} {a : Label} (h : Sound s) (hs : step s a = some t) :
    Sound t := by
  cases a with
  | command command =>
    cases hconsole : s.console with
    | ready =>
      simp only [EngineSimulator.step, hconsole, Option.some.injEq] at hs
      exact hs ▸ h.processCommand command
    | creating generation => simp [EngineSimulator.step, hconsole] at hs
  | create created =>
    cases hconsole : s.console with
    | ready => simp [EngineSimulator.step, hconsole] at hs
    | creating generation =>
      simp only [EngineSimulator.step, hconsole, Option.some.injEq] at hs
      exact hs ▸ h.createTask generation created
  | sweepTask index =>
    obtain ⟨task, state, pc, htask, hstep, rfl⟩ := sweepTask_cases hs
    obtain ⟨hfits, hbounded⟩ :=
      sweepTaskStep_fits h.fits (h.tasks task (List.mem_of_getElem? htask)) hstep
    refine ⟨hfits, fun other hother => ?_⟩
    rcases List.mem_or_eq_of_mem_set hother with hold | rfl
    · exact h.tasks other hold
    · exact hbounded
  | alarm =>
    obtain ⟨hrpm, hperiod, -⟩ := rpm_alarm s.state
    obtain rfl := Option.some.inj hs
    refine ⟨⟨?_, ?_⟩, h.tasks⟩
    · change (pulseAlarmCallback s.state).2.2.rpm ≤ maxRpm
      rw [hrpm]
      exact h.fits.1
    · change (pulseAlarmCallback s.state).2.2.periodUs =
        rpmToPeriodUs (pulseAlarmCallback s.state).2.2.rpm
      rw [hrpm, hperiod]
      exact h.fits.2

/-- In every run the output stays within the largest speed, and its period belongs to it. -/
theorem sound_run {s : Simulator} {as : List Label} (hrun : Run step Free Simulator.start as s) :
    Sound s :=
  hrun.invariant ⟨⟨by decide, rfl⟩, nofun⟩ fun _ _ _ h _ hs => h.step hs

/-- No sweep is active, and no command is in progress. -/
structure Settled (s : Simulator) : Prop where
  inactive : s.state.sweepActive = false
  ready : s.console = .ready

theorem pendingWrites_enterDown (generation : UInt32) (rpm : Int32) :
    (SweepTask.mk generation (enterDown rpm)).pendingWrites =
      if 0 ≤ rpm then [] else [0] := by
  unfold enterDown
  split <;> rfl

theorem pendingWrites_enterUp (generation : UInt32) (rpm : Int32) :
    (SweepTask.mk generation (enterUp rpm)).pendingWrites = [] := by
  unfold enterUp
  split
  · rfl
  · rw [pendingWrites_enterDown]
    rfl

/-- With no sweep active, a task ends or works off what is pending. -/
theorem sweepTaskStep_accounts {state after : SimulatorState} {task : SweepTask} {pc : TaskPc}
    (h : state.sweepActive = false) (hs : sweepTaskStep state task = some (after, pc)) :
    after.sweepActive = false ∧ (after.rpm = state.rpm ∨ after.rpm ∈ task.pendingWrites) ∧
      (SweepTask.mk task.generation pc).pendingWrites ⊆ task.pendingWrites := by
  unfold sweepTaskStep at hs
  cases htask : task.pc with
  | check leg rpm =>
    simp only [htask, h, Bool.false_eq_true, false_and, if_false] at hs
    obtain ⟨rfl, rfl⟩ := Prod.mk.inj (Option.some.inj hs)
    exact ⟨h, .inl rfl, by simp [SweepTask.pendingWrites]⟩
  | set leg rpm =>
    simp only [htask] at hs
    obtain ⟨rfl, rfl⟩ := Prod.mk.inj (Option.some.inj hs)
    refine ⟨h, .inr ?_, ?_⟩
    · change rpm.toUInt32 ∈ _
      cases hlast : lastSpeed leg rpm <;> simp [SweepTask.pendingWrites, htask, hlast]
    · cases hlast : lastSpeed leg rpm <;> simp [SweepTask.pendingWrites, htask, hlast]
  | dwell leg rpm =>
    cases leg with
    | up =>
      simp only [htask] at hs
      obtain ⟨rfl, rfl⟩ := Prod.mk.inj (Option.some.inj hs)
      rw [pendingWrites_enterUp]
      exact ⟨h, .inl rfl, List.nil_subset _⟩
    | down =>
      simp only [htask] at hs
      obtain ⟨rfl, rfl⟩ := Prod.mk.inj (Option.some.inj hs)
      rw [pendingWrites_enterDown]
      refine ⟨h, .inl rfl, ?_⟩
      by_cases hlow : 0 ≤ rpm - 250 <;> simp [SweepTask.pendingWrites, htask, lastSpeed, hlow]
  | finish =>
    simp only [htask] at hs
    obtain ⟨rfl, rfl⟩ := Prod.mk.inj (Option.some.inj hs)
    refine ⟨?_, .inl ?_, by simp [SweepTask.pendingWrites, htask]⟩
    · split
      · rfl
      · exact h
    · split <;> rfl
  | zero =>
    simp only [htask] at hs
    obtain ⟨rfl, rfl⟩ := Prod.mk.inj (Option.some.inj hs)
    refine ⟨h, .inr ?_, by simp [SweepTask.pendingWrites]⟩
    change (0 : UInt32) ∈ _
    simp [SweepTask.pendingWrites, htask]
  | done => simp [htask] at hs

/-- A quiet step is one of a task, or changes nothing that the tasks or the output depend on. -/
theorem quiet_cases {s t : Simulator} {a : Label} (h : Settled s) (hq : Quiet s a)
    (hs : step s a = some t) :
    (∃ index, a = .sweepTask index) ∨
      t.rpm = s.rpm ∧ t.state.sweepActive = s.state.sweepActive ∧ t.console = s.console ∧
        t.tasks = s.tasks := by
  cases a with
  | command command =>
    simp only [step, h.ready, Option.some.injEq] at hs
    have hsame : processCommand s command = s := by
      unfold processCommand
      split
      · next haccepted =>
        simp only [Quiet, Command.takesOver, haccepted, Bool.true_and] at hq
        cases command with
        | status => rfl
        | help => rfl
        | unknown => rfl
        | _ => simp at hq
      · rfl
    rw [← hs, hsame]
    exact .inr ⟨rfl, rfl, rfl, rfl⟩
  | create created => simp [step, h.ready] at hs
  | sweepTask index => exact .inl ⟨index, rfl⟩
  | alarm =>
    obtain ⟨hrpm, -, hactive⟩ := rpm_alarm s.state
    obtain rfl := Option.some.inj hs
    exact .inr ⟨hrpm, hactive, rfl, rfl⟩

theorem pendingWrites_subset {s : Simulator} {task : SweepTask} {index : ℕ}
    (h : s.tasks[index]? = some task) : task.pendingWrites ⊆ s.pendingWrites := by
  intro w hw
  exact List.mem_flatMap.mpr ⟨task, List.mem_of_getElem? h, hw⟩

/-- What a task does by itself from where it stands. -/
theorem reaches_of_task {s : Simulator} {w : UInt32} {index : ℕ} {task : SweepTask}
    {state : SimulatorState} {pc : TaskPc} (htask : s.tasks[index]? = some task)
    (hstep : sweepTaskStep s.state task = some (state, pc))
    (h : ∀ t : Simulator, t.state = state → t.tasks[index]? = some ⟨task.generation, pc⟩ →
      Reaches step Quiet Simulator.rpm t w) :
    Reaches step Quiet Simulator.rpm s w := by
  have hquiet : Quiet s (.sweepTask index) := trivial
  have hs : step s (.sweepTask index) =
      some { s with state := state, tasks := s.tasks.set index { task with pc := pc } } := by
    simp [step, htask, hstep]
  refine Reaches.of_step hquiet hs (h _ rfl ?_)
  obtain ⟨hlt, -⟩ := List.getElem?_eq_some_iff.mp htask
  simp [hlt]

theorem reaches_zero {s : Simulator} {index : ℕ} {generation : UInt32}
    (h : s.tasks[index]? = some ⟨generation, .zero⟩) : Reaches step Quiet Simulator.rpm s 0 := by
  refine reaches_of_task h rfl fun t hstate _ => .of_output ?_
  rw [Simulator.rpm, hstate]
  rfl

theorem reaches_finish {s : Simulator} {index : ℕ} {generation : UInt32}
    (h : s.tasks[index]? = some ⟨generation, .finish⟩) : Reaches step Quiet Simulator.rpm s 0 :=
  reaches_of_task h rfl fun _ _ ht => reaches_zero ht

theorem reaches_dwell {s : Simulator} {index : ℕ} {generation : UInt32} {leg : Leg} {rpm : Int32}
    (h : s.tasks[index]? = some ⟨generation, .dwell leg rpm⟩) (hlast : lastSpeed leg rpm = true) :
    Reaches step Quiet Simulator.rpm s 0 := by
  cases leg with
  | up => simp [lastSpeed] at hlast
  | down =>
    have hlow : ¬ 0 ≤ rpm - 250 := by simpa [lastSpeed] using hlast
    refine reaches_of_task h rfl fun t _ ht => ?_
    rw [enterDown, if_neg hlow] at ht
    exact reaches_finish ht

theorem reaches_set {s : Simulator} {index : ℕ} {generation : UInt32} {leg : Leg} {rpm : Int32}
    {w : UInt32} (h : s.tasks[index]? = some ⟨generation, .set leg rpm⟩)
    (hw : w = rpm.toUInt32 ∨ lastSpeed leg rpm = true ∧ w = 0) :
    Reaches step Quiet Simulator.rpm s w := by
  refine reaches_of_task h rfl fun t hstate ht => ?_
  rcases hw with rfl | ⟨hlast, rfl⟩
  · refine .of_output ?_
    rw [Simulator.rpm, hstate]
    rfl
  · exact reaches_dwell ht hlast

/-- Nothing stops a task from its pending writes. -/
theorem reaches_pending {s : Simulator} {w : UInt32} (hw : w ∈ s.pendingWrites) :
    Reaches step Quiet Simulator.rpm s w := by
  obtain ⟨⟨generation, pc⟩, hmem, hw⟩ := List.mem_flatMap.mp hw
  obtain ⟨index, htask⟩ := List.mem_iff_getElem?.mp hmem
  cases pc with
  | check leg rpm => simp [SweepTask.pendingWrites] at hw
  | set leg rpm =>
    refine reaches_set htask ?_
    cases hlast : lastSpeed leg rpm <;> simpa [SweepTask.pendingWrites, hlast] using hw
  | dwell leg rpm =>
    cases hlast : lastSpeed leg rpm with
    | false => simp [SweepTask.pendingWrites, hlast] at hw
    | true =>
      obtain rfl : w = 0 := by simpa [SweepTask.pendingWrites, hlast] using hw
      exact reaches_dwell htask hlast
  | finish =>
    obtain rfl := List.mem_singleton.mp hw
    exact reaches_finish htask
  | zero =>
    obtain rfl := List.mem_singleton.mp hw
    exact reaches_zero htask
  | done => simp [SweepTask.pendingWrites] at hw

/-- The pending writes are exact. -/
theorem accounts : Accounts step Quiet Settled Simulator.rpm Simulator.pendingWrites where
  keeps s a t h hq hs := by
    rcases quiet_cases h hq hs with ⟨index, rfl⟩ | ⟨-, hactive, hconsole, -⟩
    · obtain ⟨task, state, pc, -, hstep, rfl⟩ := sweepTask_cases hs
      exact ⟨(sweepTaskStep_accounts h.inactive hstep).1, h.ready⟩
    · exact ⟨hactive.trans h.inactive, hconsole.trans h.ready⟩
  writes s a t h hq hs := by
    rcases quiet_cases h hq hs with ⟨index, rfl⟩ | ⟨hrpm, -⟩
    · obtain ⟨task, state, pc, htask, hstep, rfl⟩ := sweepTask_cases hs
      rcases (sweepTaskStep_accounts h.inactive hstep).2.1 with hsame | hwritten
      · exact .inl hsame
      · exact .inr (pendingWrites_subset htask hwritten)
    · exact .inl hrpm
  closes s a t h hq hs := by
    rcases quiet_cases h hq hs with ⟨index, rfl⟩ | ⟨-, -, -, htasks⟩
    · obtain ⟨task, state, pc, htask, hstep, rfl⟩ := sweepTask_cases hs
      intro w hw
      obtain ⟨other, hother, hw⟩ := List.mem_flatMap.mp hw
      rcases List.mem_or_eq_of_mem_set hother with hold | rfl
      · exact List.mem_flatMap.mpr ⟨other, hold, hw⟩
      · exact pendingWrites_subset htask ((sweepTaskStep_accounts h.inactive hstep).2.2 hw)
    · rw [Simulator.pendingWrites, htasks]
      exact fun _ hw => hw
  reaches s w _ hw := reaches_pending hw

/-- Completing a manual command gives the commanded speed and leaves no sweep active; the tasks
stand where they stood. -/
theorem settled_of_commanded {s t : Simulator} {a : Label} {v : UInt32}
    (hs : step s a = some t) (hv : commanded s a = some v) :
    Settled t ∧ t.rpm = v ∧ t.tasks = s.tasks := by
  cases a with
  | command command =>
    cases hconsole : s.console with
    | creating generation => simp [step, hconsole] at hs
    | ready =>
      simp only [step, hconsole, Option.some.injEq] at hs
      subst hs
      cases command with
      | rpm value =>
        by_cases haccepted : (Command.rpm value).accepted = true
        · simp only [commanded, haccepted, if_true, Option.some.injEq] at hv
          subst hv
          have hdone : processCommand s (.rpm value) =
              { s with state := setManualRpm value s.state } := if_pos haccepted
          rw [hdone]
          exact ⟨⟨rfl, hconsole⟩, rfl, rfl⟩
        · simp [commanded, haccepted] at hv
      | stop =>
        obtain rfl := Option.some.inj hv
        exact ⟨⟨rfl, hconsole⟩, rfl, rfl⟩
      | _ => simp [commanded] at hv
  | create created => simp [commanded] at hv
  | sweepTask index => simp [commanded] at hv
  | alarm => simp [commanded] at hv

/-- A manual command has the last word if and only if the sweep tasks hold no other speed. -/
theorem last_word_iff {s t : Simulator} {a : Label} {v : UInt32}
    (hs : step s a = some t) (hv : commanded s a = some v) :
    Stays step Quiet Simulator.rpm t v ↔ ∀ w ∈ s.pendingWrites, w = v := by
  obtain ⟨hsettled, hrpm, htasks⟩ := settled_of_commanded hs hv
  rw [Simulator.pendingWrites, ← htasks]
  exact accounts.stays_iff hsettled v hrpm

end BajaDaq.EngineSimulator
