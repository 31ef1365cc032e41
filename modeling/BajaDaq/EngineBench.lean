import BajaDaq.EngineEvents
import BajaDaq.EngineSimulator
import Mathlib.Data.List.Chain

/-!
# The engine simulator on the bench

The output pin of `simulators/engine-rpm/src/main.c` wired to the input of the engine node. The
two boards count microseconds at one rate, `offset` apart, and the interrupts see an edge in the
microsecond in which the timer fires. A function that sets a speed lowers the pin after it has
left its locked section: that write is a step of its own, and it may come late.
-/

namespace BajaDaq.EngineBench
open TransitionRuns EngineSimulator

/-- The simulator with its pin, the writes of 0 to it that are due, and the count at which the
pulse timer fires next; the node at the other end of the wire. -/
structure Bench where
  simulator : Simulator
  lowering : ℕ
  pin : Bool
  alarmCount : ℤ
  node : EngineRpm.Engine
  deriving DecidableEq, Repr

/-- An alarm comes with the node's time of the rising edge, if it makes one. -/
inductive Label where
  | simulator (label : EngineSimulator.Label)
  | lower
  | alarm (edge : Option ℤ)
  | node (action : EngineRpm.Action)
  deriving DecidableEq, Repr

/-- A task with a call of `set_sweep_rpm` to make. -/
def TaskPc.setsSpeed : TaskPc → Bool
  | .check _ _ => false
  | .set _ _ => true
  | .dwell _ _ => false
  | .finish => false
  | .zero => true
  | .done => false

/-- The step of the simulator is a call of `set_manual_rpm` or `set_sweep_rpm`. -/
def setsSpeed (s : Simulator) : EngineSimulator.Label → Bool
  | .command command => (commanded s (.command command)).isSome
  | .create _ => false
  | .sweepTask index => (s.tasks[index]?).any fun task => TaskPc.setsSpeed task.pc
  | .alarm => false

/-- `pulse_alarm_callback` raises the pin. -/
def rises (b : Bench) : Bool := (pulseAlarmCallback b.simulator.state).1 && !b.pin

/-- The bench after the callback, as far as the simulator's board goes. -/
def alarmed (b : Bench) : Bench :=
  { b with
    simulator := { b.simulator with state := (pulseAlarmCallback b.simulator.state).2.2 }
    pin := (pulseAlarmCallback b.simulator.state).1
    alarmCount := b.alarmCount + (pulseAlarmCallback b.simulator.state).2.1.toNat }

def step (offset : ℤ) (b : Bench) : Label → Option Bench
  | .simulator label =>
    if label = .alarm then none
    else (EngineSimulator.step b.simulator label).map fun simulator =>
      { b with
        simulator := simulator
        lowering := b.lowering + if setsSpeed b.simulator label then 1 else 0 }
  | .lower =>
    if 0 < b.lowering then some { b with lowering := b.lowering - 1, pin := false } else none
  | .alarm edge =>
    if edge = if rises b then some (b.alarmCount + offset) else none then
      match edge with
      | none => some (alarmed b)
      | some nowUs =>
        (EngineRpm.step b.node (.edge nowUs)).map fun node => { alarmed b with node := node }
    else none
  | .node action =>
    match action with
    | .edge _ => none
    | _ => (EngineRpm.step b.node action).map fun node => { b with node := node }

/-- The node's session begins, with the simulator in any state. -/
def Bench.start (simulator : Simulator) (lowering : ℕ) (pin : Bool) (alarmCount : ℤ)
    (context : EngineRpm.EngineRpmContext) (checking : ℕ) (startUs : ℤ) : Bench :=
  ⟨simulator, lowering, pin, alarmCount, .start context checking startUs⟩

/-- What the node does in a run. -/
def actions (labels : List Label) : List EngineRpm.Action :=
  labels.filterMap fun
    | .simulator _ => none
    | .lower => none
    | .alarm edge => edge.map .edge
    | .node action => some action

/-- The speed is not set. -/
def Steady (b : Bench) : Label → Prop
  | .simulator label => setsSpeed b.simulator label = false
  | _ => True

instance (b : Bench) : (a : Label) → Decidable (Steady b a)
  | .simulator label => inferInstanceAs (Decidable (setsSpeed b.simulator label = false))
  | .lower | .alarm _ | .node _ => .isTrue trivial

/-- A quotient that is not below its divisor gives the divisor back. -/
theorem div_div_of_le_div {n d : ℕ} (hd : 0 < d) (h : d ≤ n / d) : n / (n / d) = d := by
  have hlow : n / d * d ≤ n := Nat.div_mul_le_self n d
  have hhigh : n < (n / d + 1) * d := Nat.lt_mul_of_div_lt (Nat.lt_succ_self _) hd
  apply Nat.div_eq_of_lt_le
  · rwa [Nat.mul_comm]
  · rw [Nat.add_mul, Nat.one_mul] at hhigh
    rw [Nat.succ_mul, Nat.mul_comm d]
    omega

theorem toNat_rpmToPeriodUs {rpm : UInt32} (hrpm : rpm ≠ 0) :
    (rpmToPeriodUs rpm).toNat = 60000000 / rpm.toNat := by
  have hlt : 60000000 / rpm.toNat < 2 ^ 32 := (Nat.div_le_self _ _).trans_lt (by decide)
  rw [rpmToPeriodUs, if_pos hrpm, UInt64.toNat_toUInt32, UInt64.toNat_div, UInt32.toNat_toUInt64]
  exact Nat.mod_eq_of_lt hlt

/-- The period of a speed that the simulator gives out is longer than the pulse. -/
theorem period_bounds {rpm : UInt32} (hrpm : rpm ≠ 0) (hmax : rpm ≤ maxRpm) :
    15000 ≤ (rpmToPeriodUs rpm).toNat ∧ (rpmToPeriodUs rpm).toNat ≤ 60000000 := by
  have hpos : 0 < rpm.toNat := Nat.pos_of_ne_zero fun h => hrpm (UInt32.toNat_inj.mp h)
  have hle : rpm.toNat ≤ 4000 := UInt32.le_iff_toNat_le.mp hmax
  rw [toNat_rpmToPeriodUs hrpm]
  refine ⟨?_, Nat.div_le_self _ _⟩
  rw [Nat.le_div_iff_mul_le hpos]
  omega

/-- What the node makes of the interval between two pulses: the speed itself, from the lowest one
that it reports. -/
theorem intervalRpm_period {rpm : UInt32} (hrpm : rpm ≠ 0) (hmax : rpm ≤ maxRpm) {u w : ℤ}
    (h : w - u = (rpmToPeriodUs rpm).toNat) :
    EngineEvents.intervalRpm (some u) w = if 1000 ≤ rpm.toNat then (rpm.toNat : ℤ) else 0 := by
  have hpos : 0 < rpm.toNat := Nat.pos_of_ne_zero fun h => hrpm (UInt32.toNat_inj.mp h)
  have hle : rpm.toNat ≤ 4000 := UInt32.le_iff_toNat_le.mp hmax
  have hlow := (period_bounds hrpm hmax).1
  have hinverse : 60000000 / (rpmToPeriodUs rpm).toNat = rpm.toNat := by
    rw [toNat_rpmToPeriodUs hrpm] at hlow ⊢
    exact div_div_of_le_div hpos (by omega)
  have hrange : (rpmToPeriodUs rpm).toNat ≤ 60000 ↔ 1000 ≤ rpm.toNat := by
    rw [toNat_rpmToPeriodUs hrpm, Nat.div_le_iff_le_mul_add_pred hpos]
    omega
  rw [EngineEvents.intervalRpm, h]
  by_cases hmin : 1000 ≤ rpm.toNat
  · have hshort := hrange.mpr hmin
    rw [if_pos (by omega), if_pos hmin, ← hinverse]
    norm_cast
  · have hlong := mt hrange.mp hmin
    rw [if_neg (by omega), if_neg hmin]

/-- The parts of the state that only the speed functions and the alarms write. -/
theorem sweepTaskStep_frame {state after : SimulatorState} {task : SweepTask} {pc : TaskPc}
    (hs : sweepTaskStep state task = some (after, pc)) (h : TaskPc.setsSpeed task.pc = false) :
    after.rpm = state.rpm ∧ after.periodUs = state.periodUs ∧
      after.outputHigh = state.outputHigh := by
  unfold sweepTaskStep at hs
  cases htask : task.pc with
  | check leg rpm =>
    simp only [htask] at hs
    split at hs <;> obtain ⟨rfl, rfl⟩ := Prod.mk.inj (Option.some.inj hs) <;> exact ⟨rfl, rfl, rfl⟩
  | set leg rpm => simp [htask, TaskPc.setsSpeed] at h
  | dwell leg rpm =>
    cases leg <;> simp only [htask] at hs <;>
      obtain ⟨rfl, rfl⟩ := Prod.mk.inj (Option.some.inj hs) <;> exact ⟨rfl, rfl, rfl⟩
  | finish =>
    simp only [htask] at hs
    obtain ⟨rfl, rfl⟩ := Prod.mk.inj (Option.some.inj hs)
    split <;> exact ⟨rfl, rfl, rfl⟩
  | zero => simp [htask, TaskPc.setsSpeed] at h
  | done => simp [htask] at hs

theorem processCommand_frame {s : Simulator} {command : Command}
    (h : setsSpeed s (.command command) = false) :
    (processCommand s command).state.rpm = s.state.rpm ∧
      (processCommand s command).state.periodUs = s.state.periodUs ∧
      (processCommand s command).state.outputHigh = s.state.outputHigh := by
  unfold processCommand
  split
  · next haccepted =>
    cases command with
    | rpm value => simp [setsSpeed, commanded, haccepted] at h
    | stop => simp [setsSpeed, commanded] at h
    | sweep => exact ⟨rfl, rfl, rfl⟩
    | status => exact ⟨rfl, rfl, rfl⟩
    | help => exact ⟨rfl, rfl, rfl⟩
    | unknown => exact ⟨rfl, rfl, rfl⟩
  · exact ⟨rfl, rfl, rfl⟩

/-- The rest of the simulator does not touch the pulses. -/
theorem simulator_frame {s t : Simulator} {label : EngineSimulator.Label}
    (hs : EngineSimulator.step s label = some t) (halarm : label ≠ .alarm)
    (h : setsSpeed s label = false) :
    t.state.rpm = s.state.rpm ∧ t.state.periodUs = s.state.periodUs ∧
      t.state.outputHigh = s.state.outputHigh := by
  cases label with
  | command command =>
    cases hconsole : s.console with
    | ready =>
      simp only [EngineSimulator.step, hconsole, Option.some.injEq] at hs
      exact hs ▸ processCommand_frame h
    | creating generation => simp [EngineSimulator.step, hconsole] at hs
  | create created =>
    cases hconsole : s.console with
    | ready => simp [EngineSimulator.step, hconsole] at hs
    | creating generation =>
      simp only [EngineSimulator.step, hconsole, Option.some.injEq] at hs
      subst hs
      cases created <;> exact ⟨rfl, rfl, rfl⟩
  | sweepTask index =>
    obtain ⟨task, state, pc, htask, hstep, rfl⟩ := sweepTask_cases hs
    rw [setsSpeed, htask, Option.any_some] at h
    exact sweepTaskStep_frame hstep h
  | alarm => exact absurd rfl halarm

theorem pulse_idle {state : SimulatorState} (h : state.rpm = 0) :
    pulseAlarmCallback state = (false, 100000, { state with outputHigh := false }) :=
  if_pos (.inl h)

section Pulses
variable {state : SimulatorState} (hrpm : state.rpm ≠ 0) (hfits : state.Fits)

include hrpm hfits

theorem period_ne_zero : state.periodUs ≠ 0 := by
  intro hzero
  have hlow := (period_bounds hrpm hfits.1).1
  rw [← hfits.2, hzero, UInt32.toNat_zero] at hlow
  omega

theorem pulse_begin (hlow : state.outputHigh = false) :
    pulseAlarmCallback state = (true, 200, { state with outputHigh := true }) := by
  have hrunning : ¬ (state.rpm = 0 ∨ state.periodUs = 0) :=
    not_or.mpr ⟨hrpm, period_ne_zero hrpm hfits⟩
  rw [pulseAlarmCallback, if_neg hrunning, if_pos hlow]
  rfl

theorem pulse_end (hhigh : state.outputHigh = true) :
    ∃ delayUs : UInt32, (delayUs.toNat : ℤ) = state.periodUs.toNat - 200 ∧
      pulseAlarmCallback state = (false, delayUs, { state with outputHigh := false }) := by
  have hrunning : ¬ (state.rpm = 0 ∨ state.periodUs = 0) :=
    not_or.mpr ⟨hrpm, period_ne_zero hrpm hfits⟩
  have hlong := (period_bounds hrpm hfits.1).1
  rw [← hfits.2] at hlong
  have hmore : pulseHighUs < state.periodUs := by
    rw [UInt32.lt_iff_toNat_lt]
    change 200 < _
    omega
  refine ⟨state.periodUs - pulseHighUs, ?_, ?_⟩
  · rw [UInt32.toNat_sub_of_le _ _ (UInt32.le_of_lt hmore)]
    change ((state.periodUs.toNat - 200 : ℕ) : ℤ) = _
    omega
  · rw [pulseAlarmCallback, if_neg hrunning, if_neg (by simp [hhigh]), if_pos hmore]

end Pulses

theorem alarm_cases {offset : ℤ} {b c : Bench} {edge : Option ℤ}
    (hs : step offset b (.alarm edge) = some c) :
    edge = (if rises b then some (b.alarmCount + offset) else none) ∧
      ∃ node, c = { alarmed b with node := node } := by
  simp only [step, Option.ite_none_right_eq_some] at hs
  obtain ⟨hedge, hs⟩ := hs
  refine ⟨hedge, ?_⟩
  cases edge with
  | none => exact ⟨b.node, (Option.some.inj hs).symm⟩
  | some nowUs =>
    obtain ⟨node, -, rfl⟩ := Option.map_eq_some_iff.mp hs
    exact ⟨node, rfl⟩

theorem node_cases {offset : ℤ} {b c : Bench} {action : EngineRpm.Action}
    (hs : step offset b (.node action) = some c) :
    (∀ nowUs, action ≠ .edge nowUs) ∧
      ∃ node, EngineRpm.step b.node action = some node ∧ c = { b with node := node } := by
  cases action with
  | edge nowUs => simp [step] at hs
  | receive event | receiveTimeout | stopCheck nowUs event | droppedEvents count =>
    obtain ⟨node, hnode, rfl⟩ := Option.map_eq_some_iff.mp hs
    exact ⟨fun _ => nofun, node, hnode, rfl⟩

/-- The node's times of the rising edges. -/
def risen (labels : List Label) : List ℤ := EngineEvents.edges (actions labels)

theorem risen_concat (labels : List Label) (a : Label) :
    risen (labels ++ [a]) = risen labels ++ risen [a] := by
  simp [risen, actions, EngineEvents.edges]

theorem risen_node {action : EngineRpm.Action} (h : ∀ nowUs, action ≠ .edge nowUs) :
    risen [.node action] = [] := by
  cases action with
  | edge nowUs => exact absurd rfl (h nowUs)
  | receive event | receiveTimeout | stopCheck nowUs event | droppedEvents count => rfl

/-- The rising edges so far are one period apart, and the next alarms will keep it so. -/
structure Train (offset : ℤ) (rpm : UInt32) (labels : List Label) (b : Bench) : Prop where
  speed : b.simulator.state.rpm = rpm
  fits : b.simulator.state.Fits
  spaced : (risen labels).IsChain fun u w : ℤ => w - u = (rpmToPeriodUs rpm).toNat
  high : ∀ u ∈ (risen labels).getLast?, b.simulator.state.outputHigh = true →
    b.alarmCount + offset = u + 200
  low : ∀ u ∈ (risen labels).getLast?, b.simulator.state.outputHigh = false →
    b.pin = false ∧ b.alarmCount + offset = u + (rpmToPeriodUs rpm).toNat

section Steps
variable {offset : ℤ} {rpm : UInt32} {labels : List Label} {b c : Bench}

/-- A step that makes no edge, and leaves the pulses and the timer alone. -/
theorem Train.keep (h : Train offset rpm labels b) {a : Label} (hrisen : risen [a] = [])
    (hpulse : c.simulator.state.rpm = b.simulator.state.rpm ∧
      c.simulator.state.periodUs = b.simulator.state.periodUs ∧
      c.simulator.state.outputHigh = b.simulator.state.outputHigh)
    (hcount : c.alarmCount = b.alarmCount) (hpin : b.pin = false → c.pin = false) :
    Train offset rpm (labels ++ [a]) c := by
  obtain ⟨hrpm, hperiod, houtput⟩ := hpulse
  have hsame : risen (labels ++ [a]) = risen labels := by
    rw [risen_concat, hrisen, List.append_nil]
  refine ⟨hrpm.trans h.speed, ?_, ?_, ?_, ?_⟩
  · unfold SimulatorState.Fits
    rw [hrpm, hperiod]
    exact h.fits
  · rw [hsame]
    exact h.spaced
  · rw [hsame, houtput, hcount]
    exact h.high
  · intro u hu hlow
    rw [hsame] at hu
    rw [houtput] at hlow
    rw [hcount]
    exact ⟨hpin (h.low u hu hlow).1, (h.low u hu hlow).2⟩

/-- An alarm begins a pulse one period after the last one began, or ends a pulse. -/
theorem Train.alarm (h : Train offset rpm labels b) (hrpm : rpm ≠ 0) {edge : Option ℤ}
    (hs : step offset b (.alarm edge) = some c) : Train offset rpm (labels ++ [.alarm edge]) c := by
  have hrunning : b.simulator.state.rpm ≠ 0 := h.speed ▸ hrpm
  have hperiod : b.simulator.state.periodUs = rpmToPeriodUs rpm := h.speed ▸ h.fits.2
  obtain ⟨hedge, node, rfl⟩ := alarm_cases hs
  cases houtput : b.simulator.state.outputHigh with
  | false =>
    have hpulse := pulse_begin hrunning h.fits houtput
    have hrises : rises b = !b.pin := by rw [rises, hpulse, Bool.true_and]
    have hcount : (alarmed b).alarmCount = b.alarmCount + 200 := by
      rw [alarmed, hpulse]
      rfl
    have hhigh : (alarmed b).simulator.state.outputHigh = true := by rw [alarmed, hpulse]
    have hspeed : (alarmed b).simulator.state.rpm = rpm := by
      rw [alarmed, hpulse]
      exact h.speed
    have hfits : (alarmed b).simulator.state.Fits := by
      rw [alarmed, hpulse]
      exact h.fits
    cases hpin : b.pin with
    | true =>
      -- the pin is still high from before, so there was no edge yet
      have hnone : (risen labels).getLast? = none := by
        rw [Option.eq_none_iff_forall_not_mem]
        intro u hu
        simp [(h.low u hu houtput).1] at hpin
      have hsame : risen (labels ++ [.alarm edge]) = risen labels := by
        rw [hedge, hrises, hpin]
        exact (risen_concat _ _).trans (List.append_nil _)
      refine ⟨hspeed, hfits, ?_, ?_, ?_⟩
      · rw [hsame]
        exact h.spaced
      · rw [hsame, hnone]
        exact fun u hu => absurd hu (Option.not_mem_none u)
      · rw [hsame, hnone]
        exact fun u hu => absurd hu (Option.not_mem_none u)
    | false =>
      have hnew : risen (labels ++ [.alarm edge]) = risen labels ++ [b.alarmCount + offset] := by
        rw [hedge, hrises, hpin]
        exact risen_concat _ _
      refine ⟨hspeed, hfits, ?_, ?_, ?_⟩
      · rw [hnew, List.isChain_append]
        refine ⟨h.spaced, .singleton _, fun u hu w hw => ?_⟩
        obtain rfl : b.alarmCount + offset = w := by simpa using hw
        have hnext := (h.low u hu houtput).2
        omega
      · intro u hu _
        obtain rfl : b.alarmCount + offset = u := by simpa [hnew] using hu
        rw [hcount]
        omega
      · exact fun u _ hlow => absurd (hhigh.symm.trans hlow) (by decide)
  | true =>
    obtain ⟨delayUs, hdelay, hpulse⟩ := pulse_end hrunning h.fits houtput
    rw [hperiod] at hdelay
    have hrises : rises b = false := by rw [rises, hpulse, Bool.false_and]
    have hsame : risen (labels ++ [.alarm edge]) = risen labels := by
      rw [hedge, hrises]
      exact (risen_concat _ _).trans (List.append_nil _)
    have hlow : (alarmed b).simulator.state.outputHigh = false := by rw [alarmed, hpulse]
    have hcount : (alarmed b).alarmCount = b.alarmCount + delayUs.toNat := by rw [alarmed, hpulse]
    have hpin : (alarmed b).pin = false := by rw [alarmed, hpulse]
    refine ⟨?_, ?_, ?_, ?_, ?_⟩
    · change (alarmed b).simulator.state.rpm = rpm
      rw [alarmed, hpulse]
      exact h.speed
    · change (alarmed b).simulator.state.Fits
      rw [alarmed, hpulse]
      exact h.fits
    · rw [hsame]
      exact h.spaced
    · exact fun u _ hhigh => absurd (hlow.symm.trans hhigh) (by decide)
    · intro u hu _
      rw [hsame] at hu
      have hlast := h.high u hu houtput
      change (alarmed b).pin = false ∧ (alarmed b).alarmCount + offset = _
      rw [hcount]
      exact ⟨hpin, by omega⟩

theorem Train.step (h : Train offset rpm labels b) (hrpm : rpm ≠ 0) {a : Label}
    (hc : Steady b a) (hs : step offset b a = some c) : Train offset rpm (labels ++ [a]) c := by
  cases a with
  | simulator label =>
    simp only [EngineBench.step, Option.ite_none_left_eq_some] at hs
    obtain ⟨halarm, hs⟩ := hs
    obtain ⟨simulator, hsimulator, rfl⟩ := Option.map_eq_some_iff.mp hs
    exact h.keep rfl (simulator_frame hsimulator halarm hc) rfl id
  | lower =>
    simp only [EngineBench.step, Option.ite_none_right_eq_some, Option.some.injEq] at hs
    obtain ⟨-, rfl⟩ := hs
    exact h.keep rfl ⟨rfl, rfl, rfl⟩ rfl fun _ => rfl
  | alarm edge => exact h.alarm hrpm hs
  | node action =>
    obtain ⟨hother, node, -, rfl⟩ := node_cases hs
    exact h.keep (risen_node hother) ⟨rfl, rfl, rfl⟩ rfl id

/-- An engine that stands still makes no pulses. -/
theorem risen_of_idle (h : b.simulator.state.rpm = 0) {a : Label} (hc : Steady b a)
    (hs : step offset b a = some c) : c.simulator.state.rpm = 0 ∧ risen [a] = [] := by
  cases a with
  | simulator label =>
    simp only [EngineBench.step, Option.ite_none_left_eq_some] at hs
    obtain ⟨halarm, hs⟩ := hs
    obtain ⟨simulator, hsimulator, rfl⟩ := Option.map_eq_some_iff.mp hs
    exact ⟨(simulator_frame hsimulator halarm hc).1.trans h, rfl⟩
  | lower =>
    simp only [EngineBench.step, Option.ite_none_right_eq_some, Option.some.injEq] at hs
    obtain ⟨-, rfl⟩ := hs
    exact ⟨h, rfl⟩
  | alarm edge =>
    obtain ⟨hedge, node, rfl⟩ := alarm_cases hs
    have hrises : rises b = false := by rw [rises, pulse_idle h, Bool.false_and]
    refine ⟨?_, ?_⟩
    · change (alarmed b).simulator.state.rpm = 0
      rw [alarmed, pulse_idle h]
      exact h
    · rw [hedge, hrises]
      rfl
  | node action =>
    obtain ⟨hother, node, -, rfl⟩ := node_cases hs
    exact ⟨h, risen_node hother⟩

end Steps

theorem train_of_run {offset : ℤ} {b c : Bench} {labels : List Label}
    (h : Run (step offset) Steady b labels c) (hfits : b.simulator.state.Fits)
    (hrpm : b.simulator.state.rpm ≠ 0) :
    Train offset b.simulator.state.rpm labels c := by
  induction h with
  | nil => exact ⟨rfl, hfits, .nil, fun _ => nofun, fun _ => nofun⟩
  | snoc _ hc hs ih => exact ih.step hrpm hc hs

theorem risen_of_idle_run {offset : ℤ} {b c : Bench} {labels : List Label}
    (h : Run (step offset) Steady b labels c) (hrpm : b.simulator.state.rpm = 0) :
    c.simulator.state.rpm = 0 ∧ risen labels = [] := by
  induction h with
  | nil => exact ⟨hrpm, rfl⟩
  | snoc _ hc hs ih =>
    obtain ⟨hidle, hnone⟩ := ih
    obtain ⟨hstill, hrisen⟩ := risen_of_idle hidle hc hs
    refine ⟨hstill, ?_⟩
    rw [risen_concat, hnone, hrisen]
    rfl

/-- The node's part of a run is a run of the node. -/
theorem node_of_run {offset : ℤ} {b c : Bench} {labels : List Label}
    (h : Run (step offset) Free b labels c) :
    Run EngineRpm.step Free b.node (actions labels) c.node := by
  induction h with
  | nil => exact .nil _
  | @snoc t u labels a _ _ hs ih =>
    have happend : actions (labels ++ [a]) = actions labels ++ actions [a] := by simp [actions]
    rw [happend]
    cases a with
    | simulator label =>
      simp only [step, Option.ite_none_left_eq_some] at hs
      obtain ⟨-, hs⟩ := hs
      obtain ⟨simulator, -, rfl⟩ := Option.map_eq_some_iff.mp hs
      exact ih.trans (.nil _)
    | lower =>
      simp only [step, Option.ite_none_right_eq_some, Option.some.injEq] at hs
      obtain ⟨-, rfl⟩ := hs
      exact ih.trans (.nil _)
    | alarm edge =>
      simp only [step, Option.ite_none_right_eq_some] at hs
      obtain ⟨-, hs⟩ := hs
      cases edge with
      | none =>
        obtain rfl := Option.some.inj hs
        exact ih.trans (.nil _)
      | some nowUs =>
        obtain ⟨node, hnode, rfl⟩ := Option.map_eq_some_iff.mp hs
        exact ih.snoc trivial hnode
    | node action =>
      obtain ⟨-, node, hnode, rfl⟩ := node_cases hs
      exact ih.snoc trivial hnode

/-- The part of the simulator is a run of the simulator. -/
theorem simulator_of_run {offset : ℤ} {b c : Bench} {labels : List Label}
    (h : Run (step offset) Free b labels c) (hsound : Sound b.simulator) : Sound c.simulator := by
  refine h.invariant (I := fun b => Sound b.simulator) hsound ?_
  rintro s a t hs - hstep
  cases a with
  | simulator label =>
    simp only [step, Option.ite_none_left_eq_some] at hstep
    obtain ⟨-, hstep⟩ := hstep
    obtain ⟨simulator, hsimulator, rfl⟩ := Option.map_eq_some_iff.mp hstep
    exact hs.step hsimulator
  | lower =>
    simp only [step, Option.ite_none_right_eq_some, Option.some.injEq] at hstep
    obtain ⟨-, rfl⟩ := hstep
    exact hs
  | alarm edge =>
    obtain ⟨-, node, rfl⟩ := alarm_cases hstep
    have halarm : EngineSimulator.step s.simulator .alarm = some (alarmed s).simulator := rfl
    exact hs.step halarm
  | node action =>
    obtain ⟨-, node, -, rfl⟩ := node_cases hstep
    exact hs

/-- The interrupt sees every edge later than the one before. -/
theorem edges_increasing {context : EngineRpm.EngineRpmContext} {checking : ℕ} {startUs : ℤ}
    {labels : List EngineRpm.Action} {s : EngineRpm.Engine}
    (h : Run EngineRpm.step Free (.start context checking startUs) labels s) :
    (EngineEvents.edges labels).Pairwise (· < ·) := by
  induction h with
  | nil => exact .nil
  | @snoc t u labels a hrun _ hs ih =>
    have hbefore := (EngineEvents.captures_of_run hrun).positive
    cases EngineRpm.stepped hs with
    | queued htime hedge | lost htime hedge =>
      rw [EngineEvents.edges_edge, List.pairwise_append]
      refine ⟨ih, List.pairwise_singleton _ _, fun x hx y hy => ?_⟩
      obtain rfl := List.mem_singleton.mp hy
      exact (hbefore x hx).2.trans_lt hedge
    | receive | receiveTimeout | stopped | running | droppedEvents => simpa using ih

theorem mem_eventsOf {previousUs : Option ℤ} {times : List ℤ} {e : EngineRpm.EngineEvent}
    (he : e ∈ EngineEvents.eventsOf previousUs times) :
    ∃ before after, times = before ++ e.timestampUs :: after ∧
      e.engineRpm = EngineEvents.intervalRpm (before.getLast?.or previousUs) e.timestampUs := by
  induction times generalizing previousUs with
  | nil => simp [EngineEvents.eventsOf] at he
  | cons nowUs times ih =>
    rcases List.mem_cons.mp he with rfl | hrest
    · exact ⟨[], times, rfl, rfl⟩
    · obtain ⟨before, after, htimes, hrpm⟩ := ih hrest
      refine ⟨nowUs :: before, after, by rw [htimes]; rfl, ?_⟩
      rw [hrpm, List.getLast?_cons]
      cases before.getLast? <;> rfl

theorem not_lt_head {after : List ℤ} {u v : ℤ} (hsorted : (u :: after).Pairwise (· < ·))
    (hv : v ∈ u :: after) : ¬ v < u := by
  rcases List.mem_cons.mp hv with rfl | hv
  · exact lt_irrefl v
  · exact not_lt.mpr ((List.pairwise_cons.mp hsorted).1 v hv).le

/-- Later than one of the last edges, the edge before is one of them too. -/
theorem previous_of_later {past later before after : List ℤ} {u v : ℤ}
    (hlist : past ++ later = before ++ u :: after) (hsorted : (past ++ later).Pairwise (· < ·))
    (hv : v ∈ later) (huv : v < u) :
    ∃ middle w, later = middle ++ w :: u :: after ∧ before.getLast? = some w := by
  have hafter := (List.pairwise_append.mp (hlist ▸ hsorted)).2.1
  rcases List.append_eq_append_iff.mp hlist with ⟨part, rfl, hlater⟩ | ⟨part, rfl, hrest⟩
  · rcases List.eq_nil_or_concat' part with rfl | ⟨middle, w, rfl⟩
    · exact absurd huv (not_lt_head hafter (by rwa [hlater] at hv))
    · refine ⟨middle, w, ?_, ?_⟩
      · rw [hlater, List.append_assoc]
        rfl
      · rw [← List.append_assoc, List.getLast?_concat]
  · -- the edge is no later than the last edges begin
    rcases part with - | ⟨x, part⟩
    · exact absurd huv (not_lt_head hafter (by rwa [hrest]))
    · obtain ⟨rfl, -⟩ := List.cons.inj hrest
      have hmem : u ∈ before ++ u :: part := List.mem_append_right _ (List.mem_cons_self ..)
      exact absurd huv (not_lt.mpr ((List.pairwise_append.mp hsorted).2.2 u hmem v hv).le)

/-- While the simulator's speed is not set, its pulses are one period apart, and what the node
reports of them is the speed, exactly, or nothing below its lowest speed; whatever happened
before, and whatever else the two boards do meanwhile. -/
theorem reported_of_run (offset : ℤ) (early : List EngineSimulator.Label) (simulator : Simulator)
    (hearly : Run EngineSimulator.step Free Simulator.start early simulator) (lowering : ℕ)
    (pin : Bool) (alarmCount : ℤ) (context : EngineRpm.EngineRpmContext) (checking : ℕ)
    (startUs : ℤ) (past later : List Label) (b c : Bench)
    (hpast : Run (step offset) Free
      (.start simulator lowering pin alarmCount context checking startUs) past b)
    (hlater : Run (step offset) Steady b later c) :
    ((risen later).IsChain fun u w : ℤ =>
        w - u = 60000000 / (b.simulator.state.rpm.toNat : ℤ)) ∧
      (b.simulator.state.rpm = 0 → risen later = []) ∧
      ∀ e ∈ EngineEvents.sparks (actions (past ++ later)), ∀ v ∈ risen later,
        v < e.timestampUs → e.engineRpm =
          if 1000 ≤ b.simulator.state.rpm.toNat then (b.simulator.state.rpm.toNat : ℤ) else 0 := by
  have hfits := (simulator_of_run hpast (sound_run hearly)).fits
  by_cases hrpm : b.simulator.state.rpm = 0
  · have hnone := (risen_of_idle_run hlater hrpm).2
    exact ⟨hnone ▸ .nil, fun _ => hnone, fun _ _ v hv => absurd hv (hnone ▸ List.not_mem_nil)⟩
  · have htrain := train_of_run hlater hfits hrpm
    have hperiod := toNat_rpmToPeriodUs hrpm
    refine ⟨?_, fun hzero => absurd hzero hrpm, ?_⟩
    · refine htrain.spaced.imp fun u w h => ?_
      rw [h, hperiod]
      norm_cast
    · intro e he v hv hve
      have hnode := node_of_run (hpast.trans hlater.free)
      have hevent := (EngineEvents.captures_of_run hnode).order.subset (List.mem_append_left _ he)
      obtain ⟨before, after, htimes, hreported⟩ := mem_eventsOf hevent
      have hsplit : EngineEvents.edges (actions (past ++ later)) = risen past ++ risen later := by
        simp [risen, actions, EngineEvents.edges]
      have hsorted := edges_increasing hnode
      rw [hsplit] at htimes hsorted
      obtain ⟨middle, w, hparts, hlast⟩ := previous_of_later htimes hsorted hv hve
      have hspaced := htrain.spaced
      rw [hparts, List.isChain_append_cons_cons] at hspaced
      rw [hreported, hlast, Option.some_or]
      exact intervalRpm_period hrpm hfits.1 hspaced.2.1

/-- 3000 RPM are commanded, and two pulses of the simulator are taken out of the node's queue. -/
def commandedBench : List Label := [.simulator (.command (.rpm 3000)), .lower]

def pulsedBench : List Label :=
  [.alarm (some 5001000), .alarm none, .alarm (some 5021000),
    .node (.receive ⟨5001000, 0, true⟩), .node (.receive ⟨5021000, 3000, true⟩)]

theorem commandedBench_reported :
    ((risen pulsedBench).IsChain fun u w : ℤ => w - u = 60000000 / 3000) ∧
      ∀ e ∈ EngineEvents.sparks (actions (commandedBench ++ pulsedBench)), ∀ v ∈ risen pulsedBench,
        v < e.timestampUs → e.engineRpm = 3000 := by
  have heval : ((exec (step 5000000) (.start Simulator.start 0 false 1000 ⟨0, 0, 0, []⟩ 0 4000000)
      commandedBench).bind fun b => (exec (Run.guarded (step 5000000) Steady) b pulsedBench).map
        fun _ => b.simulator.state.rpm) = some 3000 := by decide +kernel
  obtain ⟨b, hpast, hmap⟩ := Option.bind_eq_some_iff.mp heval
  obtain ⟨c, hlater, hrpm⟩ := Option.map_eq_some_iff.mp hmap
  have h := reported_of_run 5000000 [] _ (.nil _) 0 false 1000 ⟨0, 0, 0, []⟩ 0 4000000
    commandedBench pulsedBench b c (Run.of_exec_free hpast) (Run.of_exec hlater)
  rw [hrpm] at h
  exact ⟨h.1, h.2.2⟩

end BajaDaq.EngineBench
