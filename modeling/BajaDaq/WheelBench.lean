import BajaDaq.BearingRpm
import BajaDaq.WheelSimulator

/-!
# The wheel simulator on the bench

The two outputs of `simulators/wheel-rpm/src/main.c` wired to the inputs of the bearing node, A to
A and B to B. Times are those of the node; the two boards count microseconds at one rate, the timer
fires on time, the interrupt sees a changed output in the same microsecond, and no read falls in
it. As for the encoder alone, runs are about counts that fit the node's `int32_t`.
-/

namespace BajaDaq.WheelBench
open BearingEncoder CarriedRemainders HalfAwayRounding TransitionRuns WheelEncoder WheelSimulator

/-- The simulator, the time at which its edge timer fires next, and the node. -/
structure Bench where
  simulator : Simulator
  alarmUs : ℤ
  node : Encoder
  deriving DecidableEq, Repr

/-- An alarm comes with the interrupt that it makes at the node, if an output changes. -/
inductive Label where
  | simulator (label : WheelSimulator.Label)
  | alarm (seen : Option (ℤ × AbState))
  | read (nowUs count value : ℤ)
  deriving DecidableEq, Repr

/-- The bench after `edge_alarm_callback`, as far as the simulator's board goes. -/
def alarmed (b : Bench) : Bench :=
  { b with
    simulator := { b.simulator with wheel := b.simulator.wheel.after .alarm }
    alarmUs := b.alarmUs + (edgeAlarmCallback b.simulator.wheel).1.toNat }

/-- What the node's interrupt sees of an alarm. -/
def seenByNode (b : Bench) : Option (ℤ × AbState) :=
  if (alarmed b).simulator.wheel.levels = b.simulator.wheel.levels then none
  else some (b.alarmUs, readLevels (alarmed b).simulator.wheel.levels)

def step (b : Bench) : Label → Option Bench
  | .simulator label =>
    if label = .alarm then none
    else (WheelSimulator.step b.simulator label).map fun simulator =>
      { b with simulator := simulator }
  | .alarm seen =>
    if seen = seenByNode b then
      match seen with
      | none => some (alarmed b)
      | some (nowUs, state) =>
        (BearingEncoder.step b.node (.interrupt nowUs state)).map fun node =>
          { alarmed b with node := node }
    else none
  | .read nowUs count value =>
    if nowUs < b.alarmUs then
      (BearingEncoder.step b.node (.read nowUs count value)).map fun node => { b with node := node }
    else none

/-- The node's session begins, with the simulator in any state. The node's interrupt has followed
the outputs since the boot. -/
def Bench.start (simulator : Simulator) (alarmUs : ℤ) (context : EncoderContext)
    (startUs : ℕ) : Bench :=
  ⟨simulator, alarmUs,
    .start { context with lastState := readLevels simulator.wheel.levels } startUs⟩

/-- What the node does in a run. -/
def actions (labels : List Label) : List Action :=
  labels.filterMap fun
    | .simulator _ => none
    | .alarm seen => seen.map fun edge => .interrupt edge.1 edge.2
    | .read nowUs count value => some (.read nowUs count value)

/-- The step of the simulator calls `set_encoder_rpm`. -/
def setsSpeed (s : Simulator) : WheelSimulator.Label → Bool
  | .command _ => false
  | .console =>
    match s.console with
    | .ready => false
    | .executing (.rpm _) => true
    | .executing (.sweep _ _ _ _) => true
    | .executing .stop => true
    | .executing .cancel => false
    | .executing .status => false
    | .executing .help => false
    | .executing .unknown => false
  | .sweepTask =>
    match s.sweepTask with
    | .idle => false
    | .check _ _ => false
    | .set _ _ => true
    | .dwell _ _ => false
    | .finish _ => false
    | .zero => true
  | .alarm => false

/-- The node's count since its last read stays in an `int32_t`. -/
def Fits (b : Bench) : Label → Prop
  | .alarm (some (nowUs, state)) => PendingFits b.node (.interrupt nowUs state)
  | .alarm none | .simulator _ | .read _ _ _ => True

instance (b : Bench) : (a : Label) → Decidable (Fits b a)
  | .alarm (some (nowUs, state)) =>
    inferInstanceAs (Decidable (PendingFits b.node (.interrupt nowUs state)))
  | .alarm none | .simulator _ | .read _ _ _ => .isTrue trivial

/-- Moreover the speed is not set. -/
def Steady (b : Bench) : Label → Prop
  | .simulator label => setsSpeed b.simulator label = false
  | .alarm seen => Fits b (.alarm seen)
  | .read _ _ _ => True

instance (b : Bench) : (a : Label) → Decidable (Steady b a)
  | .simulator label => inferInstanceAs (Decidable (setsSpeed b.simulator label = false))
  | .alarm seen => inferInstanceAs (Decidable (Fits b (.alarm seen)))
  | .read _ _ _ => .isTrue trivial

theorem fits_of_steady (b : Bench) (a : Label) (h : Steady b a) : Fits b a := by
  cases a with
  | simulator label => trivial
  | alarm seen => exact h
  | read nowUs count value => trivial

/-- The fields of the encoder belong to its speed. -/
structure Geared (encoder : EncoderState) : Prop where
  bounded : encoder.rpm.toInt.natAbs ≤ 3000
  absolute : encoder.absoluteRpm.toNat = encoder.rpm.toInt.natAbs
  direction : encoder.rpm ≠ 0 → encoder.direction.toInt = encoder.rpm.toInt.sign
  timed : encoder.rpm ≠ 0 → Timed (128 * encoder.rpm.toInt.natAbs) encoder

theorem boundedRpm_bounded (rpm : Int32) : (boundedRpm rpm).toInt.natAbs ≤ 3000 := by
  have hmax : maxAbsoluteRpm.toInt = 3000 := by decide
  have hmin : (-maxAbsoluteRpm).toInt = -3000 := by decide
  unfold boundedRpm
  simp only [Int32.lt_iff_toInt_lt, hmax, hmin]
  split_ifs <;> omega

theorem boundedRpm_boundedRpm (rpm : Int32) : boundedRpm (boundedRpm rpm) = boundedRpm rpm :=
  boundedRpm_eq (boundedRpm_bounded rpm)

theorem natAbs_pos {rpm : Int32} (h : rpm ≠ 0) : 1 ≤ rpm.toInt.natAbs := by
  have hne : rpm.toInt ≠ 0 := fun hzero => h (Int32.toInt_inj.mp hzero)
  omega

theorem geared_setEncoderRpm (rpm : Int32) (encoder : EncoderState) :
    Geared (setEncoderRpm rpm encoder) := by
  have hsame : setEncoderRpm rpm encoder = setEncoderRpm (boundedRpm rpm) encoder := by
    simp only [setEncoderRpm, boundedRpm_boundedRpm]
  have hbounded := boundedRpm_bounded rpm
  obtain ⟨hrpm, habsolute, -⟩ := setEncoderRpm_of_bounded hbounded encoder
  rw [hsame]
  refine ⟨?_, ?_, fun hne => ?_, fun hne => ?_⟩
  · rwa [hrpm]
  · rw [hrpm, habsolute]
  · rw [hrpm] at hne ⊢
    exact direction_toInt (natAbs_pos hne) hbounded encoder
  · rw [hrpm] at hne ⊢
    exact setEncoderRpm_timed (natAbs_pos hne) hbounded encoder

theorem Geared.alarm {wheel : Wheel} (h : Geared wheel.encoder) :
    Geared (wheel.after .alarm).encoder := by
  rw [after_alarm_encoder]
  have hmoved : Geared (moveStateIndex wheel.encoder) := by
    rw [moveStateIndex_eq]
    exact ⟨h.bounded, h.absolute, h.direction, fun hne => ⟨(h.timed hne).1, (h.timed hne).2⟩⟩
  have hframe := nextIntervalLocked_frame (moveStateIndex wheel.encoder)
  refine ⟨?_, ?_, ?_, ?_⟩
  · rw [hframe]
    exact hmoved.bounded
  · rw [hframe]
    exact hmoved.absolute
  · rw [hframe]
    exact hmoved.direction
  · have hrpm : (nextIntervalLocked (moveStateIndex wheel.encoder)).2.rpm =
        (moveStateIndex wheel.encoder).rpm := by rw [hframe]
    rw [hrpm]
    intro hne
    have hlow := natAbs_pos hne
    have hhigh := hmoved.bounded
    exact (hmoved.timed hne).next (by omega) (by omega)

/-- Between two steps the outputs show the index, and the encoder is geared to its speed. -/
structure Ready (wheel : Wheel) : Prop where
  sound : wheel.Sound
  geared : Geared wheel.encoder

theorem Ready.after {wheel : Wheel} (h : Ready wheel) (event : Event) :
    Ready (wheel.after event) := by
  refine ⟨h.sound.after event, ?_⟩
  cases event with
  | setRpm rpm => exact geared_setEncoderRpm rpm wheel.encoder
  | alarm => exact h.geared.alarm

/-- A step leaves the wheel alone, sets a speed or is an alarm. -/
theorem wheel_cases {s t : Simulator} {a : WheelSimulator.Label}
    (hs : WheelSimulator.step s a = some t) :
    t.wheel = s.wheel ∨ (setsSpeed s a = true ∧ ∃ rpm, t.wheel = s.wheel.after (.setRpm rpm)) ∨
      (a = .alarm ∧ t.wheel = s.wheel.after .alarm) := by
  cases a with
  | command command =>
    cases hconsole : s.console with
    | executing busy => simp [WheelSimulator.step, hconsole] at hs
    | ready =>
      simp only [WheelSimulator.step, hconsole, Option.some.injEq] at hs
      subst hs
      left
      unfold beginCommand
      split
      · cases command <;> rfl
      · rfl
  | console =>
    cases hconsole : s.console with
    | ready => simp [WheelSimulator.step, hconsole] at hs
    | executing command =>
      simp only [WheelSimulator.step, hconsole, Option.some.injEq] at hs
      subst hs
      simp only [setsSpeed, hconsole]
      cases command with
      | rpm value => exact .inr (.inl ⟨rfl, value, rfl⟩)
      | sweep startRpm endRpm stepRpm dwell => exact .inr (.inl ⟨rfl, startRpm, rfl⟩)
      | stop => exact .inr (.inl ⟨rfl, 0, rfl⟩)
      | cancel | status | help | unknown => exact .inl rfl
  | sweepTask =>
    obtain rfl := Option.some.inj hs
    unfold sweepTaskStep setsSpeed
    cases s.sweepTask with
    | idle =>
      left
      dsimp only
      split <;> rfl
    | check current rpm =>
      left
      dsimp only
      split <;> rfl
    | set current rpm => exact .inr (.inl ⟨rfl, rpm, rfl⟩)
    | dwell current rpm =>
      left
      dsimp only
      split <;> rfl
    | finish current => exact .inl rfl
    | zero => exact .inr (.inl ⟨rfl, 0, rfl⟩)
  | alarm =>
    obtain rfl := Option.some.inj hs
    exact .inr (.inr ⟨rfl, rfl⟩)

theorem ready_start (early : ℕ) : Ready (Simulator.start early).wheel := by
  refine ⟨?_, geared_setEncoderRpm defaultRpm _⟩
  have hstart : Wheel.start.Sound := ⟨by decide, .inl rfl, rfl⟩
  have hearly : ∀ n (wheel : Wheel), wheel.Sound → (wheel.alarms n).Sound := by
    intro n
    induction n with
    | zero => exact fun _ h => h
    | succ n ih => exact fun wheel h => ih _ (h.after .alarm)
  exact (hearly early _ hstart).after (.setRpm defaultRpm)

theorem Ready.step {s t : Simulator} {a : WheelSimulator.Label} (h : Ready s.wheel)
    (hs : WheelSimulator.step s a = some t) : Ready t.wheel := by
  rcases wheel_cases hs with hsame | ⟨-, rpm, hafter⟩ | ⟨-, hafter⟩
  · rwa [hsame]
  · rw [hafter]
    exact h.after (.setRpm rpm)
  · rw [hafter]
    exact h.after .alarm

/-- The remainder that the simulator keeps for its next interval. -/
def kept (b : Bench) : ℤ := b.simulator.wheel.encoder.fractionalAccumulator.toNat

/-- The counts a minute of the simulator's speed. -/
def countsPerMinute (rpm : Int32) : ℕ := 128 * rpm.toInt.natAbs

/-- What an alarm of a turning wheel does. -/
structure Turned (b c : Bench) : Prop where
  rpm : c.simulator.rpm = b.simulator.rpm
  turn : turn (readLevels b.simulator.wheel.levels) (readLevels c.simulator.wheel.levels) =
    -b.simulator.rpm.toInt.sign
  total : countsPerMinute b.simulator.rpm * (c.alarmUs - b.alarmUs) + kept c = 60000000 + kept b
  later : b.alarmUs < c.alarmUs

theorem turning_of_ready {wheel : Wheel} (h : Ready wheel) (hrpm : wheel.encoder.rpm ≠ 0) :
    Turning (countsPerMinute wheel.encoder.rpm) wheel ∧
      128 ≤ countsPerMinute wheel.encoder.rpm ∧ countsPerMinute wheel.encoder.rpm ≤ 384000 := by
  have habsolute := h.geared.absolute
  have hbounded := h.geared.bounded
  have hpos := natAbs_pos hrpm
  unfold countsPerMinute
  refine ⟨⟨h.sound, h.geared.timed hrpm, fun hzero => ?_⟩, by omega, by omega⟩
  rw [hzero, UInt32.toNat_zero] at habsolute
  omega

/-- The interval and the remainder of one alarm. -/
theorem alarm_total {d : ℕ} {wheel : Wheel} (h : Turning d wheel) (hlow : 128 ≤ d)
    (hd : d ≤ 384000) :
    d * (edgeAlarmCallback wheel).1.toNat +
        (wheel.after .alarm).encoder.fractionalAccumulator.toNat =
      wheel.encoder.fractionalAccumulator.toNat + 60000000 ∧
      0 < (edgeAlarmCallback wheel).1.toNat := by
  have hmove : moveStateIndex wheel.encoder = { wheel.encoder with
      stateIndex := nextStateIndex wheel.encoder.stateIndex wheel.encoder.direction } :=
    if_pos h.rpm
  have hmoved : Timed d (moveStateIndex wheel.encoder) := by
    rw [hmove]
    exact ⟨h.timed.denominator, h.timed.kept⟩
  have hinterval : (edgeAlarmCallback wheel).1.toNat = (carriedBase wheel.encoder).1.toNat := by
    change (nextIntervalLocked (moveStateIndex wheel.encoder)).1.toNat = _
    rw [(nextIntervalLocked_toNat hmoved hd hlow).1, hmove]
    rfl
  obtain ⟨hbase, haccumulator⟩ := carriedBase_toNat h.timed hd
  rw [hinterval, h.encoder_after hd hlow]
  refine ⟨?_, (carriedBase_bounds h.timed hd hlow).1⟩
  rw [hbase, haccumulator]
  exact part_total 60000000 d _

theorem alarmed_turned {b : Bench} (h : Ready b.simulator.wheel) (hrpm : b.simulator.rpm ≠ 0) :
    Turned b (alarmed b) := by
  obtain ⟨hturning, hlow, hd⟩ := turning_of_ready h hrpm
  obtain ⟨htotal, hpos⟩ := alarm_total hturning hlow hd
  have hafter := hturning.encoder_after hd hlow
  have halarm : (alarmed b).alarmUs = b.alarmUs + (edgeAlarmCallback b.simulator.wheel).1.toNat :=
    rfl
  refine ⟨?_, ?_, ?_, by omega⟩
  · change (b.simulator.wheel.after .alarm).encoder.rpm = b.simulator.wheel.encoder.rpm
    rw [hafter]
  · change BearingEncoder.turn _ (readLevels (b.simulator.wheel.after .alarm).levels) = _
    rw [← encoderTransition_eq_turn, h.sound.levels, (h.after .alarm).sound.levels, hafter,
      nextStateIndex_encoderTransition h.sound.index h.sound.direction, h.geared.direction hrpm]
    rfl
  · rw [halarm, add_sub_cancel_left]
    have hcast := congrArg (Nat.cast (R := ℤ)) (htotal.trans (Nat.add_comm _ _))
    push_cast at hcast
    exact hcast

theorem readLevels_ne {b : Bench} (h : Turned b (alarmed b)) (hrpm : b.simulator.rpm ≠ 0) :
    (alarmed b).simulator.wheel.levels ≠ b.simulator.wheel.levels := by
  intro hsame
  have hturn := h.turn
  rw [hsame] at hturn
  simp [BearingEncoder.turn] at hturn
  exact hrpm (Int32.toInt_inj.mp hturn)

theorem alarm_cases {b c : Bench} {seen : Option (ℤ × AbState)}
    (hs : step b (.alarm seen) = some c) :
    seen = seenByNode b ∧ (seen = none ∧ c = alarmed b ∨ ∃ edge node, seen = some edge ∧
      BearingEncoder.step b.node (.interrupt edge.1 edge.2) = some node ∧
      c = { alarmed b with node := node }) := by
  simp only [step, Option.ite_none_right_eq_some] at hs
  obtain ⟨hseen, hs⟩ := hs
  refine ⟨hseen, ?_⟩
  rcases seen with - | ⟨nowUs, state⟩
  · exact .inl ⟨rfl, (Option.some.inj hs).symm⟩
  · obtain ⟨node, hnode, rfl⟩ := Option.map_eq_some_iff.mp hs
    exact .inr ⟨(nowUs, state), node, rfl, hnode, rfl⟩

theorem read_cases {b c : Bench} {nowUs count value : ℤ}
    (hs : step b (.read nowUs count value) = some c) :
    nowUs < b.alarmUs ∧ ∃ node, BearingEncoder.step b.node (.read nowUs count value) = some node ∧
      c = { b with node := node } := by
  simp only [step, Option.ite_none_right_eq_some] at hs
  obtain ⟨hearly, hs⟩ := hs
  obtain ⟨node, hnode, rfl⟩ := Option.map_eq_some_iff.mp hs
  exact ⟨hearly, node, hnode, rfl⟩

theorem simulator_cases {b c : Bench} {label : WheelSimulator.Label}
    (hs : step b (.simulator label) = some c) :
    ∃ simulator, c = { b with simulator := simulator } ∧
      (simulator.wheel = b.simulator.wheel ∨ setsSpeed b.simulator label = true ∧
        ∃ rpm, simulator.wheel = b.simulator.wheel.after (.setRpm rpm)) := by
  simp only [step, Option.ite_none_left_eq_some] at hs
  obtain ⟨halarm, hs⟩ := hs
  obtain ⟨simulator, hsimulator, rfl⟩ := Option.map_eq_some_iff.mp hs
  refine ⟨simulator, rfl, ?_⟩
  rcases wheel_cases hsimulator with hsame | hset | ⟨rfl, -⟩
  · exact .inl hsame
  · exact .inr hset
  · exact absurd rfl halarm

theorem interrupt_step {s t : Encoder} {nowUs : ℤ} {state : AbState}
    (hs : BearingEncoder.step s (.interrupt nowUs state) = some t) :
    s.timeUs < nowUs ∧ t.timeUs = nowUs := by
  simp only [BearingEncoder.step, Option.ite_none_right_eq_some, Option.some.injEq] at hs
  obtain ⟨⟨htime, -⟩, rfl⟩ := hs
  exact ⟨htime, rfl⟩

theorem read_times {s t : Encoder} {nowUs count value : ℤ}
    (hs : BearingEncoder.step s (.read nowUs count value) = some t) :
    s.timeUs < nowUs ∧ t.timeUs = nowUs := by
  simp only [BearingEncoder.step, Option.ite_none_right_eq_some, Option.some.injEq] at hs
  obtain ⟨⟨⟨htime, -⟩, -⟩, rfl⟩ := hs
  exact ⟨htime, rfl⟩

theorem actions_append (xs ys : List Label) : actions (xs ++ ys) = actions xs ++ actions ys := by
  simp [actions]

/-- The node's last state shows the outputs. -/
structure Followed (first : AbState) (labels : List Label) (b : Bench) : Prop where
  ready : Ready b.simulator.wheel
  state : BearingRpm.stateAfter first (actions labels) = readLevels b.simulator.wheel.levels

section Steps
variable {first : AbState} {labels : List Label} {b c : Bench} {a : Label}

theorem Followed.step (h : Followed first labels b) (hs : step b a = some c) :
    Followed first (labels ++ [a]) c := by
  cases a with
  | simulator label =>
    obtain ⟨simulator, rfl, hwheel⟩ := simulator_cases hs
    have hready : Ready simulator.wheel ∧ simulator.wheel.levels = b.simulator.wheel.levels := by
      rcases hwheel with hsame | ⟨-, rpm, hset⟩
      · rw [hsame]
        exact ⟨h.ready, rfl⟩
      · rw [hset]
        exact ⟨h.ready.after (.setRpm rpm), rfl⟩
    refine ⟨hready.1, ?_⟩
    rw [actions_append, BearingRpm.stateAfter_append, h.state]
    exact congrArg readLevels hready.2.symm
  | alarm seen =>
    obtain ⟨hseen, ⟨hnone, rfl⟩ | ⟨edge, node, hsome, -, rfl⟩⟩ := alarm_cases hs
    · refine ⟨h.ready.after .alarm, ?_⟩
      rw [actions_append, BearingRpm.stateAfter_append, h.state, hnone]
      rw [hseen, seenByNode] at hnone
      split at hnone
      · next hsame => exact congrArg readLevels hsame.symm
      · simp at hnone
    · refine ⟨h.ready.after .alarm, ?_⟩
      rw [actions_append, BearingRpm.stateAfter_append, hsome]
      rw [hseen, seenByNode] at hsome
      split at hsome
      · simp at hsome
      · exact congrArg Prod.snd (Option.some.inj hsome).symm
  | read nowUs count value =>
    obtain ⟨-, node, -, rfl⟩ := read_cases hs
    refine ⟨h.ready, ?_⟩
    rw [actions_append, BearingRpm.stateAfter_append, h.state]
    rfl

/-- What a step does while the speed is not set. -/
inductive Turns (b : Bench) : Label → Bench → Prop
  | alarm {c : Bench} (hturned : Turned b c) (hbefore : b.node.timeUs < b.alarmUs)
    (htime : c.node.timeUs = b.alarmUs) :
    Turns b (.alarm (some (b.alarmUs, readLevels c.simulator.wheel.levels))) c
  | other {c : Bench} {a : Label} (hwheel : c.simulator.wheel = b.simulator.wheel)
    (halarm : c.alarmUs = b.alarmUs) (hactions : actions [a] = []) (hnode : c.node = b.node)
    (hnone : ∀ seen, a ≠ .alarm seen) : Turns b a c
  | read {c : Bench} {nowUs count value : ℤ} (hwheel : c.simulator.wheel = b.simulator.wheel)
    (halarm : c.alarmUs = b.alarmUs) (hlater : b.node.timeUs < nowUs)
    (htime : c.node.timeUs = nowUs) (hearly : nowUs < b.alarmUs) :
    Turns b (.read nowUs count value) c

theorem turns (h : Followed first labels b) (hrpm : b.simulator.rpm ≠ 0) (hc : Steady b a)
    (hs : step b a = some c) : Turns b a c := by
  cases a with
  | simulator label =>
    obtain ⟨simulator, rfl, hsame | ⟨hset, -⟩⟩ := simulator_cases hs
    · exact .other hsame rfl rfl rfl (fun _ => nofun)
    · exact absurd (hset.symm.trans hc) (by decide)
  | alarm seen =>
    have hturned := alarmed_turned h.ready hrpm
    have hchanged : seenByNode b =
        some (b.alarmUs, readLevels (alarmed b).simulator.wheel.levels) :=
      if_neg (readLevels_ne hturned hrpm)
    obtain ⟨rfl, ⟨hnone, -⟩ | ⟨edge, node, hsome, hnode, rfl⟩⟩ := alarm_cases hs
    · rw [hchanged] at hnone
      simp at hnone
    · rw [hchanged] at hsome ⊢
      obtain rfl := Option.some.inj hsome
      obtain ⟨hbefore, htime⟩ := interrupt_step hnode
      exact @Turns.alarm b { alarmed b with node := node }
        ⟨hturned.rpm, hturned.turn, hturned.total, hturned.later⟩ hbefore htime
  | read nowUs count value =>
    obtain ⟨hearly, node, hnode, rfl⟩ := read_cases hs
    obtain ⟨hlater, htime⟩ := read_times hnode
    exact .read rfl rfl hlater htime hearly

/-- The last turn that the node saw is the last alarm, one interval before the next. -/
structure Lately (first : AbState) (labels : List Label) (b : Bench) : Prop where
  before : b.node.timeUs < b.alarmUs
  last : ∃ t, BearingRpm.lastTurnUs first (actions labels) = some t ∧ t ≤ b.node.timeUs ∧
    countsPerMinute b.simulator.rpm * (b.alarmUs - t) + kept b <
      60000000 + countsPerMinute b.simulator.rpm

theorem kept_lt (h : Followed first labels b) (hrpm : b.simulator.rpm ≠ 0) :
    0 ≤ kept b ∧ kept b < countsPerMinute b.simulator.rpm := by
  have hkept := (h.ready.geared.timed hrpm).kept
  exact ⟨Int.natCast_nonneg _, Int.ofNat_lt.mpr hkept⟩

theorem lately_alarm (h : Followed first labels b) (hrpm : b.simulator.rpm ≠ 0)
    (hturned : Turned b c) (htime : c.node.timeUs = b.alarmUs) :
    Lately first
      (labels ++ [.alarm (some (b.alarmUs, readLevels c.simulator.wheel.levels))]) c := by
  have hsign : b.simulator.rpm.toInt ≠ 0 := fun hzero => hrpm (Int32.toInt_inj.mp hzero)
  have hsingle : SingleBit (BearingRpm.stateAfter first (actions labels))
      (readLevels c.simulator.wheel.levels) := by
    rw [← turn_ne_zero_iff, h.state, hturned.turn, neg_ne_zero, Ne, Int.sign_eq_zero_iff_zero]
    exact hsign
  have hkept := (kept_lt h hrpm).2
  have htotal := hturned.total
  have hlater := hturned.later
  refine ⟨by omega, b.alarmUs, ?_, htime.ge, ?_⟩
  · rw [actions_append, BearingRpm.lastTurnUs_append]
    change ((none : Option ℤ).or (if SingleBit _ _ then _ else none)).or _ = _
    rw [if_pos hsingle]
    rfl
  · rw [hturned.rpm]
    omega

theorem Lately.step (h : Lately first labels b) (hfollowed : Followed first labels b)
    (hrpm : b.simulator.rpm ≠ 0) (hturns : Turns b a c) : Lately first (labels ++ [a]) c := by
  obtain ⟨hbefore, t, hlast, hle, hshort⟩ := h
  cases hturns with
  | alarm hturned _ htime => exact lately_alarm hfollowed hrpm hturned htime
  | other hwheel halarm hactions hnode hnone =>
    rw [← hnode] at hbefore hle
    refine ⟨by omega, t, ?_, hle, ?_⟩
    · rwa [actions_append, hactions, List.append_nil]
    · rw [Simulator.rpm, kept, hwheel, halarm]
      exact hshort
  | read hwheel halarm hlater htime hearly =>
    refine ⟨by omega, t, ?_, by omega, ?_⟩
    · rw [actions_append, BearingRpm.lastTurnUs_append, hlast]
      rfl
    · rw [Simulator.rpm, kept, hwheel, halarm]
      exact hshort

/-- The `k` alarms since a state in which the node had seen all of them. -/
structure Spanned (b₁ : Bench) (labels : List Label) (b : Bench) (k : ℕ) : Prop where
  rpm : b.simulator.rpm = b₁.simulator.rpm
  net : BearingRpm.net (readLevels b₁.simulator.wheel.levels) (actions labels) =
    -b₁.simulator.rpm.toInt.sign * k
  total : countsPerMinute b₁.simulator.rpm * (b.alarmUs - b₁.alarmUs) + kept b =
    k * 60000000 + kept b₁
  seen : 0 < k → ((k : ℤ) - 1) * 60000000 <
    countsPerMinute b₁.simulator.rpm * (b.node.timeUs - b₁.alarmUs) +
      countsPerMinute b₁.simulator.rpm

theorem spanned_nil (b : Bench) : Spanned b [] b 0 :=
  ⟨rfl, by simp [actions, BearingRpm.net], by simp, fun h => absurd h (Nat.lt_irrefl 0)⟩

theorem Spanned.step {b₁ : Bench} {k : ℕ} (h : Spanned b₁ labels b k)
    (hfollowed : Followed (readLevels b₁.simulator.wheel.levels) labels b)
    (hrpm : b.simulator.rpm ≠ 0) (hturns : Turns b a c) :
    ∃ k, Spanned b₁ (labels ++ [a]) c k := by
  have hkept := (kept_lt hfollowed hrpm).2
  have hfirst : 0 ≤ kept b₁ := Int.natCast_nonneg _
  obtain ⟨hsame, hnet, htotal, hseen⟩ := h
  rw [hsame] at hkept
  cases hturns with
  | alarm hturned hbefore htime =>
    have hstep := hturned.total
    rw [hsame] at hstep
    refine ⟨k + 1, hturned.rpm.trans hsame, ?_, ?_, fun _ => ?_⟩
    · rw [actions_append, BearingRpm.net_append, hnet, hfollowed.state]
      change _ + (BearingEncoder.turn _ _ + 0) = _
      rw [hturned.turn, hsame]
      push_cast
      ring
    · push_cast
      linarith
    · rw [htime]
      push_cast
      linarith
  | other hwheel halarm hactions hnode hnone =>
    refine ⟨k, ?_, ?_, ?_, ?_⟩
    · rw [Simulator.rpm, hwheel]
      exact hsame
    · rwa [actions_append, hactions, List.append_nil]
    · rw [kept, hwheel, halarm]
      exact htotal
    · rwa [hnode]
  | @read _ nowUs count value hwheel halarm hlater htime hearly =>
    refine ⟨k, ?_, ?_, ?_, fun hk => ?_⟩
    · rw [Simulator.rpm, hwheel]
      exact hsame
    · have hnone : BearingRpm.net (readLevels b.simulator.wheel.levels)
          (actions [.read nowUs count value]) = 0 := rfl
      rw [actions_append, BearingRpm.net_append, hnet, hfollowed.state, hnone, add_zero]
    · rw [kept, hwheel, halarm]
      exact htotal
    · have hmore : (countsPerMinute b₁.simulator.rpm : ℤ) * (b.node.timeUs - b₁.alarmUs) ≤
          countsPerMinute b₁.simulator.rpm * (c.node.timeUs - b₁.alarmUs) :=
        mul_le_mul_of_nonneg_left (by omega) (Int.natCast_nonneg _)
      exact (hseen hk).trans_le (by linarith)

end Steps

section Runs
variable {first : AbState} {labels past before window : List Label} {b c c' : Bench}
  {nowUs count value : ℤ}

theorem followed_start (simulator : Simulator) (h : Ready simulator.wheel) (alarmUs : ℤ)
    (context : EncoderContext) (startUs : ℕ) :
    Followed (readLevels simulator.wheel.levels) []
      (.start simulator alarmUs context startUs) :=
  ⟨h, rfl⟩

theorem followed_of_run {C : Bench → Label → Prop} (h : Run step C b labels c)
    (hb : Followed first past b) : Followed first (past ++ labels) c := by
  induction h with
  | nil => rwa [List.append_nil]
  | snoc _ _ hs ih =>
    rw [← List.append_assoc]
    exact ih.step hs

/-- The node's part of a run is a run of the node. -/
theorem node_of_run (h : Run step Fits b labels c) :
    Run BearingEncoder.step PendingFits b.node (actions labels) c.node := by
  induction h with
  | nil => exact .nil _
  | @snoc t u labels a _ hc hs ih =>
    rw [actions_append]
    cases a with
    | simulator label =>
      obtain ⟨simulator, rfl, -⟩ := simulator_cases hs
      exact ih.trans (.nil _)
    | alarm seen =>
      obtain ⟨-, ⟨rfl, rfl⟩ | ⟨edge, node, rfl, hnode, rfl⟩⟩ := alarm_cases hs
      · exact ih.trans (.nil _)
      · exact ih.snoc hc hnode
    | read nowUs count value =>
      obtain ⟨-, node, hnode, rfl⟩ := read_cases hs
      exact ih.snoc trivial hnode

theorem rpm_of_steady (h : Run step Steady b labels c) (hb : Followed first past b)
    (hrpm : b.simulator.rpm ≠ 0) : c.simulator.rpm = b.simulator.rpm := by
  induction h with
  | nil => rfl
  | snoc hrun hc hs ih =>
    have hsame := ih
    have hfollowed := followed_of_run hrun.free hb
    cases turns hfollowed (hsame ▸ hrpm) hc hs with
    | alarm hturned => exact hturned.rpm.trans hsame
    | other hwheel | read hwheel =>
      rw [Simulator.rpm, hwheel]
      exact hsame

/-- After an alarm at a steady speed the node has lately seen one. -/
theorem lately_of_run (h : Run step Steady b labels c) (hb : Followed first past b)
    (hrpm : b.simulator.rpm ≠ 0) (halarm : ∃ seen, .alarm seen ∈ labels) :
    Lately first (past ++ labels) c := by
  induction h with
  | nil => simp at halarm
  | @snoc t u labels a hrun hc hs ih =>
    have hfollowed := followed_of_run hrun.free hb
    have hsame : t.simulator.rpm ≠ 0 := (rpm_of_steady hrun hb hrpm) ▸ hrpm
    have hturns := turns hfollowed hsame hc hs
    rw [← List.append_assoc]
    obtain ⟨seen, hseen⟩ := halarm
    rcases List.mem_append.mp hseen with hold | hnew
    · exact (ih ⟨seen, hold⟩).step hfollowed hsame hturns
    · obtain rfl := List.mem_singleton.mp hnew
      cases hturns with
      | alarm hturned _ htime => exact lately_alarm hfollowed hsame hturned htime
      | other _ _ _ _ hnone => exact absurd rfl (hnone seen)

theorem spanned_of_run (h : Run step Steady b labels c)
    (hb : Followed (readLevels b.simulator.wheel.levels) [] b) (hrpm : b.simulator.rpm ≠ 0) :
    ∃ k, Spanned b labels c k := by
  induction h with
  | nil => exact ⟨0, spanned_nil _⟩
  | snoc hrun hc hs ih =>
    obtain ⟨k, hk⟩ := ih
    have hfollowed := followed_of_run hrun.free hb
    have hsame := (rpm_of_steady hrun hb hrpm) ▸ hrpm
    exact hk.step hfollowed hsame (turns hfollowed hsame hc hs)

/-- A wheel that stands still makes no interrupts. -/
theorem still_of_run (h : Run step Steady b labels c) (hb : Followed first past b)
    (hrpm : b.simulator.rpm = 0) : c.simulator.rpm = 0 ∧
      BearingRpm.lastTurnUs first (actions (past ++ labels)) =
        BearingRpm.lastTurnUs first (actions past) := by
  induction h with
  | nil => exact ⟨hrpm, by rw [List.append_nil]⟩
  | @snoc t u labels a hrun hc hs ih =>
    obtain ⟨hzero, hlast⟩ := ih
    have hready := (followed_of_run hrun.free hb).ready
    rw [← List.append_assoc, actions_append, BearingRpm.lastTurnUs_append, hlast]
    cases a with
    | simulator label =>
      obtain ⟨simulator, rfl, hsame | ⟨hset, -⟩⟩ := simulator_cases hs
      · refine ⟨?_, Option.none_or⟩
        rw [Simulator.rpm, hsame]
        exact hzero
      · exact absurd (hset.symm.trans hc) (by decide)
    | alarm seen =>
      have habsolute : t.simulator.wheel.encoder.absoluteRpm = 0 := by
        have hsame := hready.geared.absolute
        unfold Simulator.rpm at hzero
        rw [hzero] at hsame
        exact UInt32.toNat_inj.mp hsame
      have hmove : moveStateIndex t.simulator.wheel.encoder = t.simulator.wheel.encoder :=
        if_neg (not_not.mpr habsolute)
      have hlevels : (alarmed t).simulator.wheel.levels = t.simulator.wheel.levels := by
        rw [hready.sound.levels]
        change quadratureLevels (moveStateIndex t.simulator.wheel.encoder).stateIndex = _
        rw [hmove]
      have hspeed : (alarmed t).simulator.rpm = 0 := by
        rw [← hzero]
        exact rpm_alarm t.simulator.wheel
      have hunseen : seenByNode t = none := if_pos hlevels
      obtain ⟨rfl, ⟨-, rfl⟩ | ⟨edge, node, hsome, -⟩⟩ := alarm_cases hs
      · rw [hunseen]
        exact ⟨hspeed, Option.none_or⟩
      · rw [hunseen] at hsome
        simp at hsome
    | read nowUs count value =>
      obtain ⟨-, node, -, rfl⟩ := read_cases hs
      exact ⟨hzero, Option.none_or⟩

/-- The start of a span is the node's last step. -/
theorem lastReadUs_of_span {startUs : ℤ} {s t : Encoder} {head tail : List Action}
    (hspan : BearingRpm.IsSpan head tail) (hne : head ≠ [])
    (hrun : Run BearingEncoder.step PendingFits s head t) :
    BearingRpm.lastReadUs startUs head = t.timeUs := by
  rcases hspan with ⟨hnil, -⟩ | ⟨-, front, readUs, count, value, rfl⟩
  · exact absurd hnil hne
  · obtain ⟨u, -, -, hs⟩ := hrun.last
    rw [BearingRpm.lastReadUs_append, (read_times hs).2]
    rfl

/-- Over a span of `elapsed` the number of alarms is that of the exact speed to within one. -/
theorem abs_alarms_lt {b₁ : Bench} {k : ℕ} (hlately : Lately first past b₁)
    (hspanned : Spanned b₁ window c k) (hafter : b₁.node.timeUs ≤ c.node.timeUs)
    (hseen : c.node.timeUs < nowUs) (hdue : nowUs < c.alarmUs) :
    |(k : ℤ) * 60000000 -
      countsPerMinute b₁.simulator.rpm * (nowUs - b₁.node.timeUs)| < 60000000 := by
  obtain ⟨hbefore, t, -, hle, hshort⟩ := hlately
  obtain ⟨-, -, htotal, hfirst⟩ := hspanned
  have hkept : 0 ≤ kept c := Int.natCast_nonneg _
  have hd : (0 : ℤ) ≤ countsPerMinute b₁.simulator.rpm := Int.natCast_nonneg _
  generalize (countsPerMinute b₁.simulator.rpm : ℤ) = d at *
  have hlast : d * (b₁.alarmUs - b₁.node.timeUs) ≤ d * (b₁.alarmUs - t) :=
    mul_le_mul_of_nonneg_left (by omega) hd
  have hnext : d * (nowUs - b₁.alarmUs) ≤ d * (c.alarmUs - b₁.alarmUs - 1) :=
    mul_le_mul_of_nonneg_left (by omega) hd
  have hsplit : d * (nowUs - b₁.node.timeUs) =
      d * (nowUs - b₁.alarmUs) + d * (b₁.alarmUs - b₁.node.timeUs) := by ring
  rw [abs_lt]
  refine ⟨by linarith, ?_⟩
  rcases Nat.eq_zero_or_pos k with rfl | hk
  · have hpositive : 0 ≤ d * (nowUs - b₁.node.timeUs) := mul_nonneg hd (by omega)
    push_cast
    linarith
  · have hseen : d * (c.node.timeUs - b₁.alarmUs + 1) ≤ d * (nowUs - b₁.node.timeUs) :=
      mul_le_mul_of_nonneg_left (by omega) hd
    have hmany := hfirst hk
    linarith

/-- The average over a span that has the right number of counts to within one. -/
theorem abs_spanRpm_add_lt {k : ℕ} {r elapsedUs : ℤ} (helapsed : 0 < elapsedUs)
    (hr : r.natAbs ≤ 3000)
    (hk : |(k : ℤ) * 60000000 - ((128 * r.natAbs : ℕ) : ℤ) * elapsedUs| < 60000000) :
    |BearingRpm.spanRpm (-r.sign * k) elapsedUs + r| * (128 * elapsedUs) <
      64 * elapsedUs + 60000000 := by
  have hsign : |r.sign| ≤ 1 := by
    rcases Int.sign_trichotomy r with h | h | h <;> rw [h] <;> decide
  have hmany : (k : ℤ) ≤ elapsedUs := by
    have hless := (abs_lt.mp hk).2
    have hslow : ((128 * r.natAbs : ℕ) : ℤ) * elapsedUs ≤ 384000 * elapsedUs :=
      mul_le_mul_of_nonneg_right (by omega) helapsed.le
    omega
  have hcount : |-r.sign * (k : ℤ)| ≤ elapsedUs := by
    rw [abs_mul, abs_neg, Nat.abs_cast]
    exact (mul_le_of_le_one_left (Int.natCast_nonneg k) hsign).trans hmany
  have hnear := abs_roundAway_sub_le
    (((60000000 * (-r.sign * k) : ℤ) : ℚ) / ((128 * elapsedUs : ℤ) : ℚ))
  rw [← BearingRpm.spanRpm_eq helapsed hcount] at hnear
  -- the exact average misses the speed by less than one count
  have hcounts : |60000000 * (-r.sign * k) + 128 * elapsedUs * r| < 60000000 := by
    have hsplit : 60000000 * (-r.sign * (k : ℤ)) + 128 * elapsedUs * r =
        -r.sign * (k * 60000000 - ((128 * r.natAbs : ℕ) : ℤ) * elapsedUs) := by
      calc 60000000 * (-r.sign * (k : ℤ)) + 128 * elapsedUs * r
          = 60000000 * (-r.sign * (k : ℤ)) + 128 * elapsedUs * (r.sign * r.natAbs) := by
            rw [Int.sign_mul_natAbs]
        _ = _ := by
            rw [Nat.cast_mul, Nat.cast_ofNat]
            ring
    rw [hsplit, abs_mul, abs_neg]
    exact (mul_le_of_le_one_left (abs_nonneg _) hsign).trans_lt hk
  have hdenominator : (0 : ℚ) < ((128 * elapsedUs : ℤ) : ℚ) := by
    exact_mod_cast (by omega : 0 < 128 * elapsedUs)
  have hcounts : |((60000000 * (-r.sign * k) + 128 * elapsedUs * r : ℤ) : ℚ)| < 60000000 := by
    exact_mod_cast hcounts
  have hmiss : |((60000000 * (-r.sign * k) : ℤ) : ℚ) / ((128 * elapsedUs : ℤ) : ℚ) + r| *
      ((128 * elapsedUs : ℤ) : ℚ) < 60000000 := by
    rw [← abs_of_pos hdenominator, ← abs_mul, abs_of_pos hdenominator, add_mul,
      div_mul_cancel₀ _ hdenominator.ne']
    push_cast at hcounts ⊢
    rwa [mul_comm (r : ℚ)]
  generalize ((60000000 * (-r.sign * k) : ℤ) : ℚ) / ((128 * elapsedUs : ℤ) : ℚ) = average at *
  generalize BearingRpm.spanRpm (-r.sign * k) elapsedUs = value at *
  have htriangle : |(value : ℚ) + r| ≤ |(value : ℚ) - average| + |average + r| := by
    have hsum : (value : ℚ) + r = value - average + (average + r) := by ring
    rw [hsum]
    exact abs_add_le _ _
  have hbound : |(value : ℚ) + r| * ((128 * elapsedUs : ℤ) : ℚ) <
      64 * elapsedUs + 60000000 := by
    calc |(value : ℚ) + r| * ((128 * elapsedUs : ℤ) : ℚ)
        ≤ (1 / 2 + |average + r|) * ((128 * elapsedUs : ℤ) : ℚ) :=
          mul_le_mul_of_nonneg_right (htriangle.trans (by linarith)) hdenominator.le
      _ = 64 * elapsedUs + |average + r| * ((128 * elapsedUs : ℤ) : ℚ) := by
          push_cast
          ring
      _ < 64 * elapsedUs + 60000000 := by linarith
  exact_mod_cast hbound

theorem ready_of_run {early : ℕ} {steps : List WheelSimulator.Label} {simulator : Simulator}
    (h : Run WheelSimulator.step Free (Simulator.start early) steps simulator) :
    Ready simulator.wheel :=
  h.invariant (I := fun s => Ready s.wheel) (ready_start early) fun _ _ _ hready _ hs =>
    hready.step hs

/-- The bearing node on the simulator's outputs, as long as its count between reads fits an
`int32_t`. While the speed is not set, each read whose span begins after an alarm at that speed
gives the speed with the sign turned, to within half a revolution and one count; only a speed below
5 may be taken for a standstill. A wheel at speed 0 is read as 0 from 100 ms on. No number that
the read computes overflows. -/
theorem bearingRpm_of_bench (early : ℕ) (steps : List WheelSimulator.Label) (simulator : Simulator)
    (hearly : Run WheelSimulator.step Free (Simulator.start early) steps simulator) (alarmUs : ℤ)
    (context : EncoderContext) (startUs : ℕ) (past before window : List Label) (b b₁ c c' : Bench)
    (nowUs count value : ℤ)
    (hpast : Run step Fits (.start simulator alarmUs context startUs) past b)
    (hbefore : Run step Steady b before b₁) (hwindow : Run step Steady b₁ window c)
    (hread : step c (.read nowUs count value) = some c')
    (hspan : BearingRpm.IsSpan (actions (past ++ before)) (actions window)) :
    let rpm := b.simulator.rpm.toInt
    let elapsedUs := nowUs - BearingRpm.lastReadUs startUs (actions (past ++ before))
    (rpm = 0 → b.node.timeUs + 100000 ≤ nowUs → value = 0) ∧
      (rpm ≠ 0 → (∃ seen, .alarm seen ∈ before) →
        (value = 0 ∧ rpm.natAbs < 5) ∨
          |value + rpm| * (128 * elapsedUs) < 64 * elapsedUs + 60000000) ∧
      ∀ x ∈ readValues c.node.context nowUs, BearingRpm.InInt64 x := by
  intro rpm elapsedUs
  have hb : Followed _ past b := followed_of_run hpast
    (followed_start simulator (ready_of_run hearly) alarmUs context startUs)
  have hb₁ := followed_of_run hbefore.free hb
  obtain ⟨hdue, node, hnode, rfl⟩ := read_cases hread
  have hhead := node_of_run (hpast.trans (hbefore.mono fits_of_steady))
  have htail := node_of_run (hwindow.mono fits_of_steady)
  have hall : Run BearingEncoder.step PendingFits
      (Bench.start simulator alarmUs context startUs).node
      (actions (past ++ before) ++ actions window ++ [.read nowUs count value]) node :=
    (hhead.trans htail).snoc trivial hnode
  have hvalue := BearingRpm.read_of_run hall hspan
  have htimes : c.node.timeUs < nowUs ∧ nowUs < uptimeLimitUs := by
    simp only [BearingEncoder.step, Option.ite_none_right_eq_some] at hnode
    exact hnode.1.1
  refine ⟨?_, ?_, BearingRpm.readValues_inInt64 (hhead.trans htail) htimes.1 htimes.2⟩
  · intro hzero hlate
    have hrpm : b.simulator.rpm = 0 := Int32.toInt_inj.mp hzero
    have hlast := (still_of_run (hbefore.trans hwindow) hb hrpm).2
    have hstill : BearingRpm.StandsStill (readLevels simulator.wheel.levels)
        (actions (past ++ before) ++ actions window) nowUs := by
      intro t ht
      rw [← actions_append, List.append_assoc, hlast] at ht
      have htime := ((BearingRpm.tracked_of_run (node_of_run hpast)).edgeTime t ht).2
      omega
    rw [hvalue]
    exact if_pos hstill
  · intro hne halarm
    have hrpm : b.simulator.rpm ≠ 0 := fun hzero => hne (congrArg Int32.toInt hzero)
    have hsame := rpm_of_steady hbefore hb hrpm
    have hlately := lately_of_run hbefore hb hrpm halarm
    obtain ⟨k, hk⟩ := spanned_of_run hwindow ⟨hb₁.ready, rfl⟩ (hsame ▸ hrpm)
    have hstart : BearingRpm.lastReadUs startUs (actions (past ++ before)) = b₁.node.timeUs := by
      refine lastReadUs_of_span hspan ?_ hhead
      intro hnil
      obtain ⟨t, hlast, -⟩ := hlately.last
      rw [hnil] at hlast
      simp [BearingRpm.lastTurnUs] at hlast
    have helapsed : elapsedUs = nowUs - b₁.node.timeUs := congrArg (nowUs - ·) hstart
    have hafter := BearingRpm.timeUs_le htail
    have hseen := htimes.1
    have hcounts := abs_alarms_lt hlately hk hafter hseen hdue
    have hnet : BearingRpm.net (BearingRpm.stateAfter (readLevels simulator.wheel.levels)
        (actions (past ++ before))) (actions window) = -rpm.sign * k := by
      rw [hb₁.state, hk.net, hsame]
    by_cases hstill : BearingRpm.StandsStill (readLevels simulator.wheel.levels)
        (actions (past ++ before) ++ actions window) nowUs
    · left
      refine ⟨hvalue.trans (if_pos hstill), ?_⟩
      have hlater := lately_of_run (hbefore.trans hwindow) hb hrpm
        (halarm.imp fun _ h => List.mem_append_left _ h)
      obtain ⟨t, hlast, -, hshort⟩ := hlater.last
      rw [← List.append_assoc, actions_append] at hlast
      have hold := hstill t hlast
      have hkept : 0 ≤ kept c := Int.natCast_nonneg _
      rw [rpm_of_steady (hbefore.trans hwindow) hb hrpm] at hshort
      have hslow : ((128 * rpm.natAbs : ℕ) : ℤ) * 100001 ≤
          ((128 * rpm.natAbs : ℕ) : ℤ) * (c.alarmUs - t) :=
        mul_le_mul_of_nonneg_left (by omega) (Int.natCast_nonneg _)
      change ((128 * rpm.natAbs : ℕ) : ℤ) * _ + _ < _ + ((128 * rpm.natAbs : ℕ) : ℤ) at hshort
      omega
    · right
      have hread := hvalue.trans (if_neg hstill)
      rw [hnet] at hread
      rw [hsame, ← helapsed] at hcounts
      rw [hread]
      exact abs_spanRpm_add_lt (by omega) hb.ready.geared.bounded hcounts

end Runs

/-- The simulator as it starts, at 500 RPM, and six reads of the node. -/
def firstPulses : List Label :=
  [.alarm (some (1000, readLevels (0, 1))), .read 1001 (-1) (-936)]

def fourReads : List Label :=
  [.read 1500 0 (-469), .alarm (some (1937, readLevels (1, 1))), .read 2000 (-1) (-625),
    .alarm (some (2875, readLevels (1, 0))), .read 3000 (-1) (-563), .read 3200 0 (-521)]

theorem fourReads_rpm :
    BearingRpm.lastReadUs (500 : ℕ) (actions ([] ++ firstPulses)) = 1001 ∧
      (((-408 : ℤ) = 0 ∧ (500 : ℤ).natAbs < 5) ∨
        |(-408 : ℤ) + 500| * (128 * (3300 - 1001)) < 64 * (3300 - 1001) + 60000000) := by
  have heval : ((exec (Run.guarded step Steady)
      (.start (Simulator.start 0) 1000 ⟨0, 0, 0, [], [], 0, 0, 0⟩ 500) firstPulses).bind fun b₁ =>
        (exec (Run.guarded step Steady) b₁ fourReads).bind fun c =>
          (step c (.read 3300 0 (-408))).map fun _ => ()) = some () := by decide +kernel
  obtain ⟨b₁, hbefore, hbind⟩ := Option.bind_eq_some_iff.mp heval
  obtain ⟨c, hwindow, hmap⟩ := Option.bind_eq_some_iff.mp hbind
  obtain ⟨c', hread, -⟩ := Option.map_eq_some_iff.mp hmap
  have h := bearingRpm_of_bench 0 [] _ (.nil _) 1000 ⟨0, 0, 0, [], [], 0, 0, 0⟩ 500 [] firstPulses
    fourReads _ b₁ c c' 3300 0 (-408) (.nil _) (Run.of_exec hbefore) (Run.of_exec hwindow) hread
    (.inr ⟨rfl, [.interrupt 1000 1], 1001, -1, -936, rfl⟩)
  exact ⟨rfl, h.2.1 (by decide) ⟨_, List.mem_cons_self⟩⟩

end BajaDaq.WheelBench
