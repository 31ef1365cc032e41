import BajaDaq.AppProtocol
import BajaDaq.GridTimes
import BajaDaq.SamplerTasks
import Mathlib.Algebra.Order.Archimedean.Basic
import Mathlib.Algebra.Order.Ring.Int

/-!
# The passes of the periodic sampler

The body of the loop of `sample_task` in a periodic build, taken as a whole, over the sensors that
`sampler_start` has armed. The drivers are callbacks over a device state of their own.
-/

namespace BajaDaq.SamplePasses
open AppProtocol GridTimes
open SamplePipeline (Sample)
open SamplerTasks (Sensor catchUp)

/-- `sensor_t`: the part that the sampler uses and the context of the callbacks. -/
structure Descriptor (κ : Type*) extends Sensor where
  context : κ
  deriving DecidableEq, Repr

/-- What a call of `read` returns, what it leaves in `value` and the state of the device then. -/
structure Reading (ρ : Type*) where
  error : EspErrT
  value : Int32
  device : ρ

/-- The callbacks of the drivers of a build. `read` is given what the hardware answers to the
call and the value that is there before it. -/
structure Driver (ι κ ρ : Type*) where
  start : κ → ρ → ρ
  read : κ → ι → ρ → Int32 → Reading ρ

/-- What a pass finds: the time it starts at and, for each sensor it may read, the timestamp and
the answer of the hardware. -/
structure PassInput (ι : Type*) where
  nowUs : ℤ
  timestampMs : ℕ → Int32
  answer : ℕ → ι

/-- A pass over the sensors so far: those visited, as it leaves them, the indices of those it has
read, the samples it has given to `enqueue_latest`, and `next_due`. -/
structure Pass (κ ρ : Type*) where
  sensors : List (Descriptor κ)
  device : ρ
  reads : List ℕ
  enqueued : List Sample
  nextDueUs : ℤ

variable {ι κ ρ : Type*}

/-- `while (next_sample_us <= now) next_sample_us += period_us`, with at most `fuel` tests. -/
def catchUpLoop (fuel : ℕ) (sensor : Sensor) (nowUs : ℤ) : Option Sensor :=
  (advancePast sensor.periodUs nowUs fuel sensor.nextSampleUs).map fun next =>
    { sensor with nextSampleUs := next }

def Descriptor.caughtUp (sensor : Descriptor κ) (nowUs : ℤ) : Descriptor κ :=
  { sensor with toSensor := catchUp sensor.toSensor nowUs }

/-- One round of the loop over the sensors. -/
def visit (driver : Driver ι κ ρ) (input : PassInput ι) (i : ℕ) (sensor : Descriptor κ)
    (p : Pass κ ρ) : Pass κ ρ :=
  let (sensor, p) :=
    if sensor.nextSampleUs ≤ input.nowUs then
      let reading := driver.read sensor.context (input.answer i) p.device 0
      (sensor.caughtUp input.nowUs,
        { p with
          device := reading.device
          reads := p.reads ++ [i]
          enqueued := if reading.error = espOk then
              p.enqueued ++ [⟨sensor.canId, input.timestampMs i, reading.value⟩]
            else p.enqueued })
    else (sensor, p)
  { p with
    sensors := p.sensors ++ [sensor]
    nextDueUs := if sensor.nextSampleUs < p.nextDueUs then sensor.nextSampleUs else p.nextDueUs }

/-- The loop over the sensors from the one with the index `i` on. -/
def visitFrom (driver : Driver ι κ ρ) (input : PassInput ι) :
    ℕ → List (Descriptor κ) → Pass κ ρ → Pass κ ρ
  | _, [], p => p
  | i, sensor :: rest, p => visitFrom driver input (i + 1) rest (visit driver input i sensor p)

/-- One pass of `sample_task` while sampling is active. -/
def samplePass (driver : Driver ι κ ρ) (sensors : List (Descriptor κ)) (device : ρ)
    (input : PassInput ι) : Pass κ ρ :=
  visitFrom driver input 0 sensors ⟨[], device, [], [], input.nowUs + 1000000⟩

/-- The sensors and the device after passes that find `inputs`. -/
def samplePasses (driver : Driver ι κ ρ) (state : List (Descriptor κ) × ρ)
    (inputs : List (PassInput ι)) : List (Descriptor κ) × ρ :=
  inputs.foldl (fun state input =>
    let pass := samplePass driver state.1 state.2 input
    (pass.sensors, pass.device)) state

def armSchedule (nowUs : ℤ) (sensors : List (Descriptor κ)) : List (Descriptor κ) :=
  sensors.map fun sensor => { sensor with nextSampleUs := nowUs }

/-- What `sampler_start` does to the sensors and the device; it arms the schedule at `nowUs`. -/
def samplerStart (driver : Driver ι κ ρ) (nowUs : ℤ) (sensors : List (Descriptor κ)) (device : ρ) :
    List (Descriptor κ) × ρ :=
  (armSchedule nowUs sensors,
    sensors.foldl (fun device sensor => driver.start sensor.context device) device)

section Pass

variable (driver : Driver ι κ ρ) (input : PassInput ι)

theorem caughtUp_of_lt {sensor : Descriptor κ} {nowUs : ℤ} (h : nowUs < sensor.nextSampleUs) :
    sensor.caughtUp nowUs = sensor := by
  rw [Descriptor.caughtUp, catchUp, if_neg (not_le.mpr h)]

theorem visit_sensors (i : ℕ) (sensor : Descriptor κ) (p : Pass κ ρ) :
    (visit driver input i sensor p).sensors = p.sensors ++ [sensor.caughtUp input.nowUs] := by
  unfold visit
  split_ifs with h
  · rfl
  · rw [caughtUp_of_lt (not_le.mp h)]

theorem visit_reads (i : ℕ) (sensor : Descriptor κ) (p : Pass κ ρ) :
    (visit driver input i sensor p).reads =
      p.reads ++ if sensor.nextSampleUs ≤ input.nowUs then [i] else [] := by
  unfold visit
  split_ifs with h
  · rfl
  · exact (List.append_nil p.reads).symm

theorem visit_nextDueUs (i : ℕ) (sensor : Descriptor κ) (p : Pass κ ρ) :
    (visit driver input i sensor p).nextDueUs =
      min (sensor.caughtUp input.nowUs).nextSampleUs p.nextDueUs := by
  have hmin (a b : ℤ) : (if a < b then a else b) = min a b := by
    rw [min_def]
    split_ifs <;> omega
  unfold visit
  split_ifs with h
  · exact hmin _ _
  · rw [caughtUp_of_lt (not_le.mp h)]
    exact hmin _ _

theorem visitFrom_sensors (i : ℕ) (rest : List (Descriptor κ)) (p : Pass κ ρ) :
    (visitFrom driver input i rest p).sensors =
      p.sensors ++ rest.map (·.caughtUp input.nowUs) := by
  induction rest generalizing i p with
  | nil => simp [visitFrom]
  | cons sensor rest ih =>
    rw [visitFrom, ih, visit_sensors, List.append_assoc, List.map_cons, List.singleton_append]

theorem visitFrom_reads (i : ℕ) (rest : List (Descriptor κ)) (p : Pass κ ρ) :
    (visitFrom driver input i rest p).reads =
      p.reads ++ ((rest.zipIdx i).filter (·.1.nextSampleUs ≤ input.nowUs)).map Prod.snd := by
  induction rest generalizing i p with
  | nil => simp [visitFrom]
  | cons sensor rest ih =>
    rw [visitFrom, ih, visit_reads, List.append_assoc, List.zipIdx_cons, List.filter_cons]
    by_cases h : sensor.nextSampleUs ≤ input.nowUs <;> simp [h]

/-- `next_due` is the minimum over the sensors and its first value. -/
theorem visitFrom_nextDueUs (i : ℕ) (rest : List (Descriptor κ)) (p : Pass κ ρ) :
    IsLeast (insert p.nextDueUs {t | ∃ sensor ∈ rest.map (·.caughtUp input.nowUs),
      sensor.nextSampleUs = t}) (visitFrom driver input i rest p).nextDueUs := by
  induction rest generalizing i p with
  | nil => simp [visitFrom, IsLeast, lowerBounds]
  | cons sensor rest ih =>
    obtain ⟨hmem, hleast⟩ := ih (i + 1) (visit driver input i sensor p)
    rw [visit_nextDueUs] at hmem hleast
    have hmin := hleast (Set.mem_insert _ _)
    refine ⟨?_, ?_⟩
    · rcases hmem with heq | ⟨after, hafter, heq⟩
      · rcases min_choice (sensor.caughtUp input.nowUs).nextSampleUs p.nextDueUs with hc | hc
        · exact Or.inr ⟨_, List.mem_cons_self, (heq.trans hc).symm⟩
        · exact Or.inl (heq.trans hc)
      · exact Or.inr ⟨after, List.mem_cons_of_mem _ hafter, heq⟩
    · rintro t (rfl | ⟨after, hafter, rfl⟩)
      · exact hmin.trans (min_le_right _ _)
      · rcases List.mem_cons.mp hafter with rfl | hafter
        · exact hmin.trans (min_le_left _ _)
        · exact hleast (Or.inr ⟨after, hafter, rfl⟩)

theorem samplePass_sensors (sensors : List (Descriptor κ)) (device : ρ) :
    (samplePass driver sensors device input).sensors =
      sensors.map (·.caughtUp input.nowUs) := by
  rw [samplePass, visitFrom_sensors, List.nil_append]

theorem samplePass_nextDueUs (sensors : List (Descriptor κ)) (device : ρ) :
    IsLeast (insert (input.nowUs + 1000000)
      {t | ∃ sensor ∈ (samplePass driver sensors device input).sensors, sensor.nextSampleUs = t})
      (samplePass driver sensors device input).nextDueUs := by
  rw [samplePass_sensors]
  exact visitFrom_nextDueUs driver input 0 sensors _

theorem samplePass_reads_nodup (sensors : List (Descriptor κ)) (device : ρ) :
    (samplePass driver sensors device input).reads.Nodup := by
  rw [samplePass, visitFrom_reads, List.nil_append]
  have hindices : ((sensors.zipIdx 0).map Prod.snd).Nodup := by
    rw [List.zipIdx_map_snd]
    exact List.nodup_range'
  exact hindices.sublist (List.filter_sublist.map Prod.snd)

theorem mem_samplePass_reads (sensors : List (Descriptor κ)) (device : ρ) (i : ℕ) :
    i ∈ (samplePass driver sensors device input).reads ↔
      ∃ sensor, sensors[i]? = some sensor ∧ sensor.nextSampleUs ≤ input.nowUs := by
  rw [samplePass, visitFrom_reads, List.nil_append, List.mem_map]
  constructor
  · rintro ⟨⟨sensor, j⟩, hmem, rfl⟩
    obtain ⟨hindex, hdue⟩ := List.mem_filter.mp hmem
    exact ⟨sensor, List.mk_mem_zipIdx_iff_getElem?.mp hindex, of_decide_eq_true hdue⟩
  · rintro ⟨sensor, hsensor, hdue⟩
    exact ⟨(sensor, i), List.mem_filter.mpr
      ⟨List.mk_mem_zipIdx_iff_getElem?.mpr hsensor, decide_eq_true hdue⟩, rfl⟩

end Pass

/-- A caught-up sensor is due at the next instant of its grid. -/
theorem isLeast_caughtUp {origin nowUs : ℤ} {past : Option ℤ} {sensor : Descriptor κ}
    (hperiod : 0 < sensor.periodUs)
    (h : IsLeast (Upcoming origin sensor.periodUs past) sensor.nextSampleUs)
    (hpast : ∀ last ∈ past, last ≤ nowUs) :
    IsLeast (Upcoming origin sensor.periodUs (some nowUs))
      (sensor.caughtUp nowUs).nextSampleUs := by
  by_cases hdue : sensor.nextSampleUs ≤ nowUs
  · have hdiv := Int.emod_add_mul_ediv (nowUs - sensor.nextSampleUs) sensor.periodUs
    have hlow := Int.emod_nonneg (nowUs - sensor.nextSampleUs) hperiod.ne'
    have hhigh := Int.emod_lt_of_pos (nowUs - sensor.nextSampleUs) hperiod
    have hquot := Int.ediv_nonneg (a := nowUs - sensor.nextSampleUs) (by omega) hperiod.le
    obtain ⟨k, hk⟩ := Int.eq_ofNat_of_zero_le hquot
    have hnext : (sensor.caughtUp nowUs).nextSampleUs =
        sensor.nextSampleUs + (k + 1) * sensor.periodUs := by
      rw [Descriptor.caughtUp, catchUp, if_pos hdue, hk]
    have hgrid := h.1.1.add_periods (k + 1)
    rw [nsmul_eq_mul, Nat.cast_add, Nat.cast_one, ← hnext] at hgrid
    rw [hk, mul_comm] at hdiv
    rw [add_mul, one_mul] at hnext
    exact isLeast_of_between hperiod hgrid (by omega) (by omega)
  · rw [caughtUp_of_lt (not_le.mp hdue)]
    exact isLeast_of_lt h hpast (not_le.mp hdue)

/-- The loop stops, and with the sensor that the model of the pass has. -/
theorem catchUpLoop_eq {sensor : Descriptor κ} (hperiod : 0 < sensor.periodUs) (nowUs : ℤ) :
    ∃ fuel, catchUpLoop fuel sensor.toSensor nowUs =
      some (sensor.caughtUp nowUs).toSensor := by
  obtain ⟨fuel, t, hloop⟩ := exists_advancePast hperiod nowUs sensor.nextSampleUs
  have horigin : IsLeast (Upcoming sensor.nextSampleUs sensor.periodUs none)
      sensor.nextSampleUs := isLeast_origin hperiod
  have hstop := advancePast_isLeast hperiod horigin (by simp) hloop
  have hclosed : IsLeast (Upcoming sensor.nextSampleUs sensor.periodUs (some nowUs))
      (sensor.caughtUp nowUs).nextSampleUs := isLeast_caughtUp hperiod horigin (by simp)
  refine ⟨fuel, ?_⟩
  rw [catchUpLoop, hloop, hstop.unique hclosed, Option.map_some]
  unfold Descriptor.caughtUp catchUp
  split_ifs <;> rfl

/-- The sensors after passes at `times`. -/
theorem samplePasses_sensors (driver : Driver ι κ ρ) (state : List (Descriptor κ) × ρ)
    (inputs : List (PassInput ι)) :
    (samplePasses driver state inputs).1 = state.1.map fun sensor =>
      (inputs.map (·.nowUs)).foldl Descriptor.caughtUp sensor := by
  induction inputs generalizing state with
  | nil => simp [samplePasses]
  | cons input inputs ih =>
    rw [samplePasses, List.foldl_cons, ← samplePasses, ih]
    dsimp only
    rw [samplePass_sensors, List.map_map]
    rfl

@[simp] theorem caughtUp_periodUs (sensor : Descriptor κ) (nowUs : ℤ) :
    (sensor.caughtUp nowUs).periodUs = sensor.periodUs := by
  unfold Descriptor.caughtUp catchUp
  split_ifs <;> rfl

theorem foldl_caughtUp_periodUs (times : List ℤ) (sensor : Descriptor κ) :
    (times.foldl Descriptor.caughtUp sensor).periodUs = sensor.periodUs := by
  induction times generalizing sensor with
  | nil => rfl
  | cons t times ih => rw [List.foldl_cons, ih, caughtUp_periodUs]

/-- After passes at nondecreasing times a sensor is due at the next instant of its grid. -/
theorem isLeast_foldl_caughtUp {sensor : Descriptor κ} (hperiod : 0 < sensor.periodUs)
    {times : List ℤ} (htimes : times.Pairwise (· ≤ ·)) :
    IsLeast (Upcoming sensor.nextSampleUs sensor.periodUs times.getLast?)
      (times.foldl Descriptor.caughtUp sensor).nextSampleUs := by
  induction times using List.reverseRecOn with
  | nil => exact isLeast_origin hperiod
  | append_singleton times t ih =>
    obtain ⟨hearlier, -, hlast⟩ := List.pairwise_append.mp htimes
    have hpast : ∀ last ∈ times.getLast?, last ≤ t := fun last h =>
      hlast last (List.mem_of_getLast? h) t (List.mem_singleton_self t)
    have hsensor := foldl_caughtUp_periodUs times sensor
    rw [List.foldl_concat, List.getLast?_concat]
    have hdue := ih hearlier
    rw [← hsensor] at hperiod hdue ⊢
    exact isLeast_caughtUp hperiod hdue hpast

/-- In every pass after a start a sensor is read, once, when an instant of its grid has become due
since the pass before; afterwards it is due at the next instant, and the pass has the minimum of
these times. -/
theorem schedule_of_passes (driver : Driver ι κ ρ) (sensors : List (Descriptor κ)) (device : ρ)
    (t0 : ℤ) (hperiods : ∀ sensor ∈ sensors, 0 < sensor.periodUs) (earlier : List (PassInput ι))
    (input : PassInput ι)
    (htimes : ((earlier ++ [input]).map (·.nowUs)).Pairwise (· ≤ ·)) :
    let before := samplePasses driver (samplerStart driver t0 sensors device) earlier
    let pass := samplePass driver before.1 before.2 input
    let past := (earlier.map (·.nowUs)).getLast?
    pass.reads.Nodup ∧
      (∀ i, i ∈ pass.reads ↔ ∃ sensor : Descriptor κ, sensors[i]? = some sensor ∧
        ∃ t ∈ Upcoming t0 sensor.periodUs past, t ≤ input.nowUs) ∧
      pass.sensors.length = sensors.length ∧
      (∀ (i : ℕ) (sensor : Descriptor κ), sensors[i]? = some sensor → ∃ found left : Descriptor κ,
        before.1[i]? = some found ∧ pass.sensors[i]? = some left ∧
        (∃ fuel, catchUpLoop fuel found.toSensor input.nowUs = some left.toSensor) ∧
        IsLeast (Upcoming t0 sensor.periodUs (some input.nowUs)) left.nextSampleUs) ∧
      IsLeast (insert (input.nowUs + 1000000)
        {t | ∃ sensor ∈ pass.sensors, sensor.nextSampleUs = t}) pass.nextDueUs := by
  intro before pass past
  rw [List.map_append, List.map_singleton] at htimes
  obtain ⟨hearlier, -, hlast⟩ := List.pairwise_append.mp htimes
  have hpast : ∀ last ∈ past, last ≤ input.nowUs := fun last h =>
    hlast last (List.mem_of_getLast? h) _ (List.mem_singleton_self _)
  let armed (sensor : Descriptor κ) : Descriptor κ := { sensor with nextSampleUs := t0 }
  let found (sensor : Descriptor κ) : Descriptor κ :=
    (earlier.map (·.nowUs)).foldl Descriptor.caughtUp (armed sensor)
  have hbefore : before.1 = sensors.map found := by
    rw [samplePasses_sensors, samplerStart, armSchedule, List.map_map]
    rfl
  have hpass : pass.sensors = sensors.map fun sensor => (found sensor).caughtUp input.nowUs := by
    rw [samplePass_sensors, hbefore, List.map_map]
    rfl
  have hperiod (sensor : Descriptor κ) : (found sensor).periodUs = sensor.periodUs :=
    foldl_caughtUp_periodUs _ _
  have hfound : ∀ sensor ∈ sensors,
      IsLeast (Upcoming t0 sensor.periodUs past) (found sensor).nextSampleUs :=
    fun sensor h => @isLeast_foldl_caughtUp κ (armed sensor) (hperiods sensor h) _ hearlier
  refine ⟨samplePass_reads_nodup driver input _ _, fun i => ?_, ?_, fun i sensor hi => ?_, ?_⟩
  · rw [mem_samplePass_reads, hbefore]
    constructor
    · rintro ⟨sensor', hsensor, hdue⟩
      rw [List.getElem?_map] at hsensor
      obtain ⟨sensor, hi, rfl⟩ := Option.map_eq_some_iff.mp hsensor
      exact ⟨sensor, hi, (le_iff_exists_upcoming (hfound sensor (List.mem_of_getElem? hi))).mp hdue⟩
    · rintro ⟨sensor, hi, hdue⟩
      refine ⟨found sensor, by rw [List.getElem?_map, hi, Option.map_some], ?_⟩
      exact (le_iff_exists_upcoming (hfound sensor (List.mem_of_getElem? hi))).mpr hdue
  · rw [hpass, List.length_map]
  · have hpositive : 0 < (found sensor).periodUs := by
      rw [hperiod]
      exact hperiods sensor (List.mem_of_getElem? hi)
    refine ⟨found sensor, (found sensor).caughtUp input.nowUs, ?_, ?_,
      catchUpLoop_eq hpositive input.nowUs, ?_⟩
    · rw [hbefore, List.getElem?_map, hi, Option.map_some]
    · rw [hpass, List.getElem?_map, hi, Option.map_some]
    · have hdue := hfound sensor (List.mem_of_getElem? hi)
      rw [← hperiod sensor] at hdue ⊢
      exact isLeast_caughtUp hpositive hdue hpast
  · exact samplePass_nextDueUs driver input before.1 before.2

/-- The brake node armed at 1 ms, with a pass at once and the next one 25.5 ms later: of the
instants at 11 ms and 21 ms there is one reading, and the pass is due again at 31 ms. -/
theorem delayedPass_schedule :
    let driver : Driver Unit Unit Unit := ⟨fun _ d => d, fun _ _ d _ => ⟨espOk, 512, d⟩⟩
    let sensors : List (Descriptor Unit) :=
      [⟨⟨canIdFrontBrake, 10000, 0⟩, ()⟩, ⟨⟨canIdRearBrake, 10000, 0⟩, ()⟩]
    let found := samplePasses driver (samplerStart driver 1000 sensors ())
      [⟨1000, fun _ => 1, fun _ => ()⟩]
    let pass := samplePass driver found.1 found.2 ⟨26500, fun _ => 26, fun _ => ()⟩
    pass.reads = [0, 1] ∧ (∃ t ∈ Upcoming (1000 : ℤ) 10000 (some 1000), t ≤ 26500) ∧
      pass.nextDueUs = 31000 ∧ (∃ sensor ∈ pass.sensors, sensor.nextSampleUs = 31000) := by
  intro driver sensors found pass
  obtain ⟨-, hreads, -, -, hdue⟩ := schedule_of_passes driver sensors () 1000 (by decide)
    [⟨1000, fun _ => 1, fun _ => ()⟩] ⟨26500, fun _ => 26, fun _ => ()⟩ (by decide)
  obtain ⟨sensor, hsensor, hinstant⟩ := (hreads 0).mp (by decide)
  obtain rfl := Option.some.inj hsensor
  have hnext : pass.nextDueUs = 31000 := by decide
  refine ⟨by decide, hinstant, hnext, ?_⟩
  rcases hdue.1 with hcap | hsensors
  · exact absurd (hnext.symm.trans hcap) (by decide)
  · rwa [← hnext]

end BajaDaq.SamplePasses
