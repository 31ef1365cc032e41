import BajaDaq.DropOldest
import BajaDaq.SamplePasses

/-!
# A pass among the other tasks

Whatever the other tasks do between the steps of a pass, short of arming the schedule anew, the
pass leaves the schedule that the function `samplePass` computes.
-/

namespace BajaDaq.InterleavedPasses
open DropOldest SamplePasses SamplerTasks TransitionRuns

variable {ι κ ρ : Type*} {s t : Sampler} {sensors : List Sensor} {nowUs : ℤ}

/-- The sensors when the pass has visited the first `i`. -/
def visited (sensors : List Sensor) (nowUs : ℤ) (i : ℕ) : List Sensor :=
  sensors.mapIdx fun j sensor => if j < i then catchUp sensor nowUs else sensor

/-- `next_due` when the pass has visited `sensors`. -/
def dueAfter (sensors : List Sensor) (nowUs : ℤ) : ℤ :=
  sensors.foldl (fun dueUs sensor => min (catchUp sensor nowUs).nextSampleUs dueUs)
    (nowUs + 1000000)

/-- The schedule while a pass at `nowUs` that found `sensors` is under way. -/
def Progress (sensors : List Sensor) (nowUs : ℤ) (s : Sampler) : Prop :=
  match s.sampleTask with
  | .visit i t dueUs | .stamp i t dueUs | .read i t dueUs _ =>
    t = nowUs ∧ dueUs = dueAfter (sensors.take i) nowUs ∧ s.sensors = visited sensors nowUs i
  | .send i t dueUs _ | .evict i t dueUs _ | .resend i t dueUs _ | .settle i t dueUs =>
    t = nowUs ∧ dueUs = dueAfter (sensors.take i) nowUs ∧
      s.sensors = visited sensors nowUs (i + 1)
  | _ => True

/-- The step neither arms the schedule nor begins another pass. -/
def KeepsPass (s : Sampler) (a : Action) : Prop :=
  (∀ nowUs, a = .control nowUs → s.control ≠ .arm) ∧
    ∀ input, a = .sample input → s.sampleTask ≠ .pass

theorem getElem?_visited (i j : ℕ) : (visited sensors nowUs i)[j]? =
    sensors[j]?.map fun sensor => if j < i then catchUp sensor nowUs else sensor :=
  List.getElem?_mapIdx

theorem visited_zero : visited sensors nowUs 0 = sensors := by
  refine List.ext_getElem? fun j => ?_
  simp [getElem?_visited]

theorem visited_length :
    visited sensors nowUs sensors.length = sensors.map (catchUp · nowUs) := by
  refine List.ext_getElem? fun j => ?_
  rw [getElem?_visited, List.getElem?_map]
  cases hsensor : sensors[j]? with
  | none => rfl
  | some sensor =>
    have hj : j < sensors.length := (List.getElem?_eq_some_iff.mp hsensor).1
    rw [Option.map_some, Option.map_some, if_pos hj]

theorem modify_visited (i : ℕ) :
    (visited sensors nowUs i).modify i (catchUp · nowUs) = visited sensors nowUs (i + 1) := by
  refine List.ext_getElem? fun j => ?_
  rw [List.getElem?_modify, getElem?_visited, getElem?_visited]
  rcases Nat.lt_trichotomy i j with h | rfl | h
  · simp [h.ne, Nat.not_lt.mpr h.le, Nat.not_lt.mpr h]
  · simp
  · simp [h.ne', h, Nat.lt_succ_of_lt h]

/-- A sensor that is not due stays as it is. -/
theorem visited_succ_of_not_due {i : ℕ} {sensor : Sensor} (hsensor : sensors[i]? = some sensor)
    (hdue : ¬ sensor.nextSampleUs ≤ nowUs) :
    visited sensors nowUs (i + 1) = visited sensors nowUs i := by
  have hsame : catchUp sensor nowUs = sensor := by rw [catchUp, if_neg hdue]
  refine List.ext_getElem? fun j => ?_
  rw [getElem?_visited, getElem?_visited]
  rcases Nat.lt_trichotomy i j with h | rfl | h
  · simp [Nat.not_lt.mpr h.le, Nat.not_lt.mpr h]
  · simp [hsensor, hsame]
  · simp [h, Nat.lt_succ_of_lt h]

theorem dueAfter_succ {i : ℕ} {sensor : Sensor} (hsensor : sensors[i]? = some sensor) :
    dueAfter (sensors.take (i + 1)) nowUs =
      min (catchUp sensor nowUs).nextSampleUs (dueAfter (sensors.take i) nowUs) := by
  rw [List.take_add_one, hsensor, dueAfter, Option.toList_some, List.foldl_concat]
  rfl

theorem progress_sampleStep (input : Input) (hp : IsPeriodic s.sampleTask)
    (hprogress : Progress sensors nowUs s) (hpass : s.sampleTask ≠ .pass) :
    Progress sensors nowUs (sampleStep .periodic s input) := by
  unfold Progress at hprogress
  cases hpc : s.sampleTask with
  | top =>
    simp only [sampleStep, hpc]
    split
    · simp only [Progress, hpc]
    · trivial
  | pass => exact absurd hpc hpass
  | visit i time dueUs =>
    simp only [hpc] at hprogress
    obtain ⟨rfl, rfl, hsensors⟩ := hprogress
    have hat : s.sensors[i]? = sensors[i]? := by simp [hsensors, getElem?_visited]
    simp only [sampleStep, hpc, hat]
    cases hsensor : sensors[i]? with
    | none => trivial
    | some sensor =>
      dsimp only
      split_ifs with hdue
      · exact ⟨rfl, rfl, hsensors⟩
      · exact ⟨rfl, rfl, hsensors.trans (visited_succ_of_not_due hsensor hdue).symm⟩
  | stamp i time dueUs =>
    simp only [hpc] at hprogress
    simp only [sampleStep, hpc]
    split
    · simpa only [Progress, hpc] using hprogress
    · exact hprogress
  | read i time dueUs q =>
    simp only [hpc] at hprogress
    obtain ⟨rfl, hdue, hsensors⟩ := hprogress
    have hmodify : s.sensors.modify i (catchUp · time) = visited sensors time (i + 1) := by
      rw [hsensors, modify_visited]
    simp only [sampleStep, hpc]
    split
    · exact ⟨rfl, hdue, hmodify⟩
    · exact ⟨rfl, hdue, hmodify⟩
  | send i time dueUs q =>
    simp only [hpc] at hprogress
    simp only [sampleStep, hpc]
    split_ifs
    · exact hprogress
    · exact hprogress
  | evict i time dueUs q | resend i time dueUs q =>
    simp only [hpc] at hprogress
    simp only [sampleStep, hpc]
    exact hprogress
  | settle i time dueUs =>
    simp only [hpc] at hprogress
    obtain ⟨rfl, rfl, hsensors⟩ := hprogress
    have hat : s.sensors[i]? = sensors[i]?.map (catchUp · time) := by
      simp [hsensors, getElem?_visited]
    simp only [sampleStep, hpc, hat]
    refine ⟨rfl, ?_, hsensors⟩
    cases hsensor : sensors[i]? with
    | none => rw [List.take_add_one, hsensor]; simp
    | some sensor => rw [dueAfter_succ hsensor, min_def_lt]; rfl
  | nextEvent | stopCheck | testActive | stampEvent | reserve | sendSpark | sendRpm | report =>
    simp only [hpc] at hp
    exact hp.elim

theorem progress_step {a : Action} (hp : IsPeriodic s.sampleTask)
    (hprogress : Progress sensors nowUs s) (hkeeps : KeepsPass s a)
    (hs : step .periodic s a = some t) :
    IsPeriodic t.sampleTask ∧ Progress sensors nowUs t := by
  by_cases hsample : ∃ input, a = .sample input
  · obtain ⟨input, rfl⟩ := hsample
    obtain rfl := Option.some.inj hs
    exact ⟨isPeriodic_sampleStep input hp,
      progress_sampleStep input hp hprogress (hkeeps.2 input rfl)⟩
  · obtain ⟨htask, hsensors, -⟩ := step_frame (h := ⟨[], none, []⟩) hs fun i h => hsample ⟨i, h⟩
    unfold Progress
    rw [htask, hsensors hkeeps.1]
    exact ⟨hp, hprogress⟩

theorem visitFrom_nextDueUs_eq (driver : Driver ι κ ρ) (input : PassInput ι) (i : ℕ)
    (rest : List (Descriptor κ)) (p : Pass κ ρ) :
    (visitFrom driver input i rest p).nextDueUs = (rest.map (·.toSensor)).foldl
      (fun dueUs sensor => min (catchUp sensor input.nowUs).nextSampleUs dueUs) p.nextDueUs := by
  induction rest generalizing i p with
  | nil => rfl
  | cons sensor rest ih =>
    rw [visitFrom, ih, visit_nextDueUs, List.map_cons, List.foldl_cons]
    rfl

/-- A pass that has visited all sensors leaves them, and `next_due`, as `samplePass` does. -/
theorem schedule_of_interleaved (driver : Driver ι κ ρ) (descriptors : List (Descriptor κ))
    (device : ρ) (input : PassInput ι) {labels : List Action} {time dueUs : ℤ}
    (hbegin : s.sampleTask = .visit 0 input.nowUs (input.nowUs + 1000000))
    (hsensors : s.sensors = descriptors.map (·.toSensor))
    (hrun : Run (step .periodic) KeepsPass s labels t)
    (hend : t.sampleTask = .visit descriptors.length time dueUs) :
    let pass := samplePass driver descriptors device input
    t.sensors = pass.sensors.map (·.toSensor) ∧ dueUs = pass.nextDueUs := by
  intro pass
  let sensors := descriptors.map (·.toSensor)
  have hstart : IsPeriodic s.sampleTask ∧ Progress sensors input.nowUs s := by
    unfold Progress
    rw [hbegin]
    exact ⟨trivial, rfl, rfl, hsensors.trans visited_zero.symm⟩
  have hfinal : IsPeriodic t.sampleTask ∧ Progress sensors input.nowUs t :=
    hrun.invariant hstart fun s a t h hkeeps hs => progress_step h.1 h.2 hkeeps hs
  have hprogress := hfinal.2
  unfold Progress at hprogress
  rw [hend] at hprogress
  obtain ⟨-, hdue, hvisited⟩ := hprogress
  have hall : descriptors.length = sensors.length := (List.length_map _).symm
  rw [hall] at hdue hvisited
  constructor
  · rw [hvisited, visited_length, samplePass_sensors, List.map_map, List.map_map]
    rfl
  · rw [hdue, List.take_length]
    exact (visitFrom_nextDueUs_eq driver input 0 descriptors
      ⟨[], device, [], [], input.nowUs + 1000000⟩).symm

end BajaDaq.InterleavedPasses
