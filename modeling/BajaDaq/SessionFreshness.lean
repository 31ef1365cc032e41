import BajaDaq.SamplerTasks

/-!
# Samples of the session before

`sampler_start` empties the queue, but `sample_task` may still hold a sample that it timestamped
before. The queue holds only samples of the running session exactly as long as no such sample is
put into it.
-/

namespace BajaDaq.SessionFreshness
open SamplerTasks TransitionRuns

/-- How many calls of `sampler_start` have emptied the queue. -/
def emptied (s : Sampler) : ℕ := if s.control = .startReset then s.begun - 1 else s.begun

/-- No call of `sampler_start` that began after the sample about to be sent was timestamped has
emptied the queue. -/
def SendsFresh (s : Sampler) : Action → Prop
  | .sample _ => ∀ q ∈ aboutToSend s, emptied s ≤ q.begun
  | _ => True

instance (s : Sampler) : (a : Action) → Decidable (SendsFresh s a)
  | .sample _ => inferInstanceAs (Decidable (∀ q ∈ aboutToSend s, _))
  | .edge _ | .take _ | .transmit _ | .start | .stop | .control _ | .busOff _ | .busOffReset =>
    .isTrue trivial

/-- The queue holds samples timestamped since the last call that emptied it began. -/
structure Fresh (s : Sampler) : Prop where
  queue : ∀ q ∈ s.queue, emptied s ≤ q.begun
  completed : s.completed ≤ emptied s
  started : s.control = .startReset → 0 < s.begun

theorem fresh_boot (sensors : List Sensor) (engine : EngineRpm.EngineRpmContext) :
    Fresh (.boot sensors engine) :=
  ⟨by simp [Sampler.boot], by simp [Sampler.boot], by simp [Sampler.boot]⟩

section Steps
variable {build : Build} {s t : Sampler}

/-- A step that empties nothing for a new call of `sampler_start` and adds only fresh samples. -/
theorem Fresh.of_emptied (h : Fresh s) (hemptied : emptied t = emptied s)
    (hcompleted : t.completed = s.completed) (hstarted : t.control = .startReset → 0 < t.begun)
    (hqueue : ∀ q ∈ t.queue, emptied s ≤ q.begun) : Fresh t := by
  refine ⟨?_, ?_, hstarted⟩
  · rw [hemptied]
    exact hqueue
  · rw [hcompleted, hemptied]
    exact h.completed

/-- A step that leaves the calls of `sampler_start` alone. -/
theorem Fresh.of_same (h : Fresh s) (hcontrol : t.control = s.control) (hbegun : t.begun = s.begun)
    (hcompleted : t.completed = s.completed) (hqueue : ∀ q ∈ t.queue, emptied s ≤ q.begun) :
    Fresh t := by
  refine h.of_emptied ?_ hcompleted ?_ hqueue
  · rw [emptied, hcontrol, hbegun, emptied]
  · rw [hcontrol, hbegun]
    exact h.started

theorem emptied_of_ne {s : Sampler} (h : s.control ≠ .startReset) : emptied s = s.begun := if_neg h

theorem fresh_sample (h : Fresh s) (input : Input)
    (hsend : ∀ q ∈ aboutToSend s, emptied s ≤ q.begun) : Fresh (sampleStep build s input) := by
  obtain ⟨hcontrol, hbegun, hcompleted⟩ := sampleStep_control build s input
  refine h.of_same hcontrol hbegun hcompleted (fun q hq => ?_)
  rcases sampleStep_queue build s input q hq with hold | hnew
  · exact h.queue q hold
  · exact hsend q hnew

theorem fresh_control (h : Fresh s) {nowUs : ℤ} (hs : controlStep build s nowUs = some t) :
    Fresh t := by
  unfold controlStep at hs
  cases hcontrol : s.control with
  | idle => simp [hcontrol] at hs
  | startReset =>
    have hstarted := h.started hcontrol
    have hcompleted := h.completed
    rw [emptied, if_pos hcontrol] at hcompleted
    simp only [hcontrol, Option.some_inj] at hs
    subst hs
    refine ⟨by simp, ?_, by simp⟩
    change s.completed ≤ s.begun
    omega
  | startDrivers =>
    have hemptied : emptied s = s.begun := emptied_of_ne (by simp [hcontrol])
    simp only [hcontrol] at hs
    cases build with
    | periodic =>
      obtain rfl := Option.some_inj.mp hs
      exact h.of_emptied hemptied.symm rfl (by simp) h.queue
    | engine =>
      obtain rfl := Option.some_inj.mp hs
      exact h.of_emptied hemptied.symm rfl (by simp) h.queue
  | arm =>
    have hemptied : emptied s = s.begun := emptied_of_ne (by simp [hcontrol])
    simp only [hcontrol, Option.some_inj] at hs
    subst hs
    exact h.of_emptied hemptied.symm rfl (by simp) h.queue
  | activate =>
    have hqueue := h.queue
    rw [emptied_of_ne (by simp [hcontrol])] at hqueue
    simp only [hcontrol, Option.some_inj] at hs
    subst hs
    exact ⟨hqueue, Nat.le_refl s.begun, by simp⟩
  | stopReset =>
    have hemptied : emptied s = s.begun := emptied_of_ne (by simp [hcontrol])
    simp only [hcontrol, Option.some_inj] at hs
    subst hs
    exact h.of_emptied hemptied.symm rfl (by simp) (by simp)

theorem fresh_step {a : Action} (h : Fresh s) (hc : SendsFresh s a)
    (hs : step build s a = some t) : Fresh t := by
  cases a with
  | sample input =>
    obtain rfl := Option.some_inj.mp hs
    exact fresh_sample h input hc
  | edge nowUs =>
    obtain rfl := Option.some_inj.mp hs
    exact h.of_same rfl rfl rfl h.queue
  | take q =>
    simp only [step] at hs
    split at hs
    · rename_i hqueue
      simp only [Option.ite_none_right_eq_some, Option.some_inj] at hs
      obtain ⟨-, rfl⟩ := hs
      exact h.of_same rfl rfl rfl (fun q hq => h.queue q (hqueue ▸ List.mem_cons_of_mem _ hq))
    · cases hs
  | transmit frame =>
    simp only [step] at hs
    split at hs
    · cases hs
    · simp only [Option.ite_none_right_eq_some, Option.some_inj] at hs
      obtain ⟨-, rfl⟩ := hs
      exact h.of_same rfl rfl rfl h.queue
  | start =>
    simp only [step, Option.ite_none_right_eq_some] at hs
    obtain ⟨hidle, hs⟩ := hs
    split_ifs at hs
    · exact Option.some_inj.mp hs ▸ h
    · -- the call has begun but not yet emptied the queue
      obtain rfl := Option.some_inj.mp hs
      have hemptied : emptied s = s.begun := emptied_of_ne (by simp [hidle])
      exact h.of_emptied hemptied.symm rfl (fun _ => Nat.succ_pos s.begun) h.queue
  | stop =>
    simp only [step, Option.ite_none_right_eq_some] at hs
    obtain ⟨hidle, hs⟩ := hs
    split_ifs at hs
    · exact Option.some_inj.mp hs ▸ h
    · obtain rfl := Option.some_inj.mp hs
      have hemptied : emptied s = s.begun := emptied_of_ne (by simp [hidle])
      exact h.of_emptied hemptied.symm rfl (by simp) h.queue
  | control nowUs => exact fresh_control h hs
  | busOff nowUs =>
    simp only [step] at hs
    split_ifs at hs
    cases build with
    | periodic =>
      obtain rfl := Option.some_inj.mp hs
      exact h.of_same rfl rfl rfl h.queue
    | engine =>
      obtain rfl := Option.some_inj.mp hs
      exact h.of_same rfl rfl rfl h.queue
  | busOffReset =>
    simp only [step, Option.ite_none_right_eq_some, Option.some_inj] at hs
    obtain ⟨-, rfl⟩ := hs
    exact h.of_same rfl rfl rfl (by simp)

end Steps

/-- As long as `sample_task` sends only fresh samples, `send_task` takes from the queue, after a
call of `sampler_start` has completed, only samples timestamped after that call began. -/
theorem fresh_of_run (build : Build) (sensors : List Sensor) (engine : EngineRpm.EngineRpmContext)
    (labels : List Action) (s : Sampler)
    (h : Run (step build) SendsFresh (.boot sensors engine) labels s) :
    ∀ q t, step build s (.take q) = some t → s.completed ≤ q.begun := by
  intro q t ht
  have hfresh : Fresh s :=
    h.invariant (fresh_boot sensors engine) (fun _ _ _ hi hc hs => fresh_step hi hc hs)
  simp only [step] at ht
  split at ht
  · rename_i hqueue
    simp only [Option.ite_none_right_eq_some] at ht
    have hmem : q ∈ s.queue := by simp [hqueue, ht.1]
    exact hfresh.completed.trans (hfresh.queue q hmem)
  · cases ht

/-- A step of `sample_task` at an uptime in ms; a sensor that is read gives 7. -/
def sampleAt (ms : Int32) : Action := .sample ⟨ms.toInt * 1000, ms, some 7⟩

/-- One pass of a periodic build up to the sample in the queue. -/
theorem onePass_fresh :
    let s : Sampler := ⟨true, [⟨⟨0x064, 2, 7⟩, 1, 0⟩], [⟨0x064, 10000, 11000⟩], ⟨0, 0, 0, []⟩, [],
      .settle 0 2000 1002000, none, .idle, false, 1, 1, 0⟩
    ∃ t, step .periodic s (.take ⟨⟨0x064, 2, 7⟩, 1, 0⟩) = some t ∧ s.completed ≤ 1 := by
  intro s
  have hrun : Run (step .periodic) SendsFresh (.boot [⟨0x064, 10000, 0⟩] ⟨0, 0, 0, []⟩)
      (startCall 1000 ++ [sampleAt 2, sampleAt 2, sampleAt 2, sampleAt 2, sampleAt 2,
        sampleAt 2]) s := Run.of_exec rfl
  exact ⟨_, rfl, fresh_of_run .periodic [⟨0x064, 10000, 0⟩] ⟨0, 0, 0, []⟩ _ s hrun
    ⟨⟨0x064, 2, 7⟩, 1, 0⟩ _ rfl⟩

/-- A stop and a start while the sensor is read, and, in the engine build, between taking an edge
out of the capture queue and testing `active`: the sample of the first session is taken in the
second. -/
theorem restart_not_fresh :
    (∃ s t, Run (step .periodic) Free (.boot [⟨0x064, 10000, 0⟩] ⟨0, 0, 0, []⟩)
        (startCall 1000 ++ [sampleAt 2, sampleAt 2, sampleAt 2, sampleAt 2] ++ stopCall 3000 ++
          startCall 4000 ++ [sampleAt 5, sampleAt 5]) s ∧
      step .periodic s (.take ⟨⟨0x064, 2, 7⟩, 1, 0⟩) = some t ∧ 1 < s.completed) ∧
    (∃ s t, Run (step .engine) Free (.boot [⟨0x0BB, 0, 0⟩] ⟨0, 0, 0, []⟩)
        (startCall 1000 ++ [sampleAt 2, .edge 2000, sampleAt 2] ++ stopCall 3000 ++
          startCall 4000 ++ [sampleAt 5, sampleAt 2, sampleAt 5, sampleAt 5]) s ∧
      step .engine s (.take ⟨⟨0x0BC, 2, 1⟩, 1, 0⟩) = some t ∧ 1 < s.completed) := by
  constructor
  · refine ⟨⟨true, [⟨⟨0x064, 2, 7⟩, 1, 0⟩], [⟨0x064, 10000, 4000⟩], ⟨0, 0, 0, []⟩, [],
      .settle 0 2000 1002000, none, .idle, false, 2, 2, 0⟩, ?_⟩
    exact ⟨_, Run.of_exec_free rfl, rfl, by decide⟩
  · refine ⟨⟨true, [⟨⟨0x0BC, 2, 1⟩, 1, 0⟩], [⟨0x0BB, 0, 4000⟩], ⟨0, 4000, 0, []⟩, [],
      .report, none, .idle, false, 2, 2, 1⟩, ?_⟩
    exact ⟨_, Run.of_exec_free rfl, rfl, by decide⟩

end BajaDaq.SessionFreshness
