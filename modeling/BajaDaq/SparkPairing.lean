import BajaDaq.SamplerTasks

/-!
# Sparks and their speeds in the sample queue

`enqueue_engine_event` reserves room for a spark and its speed and then puts them into the queue
one after the other. A reset of the queue between the two removes the spark alone; nothing else
separates them.
-/

namespace BajaDaq.SparkPairing
open AppProtocol SamplerTasks TransitionRuns

/-- The samples that `send_task` takes from the queue. -/
def takes (labels : List Action) : List Queued :=
  labels.filterMap fun
    | .take q => some q
    | _ => none

def IsRpm (q : Queued) : Prop := q.sample.canId = canIdEngineRpm ∧ q.sample.value ≠ 0

/-- `p` is the spark of the event of `q`. -/
def SparkOf (p q : Queued) : Prop :=
  p.sample.canId = canIdEngineSpark ∧ p.event = q.event ∧
    p.sample.timestampMs = q.sample.timestampMs

/-- Every speed other than zero directly follows its spark. -/
def Paired (qs : List Queued) : Prop :=
  ∀ before q after, qs = before ++ q :: after → IsRpm q → ∃ b p, before = b ++ [p] ∧ SparkOf p q

/-- A reset would remove the spark of an event whose speed is not yet in the queue. -/
def splitsPair (s : Sampler) : Bool :=
  match s.sampleTask with
  | .sendRpm p => p.event.spark && decide (p.sparkSample ∈ s.queue)
  | _ => false

/-- No reset of the queue by `sampler_start`, `sampler_stop` or `sampler_discard_pending` splits a
pair. -/
def KeepsPair (s : Sampler) : Action → Prop
  | .control _ => s.control = .startReset ∨ s.control = .stopReset → splitsPair s = false
  | .busOffReset => splitsPair s = false
  | _ => True

instance (s : Sampler) : (a : Action) → Decidable (KeepsPair s a)
  | .control _ => inferInstanceAs (Decidable (_ ∨ _ → _))
  | .busOffReset => inferInstanceAs (Decidable (_ = _))
  | .sample _ | .edge _ | .take _ | .transmit _ | .start | .stop | .busOff _ => .isTrue trivial

theorem paired_nil : Paired [] := by
  intro before q after h
  simp at h

theorem Paired.of_append {xs ys : List Queued} (h : Paired (xs ++ ys)) : Paired xs := by
  rintro before q after rfl hrpm
  exact h before q (after ++ ys) (by simp) hrpm

theorem Paired.concat {xs : List Queued} {q : Queued} (h : Paired xs)
    (hq : IsRpm q → ∃ b p, xs = b ++ [p] ∧ SparkOf p q) : Paired (xs ++ [q]) := by
  intro before r after heq hrpm
  rcases List.eq_nil_or_concat after with rfl | ⟨init, last, rfl⟩
  · obtain ⟨rfl, hlast⟩ := List.append_inj' heq rfl
    obtain rfl := List.singleton_inj.mp hlast
    exact hq hrpm
  · have hsplit : xs ++ [q] = (before ++ r :: init) ++ [last] := by simpa using heq
    exact h before r init (List.append_inj' hsplit rfl).1 hrpm

/-- What `sample_task` of the engine build has in hand, after the samples `qs` of which the last
`n` are still in the queue. -/
def Holds (qs : List Queued) (n : ℕ) : SamplePc → Prop
  | .top | .nextEvent | .stopCheck | .report => True
  | .testActive event _ | .stampEvent event _ => event.spark = true ∨ event.engineRpm = 0
  | .reserve p => p.event.spark = true ∨ p.event.engineRpm = 0
  | .sendSpark p => p.event.spark = true ∧ n + p.count ≤ sampleQueueLength
  | .sendRpm p => (p.event.spark = true ∧ ∃ b, qs = b ++ [p.sparkSample]) ∨ p.event.engineRpm = 0
  | _ => False

theorem Holds.mono {qs : List Queued} {n m : ℕ} {pc : SamplePc} (h : Holds qs n pc) (hm : m ≤ n) :
    Holds qs m pc := by
  cases pc with
  | sendSpark p => exact ⟨h.1, (Nat.add_le_add_right hm _).trans h.2⟩
  | _ => exact h

structure Pairs (labels : List Action) (s : Sampler) : Prop where
  paired : Paired (takes labels ++ s.queue)
  holds : Holds (takes labels ++ s.queue) s.queue.length s.sampleTask

theorem not_isRpm_sparkSample (p : Pending) : ¬ IsRpm p.sparkSample :=
  fun h => absurd h.1 (by decide : canIdEngineSpark ≠ canIdEngineRpm)

theorem sparkOf_rpmSample (p : Pending) : SparkOf p.sparkSample p.rpmSample := ⟨rfl, rfl, rfl⟩

/-- An event with speed zero makes no sample with another speed. -/
theorem engineRpm_ne_zero {p : Pending} (h : IsRpm p.rpmSample) : p.event.engineRpm ≠ 0 :=
  fun hzero => h.2 (congrArg Int32.ofInt hzero)

section Steps
variable {labels : List Action} {s t : Sampler}

theorem count_pos {p : Pending} (hspark : p.event.spark = true) : 0 < p.count := by
  simp [Pending.count, hspark]

/-- The spark goes to the place reserved for it, and the speed is still to be sent. -/
theorem holds_sendSpark {qs queue : List Queued} {p : Pending} (hpaired : Paired (qs ++ queue))
    (hspark : p.event.spark = true) (hroom : queue.length + p.count ≤ sampleQueueLength) :
    Paired (qs ++ xQueueSend queue p.sparkSample) ∧
      ∃ b, qs ++ xQueueSend queue p.sparkSample = b ++ [p.sparkSample] := by
  have hcount := count_pos hspark
  have hsent : xQueueSend queue p.sparkSample = queue ++ [p.sparkSample] := by
    rw [xQueueSend, if_pos (by omega)]
  rw [hsent, ← List.append_assoc]
  exact ⟨hpaired.concat (fun hrpm => absurd hrpm (not_isRpm_sparkSample p)), _, rfl⟩

/-- A speed that is sent right after its spark. -/
theorem paired_sendRpm {qs queue : List Queued} {p : Pending} (hpaired : Paired (qs ++ queue))
    (hafter : (p.event.spark = true ∧ ∃ b, qs ++ queue = b ++ [p.sparkSample]) ∨
      p.event.engineRpm = 0) : Paired (qs ++ xQueueSend queue p.rpmSample) := by
  rw [xQueueSend]
  split_ifs
  · rw [← List.append_assoc]
    refine hpaired.concat (fun hrpm => ?_)
    obtain ⟨-, b, hlast⟩ := hafter.resolve_right (engineRpm_ne_zero hrpm)
    exact ⟨b, p.sparkSample, hlast, sparkOf_rpmSample p⟩
  · exact hpaired

theorem pairs_sample (h : Pairs labels s) (input : Input) :
    Pairs (labels ++ [.sample input]) (sampleStep .engine s input) := by
  have htakes : takes (labels ++ [.sample input]) = takes labels := by simp [takes]
  obtain ⟨hpaired, hholds⟩ := h
  unfold sampleStep
  cases hpc : s.sampleTask with
  | top =>
    dsimp only
    split_ifs
    · exact ⟨by rwa [htakes], by rwa [htakes]⟩
    · exact ⟨by rwa [htakes], trivial⟩
  | nextEvent =>
    dsimp only
    cases hevents : s.engine.events with
    | nil => exact ⟨by rwa [htakes], trivial⟩
    | cons capture rest => exact ⟨by rwa [htakes], Or.inl rfl⟩
  | stopCheck =>
    refine ⟨by rwa [htakes], ?_⟩
    dsimp only [EngineRpm.stopCheck]
    split_ifs
    · exact Or.inr rfl
    · trivial
  | testActive event begun =>
    rw [hpc] at hholds
    dsimp only
    split_ifs
    · exact ⟨by rwa [htakes], hholds⟩
    · exact ⟨by rwa [htakes], trivial⟩
  | stampEvent event begun =>
    rw [hpc] at hholds
    exact ⟨by rwa [htakes], hholds⟩
  | reserve p =>
    rw [hpc] at hholds
    dsimp only
    split_ifs with hfull hspark hrpm
    · exact ⟨by rwa [htakes], trivial⟩
    · refine ⟨by rwa [htakes], hspark, ?_⟩
      have hcount := count_pos hspark
      change s.queue.length + p.count ≤ sampleQueueLength
      omega
    · exact ⟨by rwa [htakes], Or.inr (hholds.resolve_left hspark)⟩
    · exact ⟨by rwa [htakes], trivial⟩
  | sendSpark p =>
    rw [hpc] at hholds
    obtain ⟨hspark, hroom⟩ := hholds
    obtain ⟨hsent, hlast⟩ := holds_sendSpark hpaired hspark hroom
    refine ⟨by rwa [htakes], ?_⟩
    dsimp only
    split_ifs
    · rw [htakes]
      exact Or.inl ⟨hspark, hlast⟩
    · trivial
  | sendRpm p =>
    rw [hpc] at hholds
    refine ⟨?_, trivial⟩
    rw [htakes]
    exact paired_sendRpm hpaired hholds
  | report => exact ⟨by rwa [htakes], trivial⟩
  | pass | visit | stamp | read | send | evict | resend | settle =>
    rw [hpc] at hholds
    exact hholds.elim

/-- A reset that splits no pair. -/
theorem pairs_reset {a : Action} (h : Pairs labels s) (hkeep : splitsPair s = false)
    (htakes : takes (labels ++ [a]) = takes labels) (hqueue : t.queue = [])
    (hpc : t.sampleTask = s.sampleTask) : Pairs (labels ++ [a]) t := by
  obtain ⟨hpaired, hholds⟩ := h
  refine ⟨?_, ?_⟩
  · rw [htakes, hqueue, List.append_nil]
    exact hpaired.of_append
  · rw [htakes, hqueue, hpc, List.append_nil]
    have hshrunk := hholds.mono (Nat.zero_le _)
    cases hs : s.sampleTask with
    | sendRpm p =>
      rw [hs] at hshrunk
      rcases hshrunk with ⟨hspark, b, hlast⟩ | hzero
      · -- the spark is the last sample, so the queue is empty or contains it
        have hout : p.sparkSample ∉ s.queue := by
          simpa [splitsPair, hs, hspark] using hkeep
        rcases List.eq_nil_or_concat s.queue with hempty | ⟨init, last, hend⟩
        · rw [hempty, List.append_nil] at hlast
          exact Or.inl ⟨hspark, b, hlast⟩
        · rw [hend, List.concat_eq_append, ← List.append_assoc] at hlast
          have hsame := List.singleton_inj.mp (List.append_inj' hlast rfl).2
          exact absurd (by simp [hend, hsame]) hout
      · exact Or.inr hzero
    | _ =>
      rw [hs] at hshrunk
      exact hshrunk

/-- Steps of other tasks that leave the queue alone. -/
theorem pairs_other {a : Action} (h : Pairs labels s)
    (htakes : takes (labels ++ [a]) = takes labels) (hqueue : t.queue = s.queue)
    (hpc : t.sampleTask = s.sampleTask) : Pairs (labels ++ [a]) t := by
  refine ⟨?_, ?_⟩
  · rw [htakes, hqueue]
    exact h.paired
  · rw [htakes, hqueue, hpc]
    exact h.holds

theorem pairs_control (h : Pairs labels s) {nowUs : ℤ}
    (hkeep : s.control = .startReset ∨ s.control = .stopReset → splitsPair s = false)
    (hs : controlStep .engine s nowUs = some t) : Pairs (labels ++ [.control nowUs]) t := by
  have htakes : takes (labels ++ [.control nowUs]) = takes labels := by simp [takes]
  unfold controlStep at hs
  cases hcontrol : s.control with
  | idle => simp [hcontrol] at hs
  | startReset =>
    simp only [hcontrol, Option.some_inj] at hs
    subst hs
    exact pairs_reset h (hkeep (Or.inl hcontrol)) htakes rfl rfl
  | stopReset =>
    simp only [hcontrol, Option.some_inj] at hs
    subst hs
    exact pairs_reset h (hkeep (Or.inr hcontrol)) htakes rfl rfl
  | startDrivers | arm | activate =>
    simp only [hcontrol, Option.some_inj] at hs
    subst hs
    exact pairs_other h htakes rfl rfl

theorem pairs_step {a : Action} (h : Pairs labels s) (hc : KeepsPair s a)
    (hs : step .engine s a = some t) : Pairs (labels ++ [a]) t := by
  cases a with
  | sample input =>
    obtain rfl := Option.some_inj.mp hs
    exact pairs_sample h input
  | take q =>
    simp only [step] at hs
    split at hs
    · rename_i p rest hsending hqueue
      simp only [Option.ite_none_right_eq_some, Option.some_inj] at hs
      obtain ⟨rfl, rfl⟩ := hs
      have hall : takes (labels ++ [.take q]) ++ rest = takes labels ++ s.queue := by
        simp [takes, hqueue]
      refine ⟨?_, ?_⟩
      · rw [hall]
        exact h.paired
      · rw [hall]
        exact h.holds.mono (by simp [hqueue])
    · cases hs
  | edge nowUs =>
    obtain rfl := Option.some_inj.mp hs
    exact pairs_other h (by simp [takes]) rfl rfl
  | transmit frame =>
    simp only [step] at hs
    split at hs
    · cases hs
    · simp only [Option.ite_none_right_eq_some, Option.some_inj] at hs
      obtain ⟨-, rfl⟩ := hs
      exact pairs_other h (by simp [takes]) rfl rfl
  | start | stop =>
    simp only [step, Option.ite_none_right_eq_some] at hs
    obtain ⟨-, hs⟩ := hs
    split_ifs at hs
    · obtain rfl := Option.some_inj.mp hs
      exact pairs_other h (by simp [takes]) rfl rfl
    · obtain rfl := Option.some_inj.mp hs
      exact pairs_other h (by simp [takes]) rfl rfl
  | control nowUs => exact pairs_control h hc hs
  | busOff nowUs =>
    simp only [step] at hs
    split_ifs at hs
    obtain rfl := Option.some_inj.mp hs
    exact pairs_other h (by simp [takes]) rfl rfl
  | busOffReset =>
    simp only [step, Option.ite_none_right_eq_some, Option.some_inj] at hs
    obtain ⟨-, rfl⟩ := hs
    exact pairs_reset h hc (by simp [takes]) rfl rfl

end Steps

/-- As long as no reset removes a spark whose speed is not yet in the queue, `send_task` takes
every speed other than zero directly after its spark. -/
theorem paired_of_run (sensors : List Sensor) (engine : EngineRpm.EngineRpmContext)
    (labels : List Action) (s : Sampler)
    (h : Run (step .engine) KeepsPair (.boot sensors engine) labels s) :
    Paired (takes labels) := by
  have hpairs : Pairs labels s := by
    induction h with
    | nil => exact ⟨paired_nil, trivial⟩
    | snoc _ hc hs ih => exact pairs_step ih hc hs
  exact hpairs.paired.of_append

/-- Steps of `sample_task` at one time. -/
def sampleSteps (n : ℕ) : List Action := List.replicate n (.sample ⟨5020000, 5020, none⟩)

/-- Two edges, all their samples taken, and a stop. -/
theorem twoEdges_paired :
    let spark₀ : Queued := ⟨⟨canIdEngineSpark, 5020, 1⟩, 1, 0⟩
    let spark₁ : Queued := ⟨⟨canIdEngineSpark, 5020, 1⟩, 1, 1⟩
    let rpm₁ : Queued := ⟨⟨canIdEngineRpm, 5020, 3000⟩, 1, 1⟩
    Paired [spark₀, spark₁, rpm₁] := by
  intro spark₀ spark₁ rpm₁
  have hrun : Run (step .engine) KeepsPair (.boot [⟨canIdEngineRpm, 0, 0⟩] ⟨0, 0, 0, []⟩)
      (startCall 1000 ++ [.edge 5000000, .edge 5020000] ++ sampleSteps 14 ++
        [.take spark₀, .transmit (some (SamplePipeline.sendTask spark₀.sample)), .take spark₁,
          .transmit (some (SamplePipeline.sendTask spark₁.sample)), .take rpm₁] ++ stopCall 5030000)
      ⟨false, [], [⟨canIdEngineRpm, 0, 1000⟩], ⟨5020000, 1000, 0, []⟩, [], .report, some rpm₁,
        .idle, false, 1, 1, 2⟩ := Run.of_exec (by decide)
  exact paired_of_run [⟨canIdEngineRpm, 0, 0⟩] ⟨0, 0, 0, []⟩ _ _ hrun

/-- The bus goes off between the two sends of the second event: its speed is taken alone. -/
theorem busOff_separates :
    let labels := startCall 1000 ++ [.edge 5000000, .edge 5020000] ++ sampleSteps 13 ++
      [.busOff 5020100, .busOffReset] ++ sampleSteps 1 ++
      [.take ⟨⟨canIdEngineRpm, 5020, 3000⟩, 1, 1⟩]
    ∃ s, Run (step .engine) Free (.boot [⟨canIdEngineRpm, 0, 0⟩] ⟨0, 0, 0, []⟩) labels s ∧
      ¬ Paired (takes labels) := by
  intro labels
  refine ⟨⟨true, [], [⟨canIdEngineRpm, 0, 1000⟩], ⟨0, 5020100, 0, []⟩, [], .report,
    some ⟨⟨canIdEngineRpm, 5020, 3000⟩, 1, 1⟩, .idle, false, 1, 1, 2⟩, Run.of_exec_free rfl, ?_⟩
  intro hpaired
  obtain ⟨b, p, hlast, -⟩ := hpaired [] ⟨⟨canIdEngineRpm, 5020, 3000⟩, 1, 1⟩ [] rfl
    ⟨rfl, by decide⟩
  exact absurd hlast (by simp)

end BajaDaq.SparkPairing
