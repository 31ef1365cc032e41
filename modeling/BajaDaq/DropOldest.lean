import BajaDaq.OverwritingQueue
import BajaDaq.SamplerTasks
import BajaDaq.TransitionRuns

/-!
# The sample queue when it is full

`enqueue_latest` is up to three operations on the queue, between which `send_task` may take any
number of samples. A run of the tasks is observed together with the calls of `enqueue_latest` and
with what `send_task` has taken.
-/

namespace BajaDaq.DropOldest
open AppProtocol OverwritingQueue SamplerTasks TransitionRuns

/-- The part of `sample_task` that a build with periodic sensors runs. -/
def IsPeriodic : SamplePc → Prop
  | .top | .pass | .visit .. | .stamp .. | .read .. | .send .. | .evict .. | .resend ..
  | .settle .. => True
  | _ => False

/-- Where `enqueue_latest` is. -/
def phaseOf : SamplePc → Phase Queued
  | .send _ _ _ q => .offer q
  | .evict _ _ _ q => .makeRoom q
  | .resend _ _ _ q => .retry q
  | _ => .idle

/-- The record of one step: a successful read calls `enqueue_latest`. -/
def observe (s : Sampler) (a : Action) (h : History Queued) : History Queued :=
  match a with
  | .sample input =>
    match s.sampleTask with
    | .read _ _ _ q =>
      match input.reading with
      | some value => h.enter { q with sample := { q.sample with value := value } }
      | none => h
    | .send .. =>
      if s.queue.length < sampleQueueLength then (h.find s.queue).leave else h.find s.queue
    | .evict .. => h.makeRoom s.queue
    | .resend .. => h.leave
    | _ => h
  | .take q => h.take q
  | _ => h

/-- The step resets the queue. -/
def Resets (s : Sampler) : Action → Prop
  | .busOffReset => True
  | .control _ => s.control = .startReset ∨ s.control = .stopReset
  | _ => False

instance (s : Sampler) : (a : Action) → Decidable (Resets s a)
  | .busOffReset => inferInstanceAs (Decidable True)
  | .control _ => inferInstanceAs (Decidable (_ ∨ _))
  | .sample _ | .edge _ | .take _ | .transmit _ | .start | .stop | .busOff _ =>
    inferInstanceAs (Decidable False)

/-- The record at a reset: a call of `enqueue_latest` may be in progress, whose first send has
found the queue `found`. -/
def beginSession (s : Sampler) (found : List Queued) : History Queued :=
  match phaseOf s.sampleTask with
  | .idle => ⟨[], none, []⟩
  | .offer q => ⟨[], some ⟨q, [], []⟩, []⟩
  | .makeRoom q => ⟨[], some ⟨q, found, []⟩, []⟩
  | .retry q => ⟨[], some ⟨q, found, []⟩, []⟩

/-- The sampler and its record. -/
def Ordered (p : Sampler × History Queued) : Prop :=
  IsPeriodic p.1.sampleTask ∧
    Kept sampleQueueLength p.1.queue (phaseOf p.1.sampleTask) p.2

variable {s t : Sampler} {h : History Queued}

/-- A step that is none of `sample_task` leaves that task alone, the schedule unless it arms it, and
the queue unless it takes a sample or resets. -/
theorem step_frame {a : Action} (hs : step .periodic s a = some t)
    (hsample : ∀ input, a ≠ .sample input) :
    t.sampleTask = s.sampleTask ∧
      ((∀ nowUs, a = .control nowUs → s.control ≠ .arm) → t.sensors = s.sensors) ∧
      (¬ Resets s a → (∀ q, a ≠ .take q) → t.queue = s.queue ∧ observe s a h = h) := by
  cases a with
  | sample input => exact absurd rfl (hsample input)
  | take q =>
    simp only [step] at hs
    split at hs
    · split_ifs at hs
      obtain rfl := Option.some.inj hs
      exact ⟨rfl, fun _ => rfl, fun _ htake => absurd rfl (htake q)⟩
    · cases hs
  | busOffReset =>
    simp only [step] at hs
    split_ifs at hs
    obtain rfl := Option.some.inj hs
    exact ⟨rfl, fun _ => rfl, fun hreset => absurd trivial hreset⟩
  | edge nowUs =>
    obtain rfl := Option.some.inj hs
    exact ⟨rfl, fun _ => rfl, fun _ _ => ⟨rfl, rfl⟩⟩
  | transmit frame =>
    simp only [step] at hs
    cases hsending : s.sending with
    | none => simp [hsending] at hs
    | some p =>
      simp only [hsending] at hs
      split_ifs at hs
      all_goals
        obtain rfl := Option.some.inj hs
        exact ⟨rfl, fun _ => rfl, fun _ _ => ⟨rfl, rfl⟩⟩
  | start | stop =>
    simp only [step] at hs
    split_ifs at hs
    all_goals
      obtain rfl := Option.some.inj hs
      exact ⟨rfl, fun _ => rfl, fun _ _ => ⟨rfl, rfl⟩⟩
  | control nowUs =>
    simp only [step] at hs
    cases hcontrol : s.control with
    | idle => simp [controlStep, hcontrol] at hs
    | startReset =>
      simp only [controlStep, hcontrol] at hs
      obtain rfl := Option.some.inj hs
      exact ⟨rfl, fun _ => rfl, fun hreset => absurd (Or.inl hcontrol) hreset⟩
    | stopReset =>
      simp only [controlStep, hcontrol] at hs
      obtain rfl := Option.some.inj hs
      exact ⟨rfl, fun _ => rfl, fun hreset => absurd (Or.inr hcontrol) hreset⟩
    | arm =>
      simp only [controlStep, hcontrol] at hs
      obtain rfl := Option.some.inj hs
      exact ⟨rfl, fun harm => absurd rfl (harm nowUs rfl), fun _ _ => ⟨rfl, rfl⟩⟩
    | startDrivers | activate =>
      simp only [controlStep, hcontrol] at hs
      obtain rfl := Option.some.inj hs
      exact ⟨rfl, fun _ => rfl, fun _ _ => ⟨rfl, rfl⟩⟩
  | busOff nowUs =>
    simp only [step] at hs
    split_ifs at hs
    obtain rfl := Option.some.inj hs
    exact ⟨rfl, fun _ => rfl, fun _ _ => ⟨rfl, rfl⟩⟩

theorem isPeriodic_sampleStep (input : Input) (hp : IsPeriodic s.sampleTask) :
    IsPeriodic (sampleStep .periodic s input).sampleTask := by
  cases hpc : s.sampleTask with
  | nextEvent | stopCheck | testActive | stampEvent | reserve | sendSpark | sendRpm | report =>
    simp only [hpc] at hp
    exact hp.elim
  | top | pass | visit | stamp | read | send | evict | resend | settle =>
    simp only [sampleStep, hpc]
    repeat' split
    all_goals trivial

/-- `sample_task` of a periodic build stays out of the part for the engine. -/
theorem isPeriodic_of_run {sensors : List Sensor} {engine : EngineRpm.EngineRpmContext}
    {labels : List Action}
    (hrun : Run (step .periodic) Free (Sampler.boot sensors engine) labels s) :
    IsPeriodic s.sampleTask := by
  refine hrun.invariant (I := fun s : Sampler => IsPeriodic s.sampleTask) trivial ?_
  intro s a t hp _ hs
  by_cases hsample : ∃ input, a = .sample input
  · obtain ⟨input, rfl⟩ := hsample
    obtain rfl := Option.some.inj hs
    exact isPeriodic_sampleStep input hp
  · have hframe := (step_frame (h := ⟨[], none, []⟩) hs fun i h => hsample ⟨i, h⟩).1
    exact hframe ▸ hp

theorem ordered_sampleStep (input : Input) (ho : Ordered (s, h)) :
    Ordered (sampleStep .periodic s input, observe s (.sample input) h) := by
  obtain ⟨hp, hk⟩ := ho
  refine ⟨isPeriodic_sampleStep input hp, ?_⟩
  cases hpc : s.sampleTask with
  | read i nowUs nextDueUs q =>
    simp only [hpc, phaseOf] at hk
    simp only [sampleStep, observe, hpc]
    cases input.reading with
    | none => exact hk
    | some value => exact hk.enter _
  | send i nowUs nextDueUs q =>
    simp only [hpc, phaseOf] at hk
    simp only [sampleStep, observe, hpc]
    split_ifs with hroom
    · exact hk.sent hroom
    · exact hk.refused hroom
  | evict i nowUs nextDueUs q =>
    simp only [hpc, phaseOf] at hk
    simp only [sampleStep, observe, hpc]
    exact hk.madeRoom (by decide)
  | resend i nowUs nextDueUs q =>
    simp only [hpc, phaseOf] at hk
    obtain ⟨hroom, hsent⟩ := hk.resent
    simp only [sampleStep, observe, hpc, xQueueSend, if_pos hroom]
    exact hsent
  | top | pass | visit | stamp | settle =>
    -- outside `enqueue_latest` the task moves on and leaves the queue alone
    simp only [hpc, phaseOf] at hk
    simp only [sampleStep, observe, hpc]
    repeat' split
    all_goals first
      | exact hk
      | (simp only [hpc]
         exact hk)
  | nextEvent | stopCheck | testActive | stampEvent | reserve | sendSpark | sendRpm | report =>
    simp only [hpc] at hp
    exact hp.elim

theorem ordered_step {a : Action} (ho : Ordered (s, h)) (hreset : ¬ Resets s a)
    (hs : step .periodic s a = some t) : Ordered (t, observe s a h) := by
  by_cases hsample : ∃ input, a = .sample input
  · obtain ⟨input, rfl⟩ := hsample
    obtain rfl := Option.some.inj hs
    exact ordered_sampleStep input ho
  by_cases htake : ∃ q, a = .take q
  · obtain ⟨q, rfl⟩ := htake
    simp only [step] at hs
    split at hs
    · rename_i p rest hsending hqueue
      split_ifs at hs with hq
      obtain rfl := Option.some.inj hs
      obtain ⟨hp, hk⟩ := ho
      rw [hqueue] at hk
      exact ⟨hp, hq ▸ hk.taken_head⟩
    · cases hs
  · obtain ⟨htask, -, hframe⟩ := step_frame hs fun i h => hsample ⟨i, h⟩
    obtain ⟨hqueue, hobserve⟩ := hframe hreset fun q h => htake ⟨q, h⟩
    unfold Ordered
    rw [hobserve, hqueue, htask]
    exact ho

/-- At a reset. -/
theorem ordered_beginSession {found : List Queued} (hp : IsPeriodic s.sampleTask)
    (hqueue : s.queue = []) (hfound : found.length = sampleQueueLength) :
    Ordered (s, beginSession s found) := by
  refine ⟨hp, ?_⟩
  have hroom : ([] : List Queued).length < sampleQueueLength := by decide
  rw [hqueue, beginSession]
  cases phaseOf s.sampleTask with
  | idle => exact ⟨trivial, hroom.le, .refl _, .refl _, fun _ => rfl, nofun⟩
  | offer q =>
    refine ⟨⟨rfl, rfl⟩, hroom.le, .refl _, .refl _, nofun, ?_⟩
    rintro call hcall a ha
    obtain rfl := List.mem_singleton.mp hcall
    cases ha
  | makeRoom q =>
    refine ⟨⟨rfl, rfl, hfound⟩, hroom.le, .refl _, .refl _, nofun, ?_⟩
    rintro call hcall a ha
    obtain rfl := List.mem_singleton.mp hcall
    cases ha
  | retry q =>
    refine ⟨⟨rfl, hfound, hroom⟩, hroom.le, .refl _, .refl _, nofun, ?_⟩
    rintro call hcall a ha
    obtain rfl := List.mem_singleton.mp hcall
    cases ha

/-- Between two resets, whatever the tasks do: the samples that `send_task` has taken and those in
the queue are in the order of the calls of `enqueue_latest`; the sample of the call that has ended
last is the last of them; any other sample has been discarded, as the oldest in the queue then, by
a call whose first send had found 64 samples. The second send of a call succeeds. -/
theorem enqueueLatest_of_run {sensors : List Sensor} {engine : EngineRpm.EngineRpmContext}
    {before labels : List Action}
    (hbefore : Run (step .periodic) Free (Sampler.boot sensors engine) before s)
    (hqueue : s.queue = []) {found : List Queued} (hfound : found.length = sampleQueueLength)
    (hrun : Run (observed (step .periodic) observe) (fun p a => ¬ Resets p.1 a)
      (s, beginSession s found) labels (t, h)) :
    t.queue.length ≤ sampleQueueLength ∧
      (h.taken ++ t.queue).Sublist (h.ended.map Call.item) ∧
      (h.ended.map Call.item).Perm (h.taken ++ t.queue ++ h.calls.filterMap Call.discarded) ∧
      (h.current = none → ∀ call, h.ended.getLast? = some call →
        t.queue.getLast? = some call.item ∨
          t.queue = [] ∧ h.taken.getLast? = some call.item) ∧
      (∀ call ∈ h.calls, ∀ q, call.discarded = some q → call.found.length = sampleQueueLength) ∧
      (∀ i nowUs nextDueUs q, t.sampleTask = .resend i nowUs nextDueUs q →
        t.queue.length < sampleQueueLength) := by
  have hbegin := ordered_beginSession (isPeriodic_of_run hbefore) hqueue hfound
  have hordered : Ordered (t, h) := by
    refine hrun.invariant hbegin ?_
    rintro ⟨s, h⟩ a ⟨t, h'⟩ ho hreset hs
    obtain ⟨hs, rfl⟩ := observed_eq_some hs
    exact ordered_step ho hreset hs
  obtain ⟨-, hk⟩ := hordered
  refine ⟨hk.bound, hk.order, hk.account, fun hcurrent call hcall => ?_, hk.discards, ?_⟩
  · have hnewest := hk.newest hcurrent
    rw [hcall, Option.map_some] at hnewest
    rcases List.eq_nil_or_concat t.queue with hempty | ⟨rest, q, hlast⟩
    · right
      rw [hempty, List.append_nil] at hnewest
      exact ⟨hempty, hnewest⟩
    · left
      rw [hlast, List.concat_eq_append, ← List.append_assoc, List.getLast?_concat] at hnewest
      rw [hlast, List.concat_eq_append, List.getLast?_concat, hnewest]
  · intro i nowUs nextDueUs q hpc
    simp only [hpc, phaseOf] at hk
    exact hk.resent.1

/-- The generic node has been started at 0. -/
def startedNode : Sampler :=
  ⟨true, [], [⟨canIdGenericAdc, 10000, 0⟩], ⟨0, 0, 0, []⟩, [], .top, none, .idle, false, 1, 1, 0⟩

/-- It samples 65 times while `send_task` takes nothing. -/
def fullQueue : Option (Sampler × History Queued) :=
  exec (Run.guarded (observed (step .periodic) observe) fun p a => ¬ Resets p.1 a)
    (startedNode, beginSession startedNode (List.replicate 64 ⟨⟨0, 0, 0⟩, 0, 0⟩))
    ((List.range 65).flatMap fun k : ℕ => List.replicate (if k < 64 then 8 else 10)
      (.sample ⟨10000 * (k : ℤ), Int32.ofNat (10 * k), some 7⟩))

/-- The 65th call finds 64 samples, discards the first of them and ends with its own as the last
one. -/
theorem fullQueue_ordered : ∃ t h, fullQueue = some (t, h) ∧
    h.calls.filterMap Call.discarded = [⟨⟨canIdGenericAdc, 0, 7⟩, 1, 0⟩] ∧
    t.queue.getLast? = some ⟨⟨canIdGenericAdc, 640, 7⟩, 1, 0⟩ ∧
    (h.taken ++ t.queue).Sublist (h.ended.map Call.item) := by
  have hsome : fullQueue.isSome := by decide +kernel
  obtain ⟨⟨t, h⟩, hfinal⟩ := Option.isSome_iff_exists.mp hsome
  have hstarted : Run (step .periodic) Free
      (.boot [⟨canIdGenericAdc, 10000, 0⟩] ⟨0, 0, 0, []⟩) (startCall 0) startedNode :=
    Run.of_exec_free rfl
  have hordered := enqueueLatest_of_run hstarted rfl (by decide) (Run.of_exec hfinal)
  have hdiscarded : fullQueue.map (fun p => p.2.calls.filterMap Call.discarded) =
      some [⟨⟨canIdGenericAdc, 0, 7⟩, 1, 0⟩] := by decide +kernel
  have hlast : fullQueue.map (fun p => p.1.queue.getLast?) =
      some (some ⟨⟨canIdGenericAdc, 640, 7⟩, 1, 0⟩) := by decide +kernel
  rw [hfinal] at hdiscarded hlast
  exact ⟨t, h, hfinal, Option.some.inj hdiscarded, Option.some.inj hlast, hordered.2.1⟩

end BajaDaq.DropOldest
