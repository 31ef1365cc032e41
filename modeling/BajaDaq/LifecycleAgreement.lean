import BajaDaq.AppLifecycle

/-!
# Four copies of "is recording"

The call that holds the lifecycle mutex is the only one that can see the recording flag,
monitoring and the logger state disagree. `Inside` says how far they are apart at each place of
such a call.
-/

namespace BajaDaq.LifecycleAgreement
open AppLifecycle LiveViewing TransitionRuns
open LoggerSessions (LoggerState)

variable {Task : Type} {s s' : System Task} {t : Task}

/-- The places of a call that holds the mutex. -/
def behindMutex : Pc → Bool
  | .outside | .takeMutex _ => false
  | _ => true

/-- The beacon recording flag is `recording` and monitoring is `monitoring`. -/
def Flags (s : System Task) (recording monitoring : Bool) : Prop :=
  s.recording = recording ∧ s.monitoring = monitoring

/-- What holds when the task with the mutex, which has `stored` or not, is at a place. -/
def Inside (s : System Task) (stored : Bool) : Pc → Prop
  | .outside | .takeMutex _ => False
  | .testIdle | .testRunning | .testLive => Agree s ∧ stored = false
  | .loggerStart | .publishRunning => Agree s ∧ s.state = .idle ∧ stored = false
  | .setMonitoring true => s.state = .running ∧ Flags s false false
  | .setRecording true => s.state = .running ∧ Flags s false true
  | .sendBurst => Agree s
  | .forceStop => Agree s ∧ s.state = .running ∧ stored = false
  | .loggerStop => Agree s ∧ s.state = .running ∧ s.live.enabled = false ∧ stored = false
  | .setRecording false => s.state ≠ .running ∧ Flags s true true
  | .setMonitoring false => s.state ≠ .running ∧ Flags s false true
  | .liveStart => Agree s ∧ s.state = .running ∧ stored = false
  | .giveMutex result => Agree s ∧ (result ≠ .ok → stored = false)

structure LifecycleInvariant (s : System Task) : Prop where
  holder : ∀ t, behindMutex (s.pc t) = true ↔ s.lifecycleMutex = some t
  free : s.lifecycleMutex = none → Agree s
  inside : ∀ t, s.lifecycleMutex = some t → Inside s (s.stored t) (s.pc t)
  waiting : ∀ t call, s.pc t = .takeMutex call → s.stored t = false
  live : s.live.enabled = true → s.state = .running
  returned : ∀ r ∈ s.returned, r.1 ≠ .ok → r.2 = false

theorem lifecycleInvariant_start : LifecycleInvariant (System.start : System Task) where
  holder := by
    intro t
    constructor
    · intro h
      cases h
    · intro h
      cases h
  free := fun _ => ⟨rfl, rfl⟩
  inside := fun t h => by cases h
  waiting := fun _ _ _ => rfl
  live := fun h => by cases h
  returned := fun r hr => by cases hr

theorem agree_running (h : Agree s) (hs : s.state = .running) : Flags s true true := by
  obtain ⟨hr, hm⟩ := h
  exact ⟨by rw [hr, hs]; rfl, by rw [hm, hs]; rfl⟩

theorem agree_not_running (h : Agree s) (hs : s.state ≠ .running) : Flags s false false := by
  obtain ⟨hr, hm⟩ := h
  exact ⟨by rw [hr]; exact decide_eq_false hs, by rw [hm]; exact decide_eq_false hs⟩

theorem agree_of_running (h : Flags s true true) (hs : s.state = .running) : Agree s :=
  ⟨by rw [h.1, hs]; rfl, by rw [h.2, hs]; rfl⟩

theorem agree_of_not_running (h : Flags s false false) (hs : s.state ≠ .running) : Agree s :=
  ⟨by rw [h.1]; exact (decide_eq_false hs).symm, by rw [h.2]; exact (decide_eq_false hs).symm⟩

/-- One more result, of a call that stored nothing unless it returns OK. -/
theorem returned_append {rs : List (AppControlResult × Bool)} {result : AppControlResult}
    {stored : Bool} (h : ∀ r ∈ rs, r.1 ≠ .ok → r.2 = false)
    (hstored : result ≠ .ok → stored = false) :
    ∀ r ∈ rs ++ [(result, stored)], r.1 ≠ .ok → r.2 = false := by
  intro r hr hok
  rcases List.mem_append.mp hr with hr | hr
  · exact h r hr hok
  · rw [List.mem_singleton.mp hr] at hok ⊢
    exact hstored hok

/-- What is known when the task at a place behind the mutex takes its next step. -/
theorem LifecycleInvariant.place {pc : Pc} (h : LifecycleInvariant s) (hpc : s.pc t = pc)
    (hb : behindMutex pc = true) : s.lifecycleMutex = some t ∧ Inside s (s.stored t) pc := by
  have ht := (h.holder t).mp (by rw [hpc]; exact hb)
  refine ⟨ht, ?_⟩
  have hin := h.inside t ht
  rwa [hpc] at hin

/-- A step of another module that keeps what is known in front of and behind the mutex. -/
theorem LifecycleInvariant.environment (h : LifecycleInvariant s) (hpc : s'.pc = s.pc)
    (hmutex : s'.lifecycleMutex = s.lifecycleMutex) (hstored : s'.stored = s.stored)
    (hreturned : s'.returned = s.returned) (hagree : Agree s → Agree s')
    (hinside : ∀ b pc, Inside s b pc → Inside s' b pc)
    (hlive : s'.live.enabled = true → s'.state = .running) : LifecycleInvariant s' where
  holder := by
    rw [hpc, hmutex]
    exact h.holder
  free := by
    rw [hmutex]
    exact fun hnone => hagree (h.free hnone)
  inside := by
    rw [hmutex, hpc, hstored]
    exact fun u hu => hinside _ _ (h.inside u hu)
  waiting := by
    rw [hpc, hstored]
    exact h.waiting
  live := hlive
  returned := by
    rw [hreturned]
    exact h.returned

/-- An operation on the viewing session never enables it. -/
theorem lifecycleInvariant_live (h : LifecycleInvariant s) (op : Operation) :
    LifecycleInvariant { s with live := op.run s.live } := by
  refine h.environment rfl rfl rfl rfl id ?_ (fun hon => h.live (enabled_of_run op hon))
  intro b pc hin
  cases pc with
  | loggerStop =>
    obtain ⟨hagree, hrunning, hoff, hb⟩ := hin
    refine ⟨hagree, hrunning, ?_, hb⟩
    rw [← Bool.not_eq_true] at hoff ⊢
    exact fun hon => hoff (enabled_of_run op hon)
  | setMonitoring enabled => cases enabled <;> exact hin
  | setRecording enabled => cases enabled <;> exact hin
  | _ => exact hin

/-- The writer leaves `stopping`, where nothing counts as recording either. -/
theorem lifecycleInvariant_writerIdle (h : LifecycleInvariant s) (hstop : s.state = .stopping) :
    LifecycleInvariant { s with state := .idle } := by
  have hne : s.state ≠ .running := by rw [hstop]; exact nofun
  have hagree : Agree s → Agree { s with state := .idle } := by
    intro ha
    have hflags : Flags s false false := agree_not_running ha hne
    exact agree_of_not_running hflags nofun
  refine h.environment rfl rfl rfl rfl hagree ?_ (fun hon => absurd (h.live hon) hne)
  intro b pc hin
  cases pc with
  | outside | takeMutex call => exact hin
  | testIdle | testRunning | testLive => exact ⟨hagree hin.1, hin.2⟩
  | loggerStart | publishRunning => exact ⟨hagree hin.1, rfl, hin.2.2⟩
  | forceStop | liveStart | loggerStop => exact absurd hin.2.1 hne
  | sendBurst => exact hagree hin
  | giveMutex result => exact ⟨hagree hin.1, hin.2⟩
  | setMonitoring enabled =>
    cases enabled with
    | true => exact absurd hin.1 hne
    | false => exact ⟨nofun, hin.2⟩
  | setRecording enabled =>
    cases enabled with
    | true => exact absurd hin.1 hne
    | false => exact ⟨nofun, hin.2⟩

variable [DecidableEq Task]

/-- A step of the holder that leaves it behind the mutex: only its own place, its own mark and
the shared variables change. -/
structure Moves (s s' : System Task) (t : Task) (pc : Pc) : Prop where
  pc_eq : s'.pc = Function.update s.pc t pc
  behind : behindMutex pc = true
  mutex : s'.lifecycleMutex = s.lifecycleMutex
  stored : ∀ u, u ≠ t → s'.stored u = s.stored u
  returned : s'.returned = s.returned

theorem LifecycleInvariant.move {pc : Pc} (h : LifecycleInvariant s)
    (ht : s.lifecycleMutex = some t) (hm : Moves s s' t pc)
    (hin : Inside s' (s'.stored t) pc) (hlive : s'.live.enabled = true → s'.state = .running) :
    LifecycleInvariant s' where
  holder := by
    intro u
    rw [hm.pc_eq, hm.mutex]
    by_cases hu : u = t
    · rw [hu, Function.update_self, hm.behind]
      exact ⟨fun _ => ht, fun _ => rfl⟩
    · rw [Function.update_of_ne hu]
      exact h.holder u
  free := by
    intro hnone
    rw [hm.mutex, ht] at hnone
    cases hnone
  inside := by
    intro u hu
    rw [hm.mutex, ht] at hu
    obtain rfl : t = u := Option.some.inj hu
    rw [hm.pc_eq, Function.update_self]
    exact hin
  waiting := by
    intro u call hu
    rw [hm.pc_eq] at hu
    by_cases hut : u = t
    · rw [hut, Function.update_self] at hu
      rw [hu] at hm
      cases hm.behind
    · rw [Function.update_of_ne hut] at hu
      rw [hm.stored u hut]
      exact h.waiting u call hu
  live := hlive
  returned := by
    rw [hm.returned]
    exact h.returned

theorem moves_goTo (pc : Pc) (h : behindMutex pc = true) : Moves s (s.goTo t pc) t pc :=
  ⟨rfl, h, rfl, fun _ _ => rfl, rfl⟩

theorem stored_markStored {u : Task} (h : u ≠ t) : (s.markStored t).stored u = s.stored u :=
  Function.update_of_ne h _ _

/-- A test of the logger state by the holder only chooses the next place. -/
theorem LifecycleInvariant.branch {pc pc' : Pc} {c : Prop} [Decidable c]
    (h : LifecycleInvariant s) (ht : s.lifecycleMutex = some t)
    (hpc : c → behindMutex pc = true ∧ Inside s (s.stored t) pc)
    (hpc' : ¬c → behindMutex pc' = true ∧ Inside s (s.stored t) pc') :
    LifecycleInvariant (s.goTo t (if c then pc else pc')) := by
  have hinside : ∀ q, Inside (s.goTo t q) (s.stored t) q ↔ Inside s (s.stored t) q := by
    intro q
    cases q with
    | setMonitoring enabled => cases enabled <;> exact Iff.rfl
    | setRecording enabled => cases enabled <;> exact Iff.rfl
    | _ => exact Iff.rfl
  split_ifs with hc
  · exact h.move ht (moves_goTo pc (hpc hc).1) ((hinside pc).mpr (hpc hc).2) h.live
  · exact h.move ht (moves_goTo pc' (hpc' hc).1) ((hinside pc').mpr (hpc' hc).2) h.live

/-- The end of the call that holds the mutex. -/
theorem LifecycleInvariant.give {result : AppControlResult} (h : LifecycleInvariant s)
    (ht : s.lifecycleMutex = some t) (hpc : s.pc t = .giveMutex result) :
    LifecycleInvariant { s.finish t result with lifecycleMutex := none } := by
  have hin := h.inside t ht
  rw [hpc] at hin
  obtain ⟨hagree, hstored⟩ := hin
  constructor
  · intro u
    by_cases hu : u = t
    · simp [System.finish, System.goTo, hu, behindMutex]
    · have hother : ¬behindMutex (s.pc u) = true := by
        intro hb
        rw [h.holder u, ht] at hb
        exact hu (Option.some.inj hb).symm
      simpa [System.finish, System.goTo, hu] using hother
  · exact fun _ => hagree
  · intro u hu
    cases hu
  · intro u call hu
    by_cases hut : u = t
    · simp [System.finish, System.goTo, hut] at hu
    · exact h.waiting u call (by simpa [System.finish, System.goTo, hut] using hu)
  · exact h.live
  · exact returned_append h.returned hstored

theorem lifecycleInvariant_proceed {o : Outcome} (h : LifecycleInvariant s)
    (hs : s.proceed t o = some s') : LifecycleInvariant s' := by
  rw [System.proceed] at hs
  cases hpc : s.pc t with
  | outside => simp [hpc] at hs
  | takeMutex call => simp [hpc] at hs
  | testIdle =>
    obtain ⟨ht, hagree, hstored⟩ := h.place hpc rfl
    rw [hpc] at hs
    obtain rfl := Option.some.inj hs
    exact h.branch ht (fun _ => ⟨rfl, hagree, fun _ => hstored⟩)
      (fun hidle => ⟨rfl, hagree, not_not.mp hidle, hstored⟩)
  | loggerStart =>
    obtain ⟨ht, hagree, hidle, hstored⟩ := h.place hpc rfl
    have hfailed : ∀ result, LifecycleInvariant (s.goTo t (.giveMutex result)) :=
      fun result => h.move ht (moves_goTo _ rfl) ⟨hagree, fun _ => hstored⟩ h.live
    simp only [hpc, hidle, ne_eq, not_true_eq_false, if_false] at hs
    cases ho : o.loggerStart with
    | ok =>
      rw [ho] at hs
      obtain rfl := Option.some.inj hs
      exact h.move ht (moves_goTo _ rfl) ⟨hagree, hidle, hstored⟩ h.live
    | invalidName | «exists» | openFailed =>
      rw [ho] at hs
      obtain rfl := Option.some.inj hs
      exact hfailed _
  | publishRunning =>
    obtain ⟨ht, hagree, hidle, -⟩ := h.place hpc rfl
    rw [hpc] at hs
    obtain rfl := Option.some.inj hs
    have hflags : Flags s false false := agree_not_running hagree (by rw [hidle]; exact nofun)
    exact h.move ht ⟨rfl, rfl, rfl, fun u hu => stored_markStored hu, rfl⟩ ⟨rfl, hflags⟩
      (fun _ => rfl)
  | testRunning =>
    obtain ⟨ht, hagree, hstored⟩ := h.place hpc rfl
    rw [hpc] at hs
    obtain rfl := Option.some.inj hs
    exact h.branch ht (fun _ => ⟨rfl, hagree, fun _ => hstored⟩)
      (fun hrunning => ⟨rfl, hagree, not_not.mp hrunning, hstored⟩)
  | forceStop =>
    obtain ⟨ht, hagree, hrunning, hstored⟩ := h.place hpc rfl
    rw [hpc] at hs
    obtain rfl := Option.some.inj hs
    exact h.move ht ⟨rfl, rfl, rfl, fun _ _ => rfl, rfl⟩ ⟨hagree, hrunning, rfl, hstored⟩
      (fun _ => hrunning)
  | loggerStop =>
    obtain ⟨ht, hagree, hrunning, hdisabled, -⟩ := h.place hpc rfl
    simp only [hpc, hrunning, ne_eq, not_true_eq_false, if_false] at hs
    obtain rfl := Option.some.inj hs
    have hflags : Flags s true true := agree_running hagree hrunning
    refine h.move ht ⟨rfl, rfl, rfl, fun u hu => stored_markStored hu, rfl⟩ ⟨nofun, hflags⟩ ?_
    intro henabled
    exact absurd (hdisabled.symm.trans henabled) Bool.false_ne_true
  | setMonitoring enabled =>
    cases enabled with
    | true =>
      obtain ⟨ht, hrunning, hr, -⟩ := h.place hpc rfl
      rw [hpc] at hs
      obtain rfl := Option.some.inj hs
      exact h.move ht ⟨rfl, rfl, rfl, fun u hu => stored_markStored hu, rfl⟩
        ⟨hrunning, hr, rfl⟩ h.live
    | false =>
      obtain ⟨ht, hrunning, hr, -⟩ := h.place hpc rfl
      rw [hpc] at hs
      obtain rfl := Option.some.inj hs
      exact h.move ht ⟨rfl, rfl, rfl, fun u hu => stored_markStored hu, rfl⟩
        (agree_of_not_running ⟨hr, rfl⟩ hrunning) h.live
  | setRecording enabled =>
    cases enabled with
    | true =>
      obtain ⟨ht, hrunning, -, hm⟩ := h.place hpc rfl
      rw [hpc] at hs
      obtain rfl := Option.some.inj hs
      exact h.move ht ⟨rfl, rfl, rfl, fun u hu => stored_markStored hu, rfl⟩
        (agree_of_running ⟨rfl, hm⟩ hrunning) h.live
    | false =>
      obtain ⟨ht, hrunning, -, hm⟩ := h.place hpc rfl
      rw [hpc] at hs
      obtain rfl := Option.some.inj hs
      exact h.move ht ⟨rfl, rfl, rfl, fun u hu => stored_markStored hu, rfl⟩
        ⟨hrunning, rfl, hm⟩ h.live
  | sendBurst =>
    obtain ⟨ht, hagree⟩ := h.place hpc rfl
    rw [hpc] at hs
    obtain rfl := Option.some.inj hs
    exact h.move ht (moves_goTo _ rfl) ⟨hagree, fun hok => absurd rfl hok⟩ h.live
  | testLive =>
    obtain ⟨ht, hagree, hstored⟩ := h.place hpc rfl
    rw [hpc] at hs
    obtain rfl := Option.some.inj hs
    exact h.branch ht (fun _ => ⟨rfl, hagree, fun _ => hstored⟩)
      (fun hrunning => ⟨rfl, hagree, not_not.mp hrunning, hstored⟩)
  | liveStart =>
    obtain ⟨ht, hagree, hrunning, hstored⟩ := h.place hpc rfl
    rw [hpc] at hs
    obtain rfl := Option.some.inj hs
    exact h.move ht ⟨rfl, rfl, rfl, fun _ _ => rfl, rfl⟩ ⟨hagree, fun _ => hstored⟩
      (fun _ => hrunning)
  | giveMutex result =>
    have ht := (h.place hpc rfl).1
    rw [hpc] at hs
    obtain rfl := Option.some.inj hs
    exact h.give ht hpc

/-- A task in front of the mutex changes its own place only; `returned` and its own mark are
checked separately. -/
theorem LifecycleInvariant.wait {pc : Pc} (h : LifecycleInvariant s)
    (hpc : behindMutex (s.pc t) = false) (hpc' : behindMutex pc = false)
    (hs' : s'.pc = Function.update s.pc t pc) (hstate : s'.state = s.state)
    (hflags : Flags s' s.recording s.monitoring) (hlive : s'.live = s.live)
    (hmutex : s'.lifecycleMutex = s.lifecycleMutex)
    (hstored : ∀ u, u ≠ t → s'.stored u = s.stored u)
    (hwaiting : ∀ call, pc = .takeMutex call → s'.stored t = false)
    (hreturned : ∀ r ∈ s'.returned, r.1 ≠ .ok → r.2 = false) : LifecycleInvariant s' := by
  have hagree : Agree s ↔ Agree s' := by rw [Agree, Agree, hflags.1, hflags.2, hstate]
  have hother : ∀ u, s.lifecycleMutex = some u → u ≠ t := by
    intro u hu hut
    rw [← h.holder u, hut, hpc] at hu
    cases hu
  have hinside : ∀ b pc, Inside s b pc → Inside s' b pc := by
    intro b pc hin
    cases pc with
    | outside | takeMutex call => exact hin
    | setMonitoring enabled =>
      cases enabled <;> simpa only [Inside, Flags, hflags.1, hflags.2, hstate] using hin
    | setRecording enabled =>
      cases enabled <;> simpa only [Inside, Flags, hflags.1, hflags.2, hstate] using hin
    | _ => simpa only [Inside, ← hagree, hstate, hlive] using hin
  constructor
  · intro u
    rw [hs', hmutex]
    by_cases hu : u = t
    · rw [hu, Function.update_self, hpc', ← h.holder t, hpc]
    · rw [Function.update_of_ne hu]
      exact h.holder u
  · intro hnone
    rw [hmutex] at hnone
    exact hagree.mp (h.free hnone)
  · intro u hu
    rw [hmutex] at hu
    have hne := hother u hu
    rw [hs', Function.update_of_ne hne, hstored u hne]
    exact hinside _ _ (h.inside u hu)
  · intro u call hu
    rw [hs'] at hu
    by_cases hut : u = t
    · rw [hut, Function.update_self] at hu
      rw [hut]
      exact hwaiting call hu
    · rw [Function.update_of_ne hut] at hu
      rw [hstored u hut]
      exact h.waiting u call hu
  · rw [hlive, hstate]
    exact h.live
  · exact hreturned

theorem lifecycleInvariant_call {call : Call} (h : LifecycleInvariant s)
    (hpc : s.pc t = .outside)
    (hs : (let s := { s with stored := Function.update s.stored t false }
      if call = .startLiveData false then s.finish t .failed
      else s.goTo t (.takeMutex call)) = s') :
    LifecycleInvariant s' := by
  have hout : behindMutex (s.pc t) = false := by rw [hpc]; rfl
  have hother : ∀ u, u ≠ t → Function.update s.stored t false u = s.stored u :=
    fun u hu => Function.update_of_ne hu _ _
  have hself : Function.update s.stored t false t = false := Function.update_self ..
  subst hs
  dsimp only
  split_ifs with hcall
  · exact h.wait hout rfl rfl rfl ⟨rfl, rfl⟩ rfl rfl hother nofun
      (returned_append h.returned (fun _ => hself))
  · exact h.wait hout rfl rfl rfl ⟨rfl, rfl⟩ rfl rfl hother (fun _ _ => hself) h.returned

/-- The wait for the mutex ran into its timeout. -/
theorem lifecycleInvariant_timeout {call : Call} (h : LifecycleInvariant s)
    (hpc : s.pc t = .takeMutex call) : LifecycleInvariant (s.finish t .failed) := by
  have hout : behindMutex (s.pc t) = false := by rw [hpc]; rfl
  have hstored := h.waiting t call hpc
  exact h.wait hout rfl rfl rfl ⟨rfl, rfl⟩ rfl rfl (fun _ _ => rfl) nofun
    (returned_append h.returned (fun _ => hstored))

theorem lifecycleInvariant_take {call : Call} (h : LifecycleInvariant s)
    (hpc : s.pc t = .takeMutex call) (hfree : s.lifecycleMutex = none) :
    LifecycleInvariant { s.goTo t (System.entry call) with lifecycleMutex := some t } := by
  have hagree := h.free hfree
  have hstored := h.waiting t call hpc
  constructor
  · intro u
    by_cases hu : u = t
    · cases call <;> simp [System.goTo, System.entry, hu, behindMutex]
    · have hnot : ¬behindMutex (s.pc u) = true := by
        rw [h.holder u, hfree]
        exact nofun
      simpa [System.goTo, hu, Ne.symm hu] using hnot
  · intro hnone
    cases hnone
  · intro u hu
    obtain rfl : t = u := Option.some.inj hu
    cases call <;> simpa [System.goTo, System.entry, Inside] using ⟨hagree, hstored⟩
  · intro u call' hu
    by_cases hut : u = t
    · cases call <;> simp [System.goTo, System.entry, hut] at hu
    · exact h.waiting u call' (by simpa [System.goTo, hut] using hu)
  · exact h.live
  · exact h.returned

theorem lifecycleInvariant_step (s : System Task) (a : Label Task) (s' : System Task)
    (h : LifecycleInvariant s) (hs : step s a = some s') : LifecycleInvariant s' := by
  cases a with
  | call t call =>
    by_cases hpc : s.pc t = .outside
    · rw [step, if_pos hpc] at hs
      exact lifecycleInvariant_call h hpc (Option.some.inj hs)
    · simp [step, hpc] at hs
  | take t taken =>
    cases hpc : s.pc t with
    | takeMutex call =>
      simp only [step, hpc] at hs
      split_ifs at hs with htaken hfree
      · obtain rfl := Option.some.inj hs
        exact lifecycleInvariant_take h hpc hfree
      · obtain rfl := Option.some.inj hs
        exact lifecycleInvariant_timeout h hpc
    | _ => simp [step, hpc] at hs
  | proceed t o => exact lifecycleInvariant_proceed h hs
  | live op =>
    obtain rfl := Option.some.inj hs
    exact lifecycleInvariant_live h op
  | writerIdle =>
    simp only [step] at hs
    split_ifs at hs with hstop
    obtain rfl := Option.some.inj hs
    exact lifecycleInvariant_writerIdle h hstop

/-- After every run of any number of tasks the copies agree outside the mutex, viewing is live
only while recording, and only calls that return OK have stored a copy. -/
theorem lifecycle_of_run {as : List (Label Task)} (h : Run step Free System.start as s) :
    Lifecycle s := by
  have hI := h.invariant lifecycleInvariant_start
    (fun s a t hI _ hs => lifecycleInvariant_step s a t hI hs)
  exact ⟨hI.free, hI.live, hI.returned⟩

/-- A recording is started, watched and stopped; a second start fails on the way. -/
def watchedRecording : List (Label Bool) :=
  let o : Outcome := ⟨.ok, 0, 7⟩
  [.call false .startLogging, .take false true] ++ List.replicate 7 (.proceed false o) ++
    [.call true .startLogging, .take true true, .proceed true o, .proceed true o,
      .call false (.startLiveData true), .call true .stopLogging, .take false true,
      .proceed false o, .proceed false o, .take true false, .proceed false o,
      .live (.isEnabled 5), .call true .stopLogging, .take true true] ++
    List.replicate 7 (.proceed true o) ++ [.writerIdle]

def afterWatched : System Bool := ((exec step .start watchedRecording).getD .start)

theorem watchedRecording_lifecycle :
    afterWatched.returned = [(.ok, true), (.conflict, false), (.failed, false), (.ok, false),
      (.ok, true)] ∧ Lifecycle afterWatched :=
  have hrun : Run step Free .start watchedRecording afterWatched := Run.of_exec_free rfl
  ⟨rfl, lifecycle_of_run hrun⟩

end BajaDaq.LifecycleAgreement
