import BajaDaq.NodeRegistry

/-!
# Which nodes are marked offline

A check subtracts ticks that two tasks stored. It is right as long as `last_seen` is not ahead
of the captured tick, and as long as enabling has reached the node and has not put its
`last_seen` back behind a frame.
-/

namespace BajaDaq.OfflineMarks
open AppProtocol NodeRegistry TransitionRuns

variable {rate : TickRate} {s t : Registry}

/-- A node is marked only with monitoring enabled, and only a full timeout after every frame
recorded for it and after every enabling. -/
def MarksJustified (rate : TickRate) : List Event → Prop
  | [] => True
  | .marked id ticks :: earlier =>
    (∃ e, .enabled e ∈ earlier) ∧
    (∀ e, .enabled e ∈ earlier → e + rate.ticksOf nodeOfflineTimeoutMs ≤ ticks) ∧
    (∀ r, .recorded id r ∈ earlier → r + rate.ticksOf nodeOfflineTimeoutMs ≤ ticks) ∧
    MarksJustified rate earlier
  | .enabled _ :: earlier | .recorded _ _ :: earlier => MarksJustified rate earlier

/-- The first node whose `last_seen` an enabling call has still to store. -/
def firstPending : SetterPc → ℕ
  | .readTick true => 0
  | .store true _ id .offline => id + 1
  | .store true _ id _ => id
  | _ => canNodeSlotCount

/-- A check that would mark a node sees a `last_seen` that is not ahead of its tick and that
enabling has reached. -/
def CheckCurrent (rate : TickRate) (s : Registry) : MonitorPc → Prop
  | .waiting => True
  | .checking now id => isConfiguredNode id → s.expired rate now id →
      s.seenAt id ≤ s.capturedAt ∧ id < firstPending s.setter

/-- Enabling does not put the `last_seen` of a node back. -/
def StoreCurrent (s : Registry) : SetterPc → Prop
  | .store true _ id .lastSeen => isConfiguredNode id → s.seenAt id ≤ s.readAt
  | _ => True

def StepCurrent (rate : TickRate) (s : Registry) : Label → Prop
  | .check => CheckCurrent rate s s.monitor
  | .setterStep => StoreCurrent s s.setter
  | _ => True

instance (s : Registry) (pc : MonitorPc) : Decidable (CheckCurrent rate s pc) :=
  match pc with
  | .waiting => isTrue trivial
  | .checking _ _ => inferInstanceAs (Decidable (_ → _ → _))

instance (s : Registry) (pc : SetterPc) : Decidable (StoreCurrent s pc) :=
  match pc with
  | .store true _ _ .lastSeen => inferInstanceAs (Decidable (_ → _))
  | .store true _ _ .dataSeen | .store true _ _ .offline | .store false _ _ _
  | .readTick _ | .ready => isTrue trivial

instance (s : Registry) (a : Label) : Decidable (StepCurrent rate s a) :=
  match a with
  | .check => inferInstanceAs (Decidable (CheckCurrent rate s s.monitor))
  | .setterStep => inferInstanceAs (Decidable (StoreCurrent s s.setter))
  | .advance _ | .setMonitoring _ | .recordSensorFrame _ | .recorderStep | .capture =>
    isTrue trivial

/-- All frames recorded for the node and all enablings lie at or before `t`. -/
def Covered (history : List Event) (id t : ℕ) : Prop :=
  (∀ r, .recorded id r ∈ history → r ≤ t) ∧ ∀ e, .enabled e ∈ history → e ≤ t

structure RegistryInvariant (rate : TickRate) (s : Registry) : Prop where
  past : ∀ e ∈ s.history, e.ticks ≤ s.ticks
  last_seen : ∀ id, (s.nodes id).lastSeen = UInt32.ofNat (s.seenAt id)
  captured : ∀ now id, s.monitor = .checking now id →
    now = UInt32.ofNat s.capturedAt ∧ s.capturedAt ≤ s.ticks
  read : ∀ enabled now id field, s.setter = .store enabled now id field →
    now = UInt32.ofNat s.readAt ∧ s.monitoring = enabled
  reading : ∀ enabled, s.setter = .readTick enabled → s.monitoring = enabled
  enabled : s.monitoring = true → ∃ e, .enabled e ∈ s.history
  reached : s.monitoring = true → ∀ id, isConfiguredNode id → id < firstPending s.setter →
    Covered s.history id (s.seenAt id)
  pending : ∀ now next field, s.setter = .store true now next field → ∀ id,
    isConfiguredNode id → Covered s.history id (max s.readAt (s.seenAt id))
  justified : MarksJustified rate s.history

theorem covered_mono {history : List Event} {id t t' : ℕ} (h : Covered history id t)
    (hle : t ≤ t') : Covered history id t' :=
  ⟨fun r hr => Nat.le_trans (h.1 r hr) hle, fun e he => Nat.le_trans (h.2 e he) hle⟩

/-- Everything in the history is over by now. -/
theorem covered_of_past {history : List Event} {t : ℕ} (h : ∀ e ∈ history, e.ticks ≤ t) (id : ℕ) :
    Covered history id t :=
  ⟨fun _ hr => h _ hr, fun _ he => h _ he⟩

theorem registryInvariant_start : RegistryInvariant rate .start where
  past := nofun
  last_seen _ := rfl
  captured := nofun
  read := nofun
  reading := nofun
  enabled := nofun
  reached := nofun
  pending := nofun
  justified := trivial

theorem registryInvariant_advance (hI : RegistryInvariant rate s) (n : ℕ) :
    RegistryInvariant rate { s with ticks := s.ticks + n } :=
  { hI with
    past := fun e he => Nat.le_add_right_of_le (hI.past e he)
    captured := fun now id h =>
      ⟨(hI.captured now id h).1, Nat.le_add_right_of_le (hI.captured now id h).2⟩ }

/-- Any store that leaves `last_seen` alone. -/
theorem registryInvariant_nodes (hI : RegistryInvariant rate s) (id : ℕ) (node : RegisteredNode)
    (h : node.lastSeen = (s.nodes id).lastSeen) : RegistryInvariant rate (s.setNode id node) := by
  refine { hI with last_seen := ?_ }
  intro j
  by_cases hj : j = id
  · subst hj
    simpa [Registry.setNode, h] using hI.last_seen j
  · simpa [Registry.setNode, hj] using hI.last_seen j

/-- The setter goes on to a place that leaves no more configured nodes behind it. -/
theorem registryInvariant_setter (hI : RegistryInvariant rate s) {pc : SetterPc}
    (hread : ∀ enabled now id field, pc = .store enabled now id field →
      now = UInt32.ofNat s.readAt ∧ s.monitoring = enabled)
    (hreading : ∀ enabled, pc ≠ .readTick enabled)
    (hfirst : s.monitoring = true → ∀ id, isConfiguredNode id → id < firstPending pc →
      id < firstPending s.setter)
    (hpending : ∀ now next field, pc = .store true now next field →
      ∃ now next field, s.setter = .store true now next field) :
    RegistryInvariant rate { s with setter := pc } :=
  { hI with
    read := hread
    reading := fun enabled h => absurd h (hreading enabled)
    reached := fun hm id hid hlt => hI.reached hm id hid (hfirst hm id hid hlt)
    pending := fun now next field h => by
      obtain ⟨now', next', field', hold⟩ := hpending now next field h
      exact hI.pending now' next' field' hold }

/-- From node `n` on the loop has stored the configured nodes before it. -/
theorem lt_of_lt_setterAt {now : UInt32} {n id : ℕ} (hid : isConfiguredNode id = true)
    (h : id < firstPending (Registry.setterAt true now n)) : id < n := by
  unfold Registry.setterAt at h
  split_ifs at h with hn
  · exact h
  · have hlt := isConfiguredNode_lt hid
    omega

theorem setterAt_cases (enabled : Bool) (now : UInt32) (n : ℕ) :
    Registry.setterAt enabled now n = .store enabled now n .dataSeen ∨
      Registry.setterAt enabled now n = .ready := by
  unfold Registry.setterAt
  split_ifs
  · exact .inl rfl
  · exact .inr rfl

/-- The setter goes on to the next node. -/
theorem registryInvariant_setterAt (hI : RegistryInvariant rate s) {enabled : Bool} {now : UInt32}
    {id : ℕ} {field : Field} (hs : s.setter = .store enabled now id field)
    (hdone : isConfiguredNode id = true → field = .offline) :
    RegistryInvariant rate { s with setter := Registry.setterAt enabled now (id + 1) } := by
  obtain ⟨hnow, hmonitoring⟩ := hI.read _ _ _ _ hs
  apply registryInvariant_setter hI
  · intro enabled' now' id' field' h
    rcases setterAt_cases enabled now (id + 1) with heq | heq <;> rw [heq] at h <;> cases h
    exact ⟨hnow, hmonitoring⟩
  · intro enabled' h
    rcases setterAt_cases enabled now (id + 1) with heq | heq <;> rw [heq] at h <;> cases h
  · intro hm j hj hlt
    obtain rfl : enabled = true := hmonitoring.symm.trans hm
    have hle := lt_of_lt_setterAt hj hlt
    rw [hs]
    cases field with
    | offline => exact hle
    | dataSeen | lastSeen =>
      have hne : j ≠ id := by
        rintro rfl
        cases hdone hj
      change j < id
      omega
  · intro now' next field' h
    rcases setterAt_cases enabled now (id + 1) with heq | heq <;> rw [heq] at h <;> cases h
    exact ⟨_, _, _, hs⟩

/-- The setter's store of `last_seen`; an enabling one does not put it back. -/
theorem registryInvariant_setterSeen (hI : RegistryInvariant rate s) {enabled : Bool}
    {now : UInt32} {id : ℕ} (hs : s.setter = .store enabled now id .lastSeen)
    (hkeep : enabled = true → s.seenAt id ≤ s.readAt) :
    RegistryInvariant rate { s.setLastSeen id now s.readAt with
      setter := .store enabled now id .offline } := by
  obtain ⟨hnow, hmonitoring⟩ := hI.read _ _ _ _ hs
  have hseen : enabled = true → ∀ j, s.seenAt j ≤ Function.update s.seenAt id s.readAt j := by
    intro he j
    by_cases hj : j = id
    · subst hj
      simpa using hkeep he
    · simp [hj]
  refine { hI with last_seen := ?_, read := ?_, reading := nofun, reached := ?_, pending := ?_ }
  · intro j
    by_cases hj : j = id
    · subst hj
      simpa [Registry.setLastSeen] using hnow
    · simpa [Registry.setLastSeen, hj] using hI.last_seen j
  · rintro _ _ _ _ ⟨⟩
    exact ⟨hnow, hmonitoring⟩
  · intro hm j hj hlt
    obtain rfl : enabled = true := hmonitoring.symm.trans hm
    by_cases hji : j = id
    · subst hji
      have hcovered := hI.pending _ _ _ hs j hj
      rw [Nat.max_eq_left (hkeep rfl)] at hcovered
      simpa [Registry.setLastSeen] using hcovered
    · have hbefore : j < firstPending s.setter := by
        rw [hs]
        change j < id + 1 at hlt
        change j < id
        omega
      exact covered_mono (hI.reached hm j hj hbefore) (hseen rfl j)
  · rintro _ _ _ ⟨⟩ j hj
    have hle := hseen rfl j
    refine covered_mono (hI.pending _ _ _ hs j hj) ?_
    simp only [Registry.setLastSeen]
    omega

/-- The setter reads the tick counter and turns to the first node. -/
theorem registryInvariant_readTick (hI : RegistryInvariant rate s) {enabled : Bool}
    (hs : s.setter = .readTick enabled) :
    RegistryInvariant rate
      { s with readAt := s.ticks, setter := Registry.setterAt enabled s.tickCount 1 } := by
  have hmonitoring := hI.reading enabled hs
  refine { hI with read := ?_, reading := nofun, reached := ?_, pending := ?_ }
  · rintro _ _ _ _ ⟨⟩
    exact ⟨rfl, hmonitoring⟩
  · intro hm j hj hlt
    obtain rfl : enabled = true := hmonitoring.symm.trans hm
    obtain rfl : j = 0 := Nat.lt_one_iff.mp hlt
    cases hj
  · intro _ _ _ _ j _
    exact covered_mono (covered_of_past hI.past j) (Nat.le_max_left _ _)

theorem registryInvariant_setterStep (hI : RegistryInvariant rate s)
    (hC : StepCurrent rate s .setterStep) (h : s.setterStep = some t) :
    RegistryInvariant rate t := by
  unfold Registry.setterStep at h
  split at h
  next => cases h
  next enabled hs =>
    obtain rfl := Option.some.inj h
    exact registryInvariant_readTick hI hs
  next enabled now id field hs =>
    by_cases hid : isConfiguredNode id = true
    · rw [hid] at h
      simp only [Bool.not_true, Bool.false_eq_true, if_false] at h
      cases field with
      | dataSeen =>
        obtain rfl := Option.some.inj h
        have hnode := registryInvariant_nodes hI id { s.nodes id with dataSeen := false } rfl
        obtain ⟨hnow, hmonitoring⟩ := hI.read _ _ _ _ hs
        apply registryInvariant_setter hnode
        · rintro _ _ _ _ ⟨⟩
          exact ⟨hnow, hmonitoring⟩
        · nofun
        · intro hm j _ hlt
          obtain rfl : enabled = true := hmonitoring.symm.trans hm
          change j < firstPending s.setter
          rw [hs]
          exact hlt
        · rintro _ _ _ ⟨⟩
          exact ⟨_, _, _, hs⟩
      | lastSeen =>
        obtain rfl := Option.some.inj h
        refine registryInvariant_setterSeen hI hs ?_
        rintro rfl
        simp only [StepCurrent, hs] at hC
        exact hC hid
      | offline =>
        obtain rfl := Option.some.inj h
        have hnode := registryInvariant_nodes hI id { s.nodes id with offline := false } rfl
        exact registryInvariant_setterAt hnode hs (fun _ => rfl)
    · rw [Bool.not_eq_true] at hid
      rw [hid] at h
      obtain rfl := Option.some.inj h
      exact registryInvariant_setterAt hI hs (fun h => by simp [hid] at h)

theorem registryInvariant_setMonitoring (hI : RegistryInvariant rate s) (enabled : Bool) :
    RegistryInvariant rate { s with
      monitoring := enabled
      setter := .readTick enabled
      history := if enabled then .enabled s.ticks :: s.history else s.history } := by
  cases enabled with
  | false =>
    exact { hI with
      read := nofun
      reading := by rintro _ ⟨⟩; rfl
      enabled := nofun
      reached := nofun
      pending := nofun }
  | true =>
    refine { hI with
      past := ?_
      read := nofun
      reading := by rintro _ ⟨⟩; rfl
      enabled := fun _ => ⟨s.ticks, List.mem_cons_self ..⟩
      reached := nofun
      pending := nofun
      justified := hI.justified }
    intro e he
    rcases List.mem_cons.mp he with rfl | he
    · exact Nat.le_refl _
    · exact hI.past e he

theorem covered_cons {history : List Event} {e : Event} {id t : ℕ} (h : Covered history id t)
    (he : (∀ r, e ≠ .recorded id r) ∧ ∀ r, e ≠ .enabled r) : Covered (e :: history) id t := by
  constructor
  · intro r hr
    rcases List.mem_cons.mp hr with hr | hr
    · exact absurd hr.symm (he.1 r)
    · exact h.1 r hr
  · intro r hr
    rcases List.mem_cons.mp hr with hr | hr
    · exact absurd hr.symm (he.2 r)
    · exact h.2 r hr

/-- The recorder's store of `last_seen` brings the node up to now. -/
theorem registryInvariant_recorderSeen (hI : RegistryInvariant rate s) (id : ℕ) :
    RegistryInvariant rate { s.setLastSeen id s.tickCount s.ticks with
      recorder := .store id .offline
      history := .recorded id s.ticks :: s.history } := by
  have hpast : ∀ e ∈ Event.recorded id s.ticks :: s.history, e.ticks ≤ s.ticks := by
    intro e he
    rcases List.mem_cons.mp he with rfl | he
    · exact Nat.le_refl _
    · exact hI.past e he
  -- the record concerns one node; the others keep what covered them
  have hcovered : ∀ j bound, (∀ t, s.seenAt j = t → Covered s.history j (max bound t)) →
      Covered (.recorded id s.ticks :: s.history) j
        (max bound (Function.update s.seenAt id s.ticks j)) := by
    intro j bound hj
    by_cases hji : j = id
    · subst hji
      rw [Function.update_self]
      exact covered_mono (covered_of_past hpast j) (Nat.le_max_right _ _)
    · rw [Function.update_of_ne hji]
      refine covered_cons (hj _ rfl) ⟨?_, nofun⟩
      rintro r ⟨⟩
      exact hji rfl
  refine { hI with
    past := hpast
    last_seen := ?_
    enabled := fun hm => ?_
    reached := ?_
    pending := ?_
    justified := hI.justified }
  · intro j
    by_cases hj : j = id
    · subst hj
      simp [Registry.setLastSeen, Registry.tickCount]
    · simpa [Registry.setLastSeen, hj] using hI.last_seen j
  · obtain ⟨e, he⟩ := hI.enabled hm
    exact ⟨e, List.mem_cons_of_mem _ he⟩
  · intro hm j hj hlt
    have h := hcovered j 0 (fun t ht => by
      rw [Nat.zero_max, ← ht]
      exact hI.reached hm j hj hlt)
    rwa [Nat.zero_max] at h
  · intro now next field hs j hj
    exact hcovered j s.readAt (fun t ht => ht ▸ hI.pending now next field hs j hj)

theorem registryInvariant_recorder (hI : RegistryInvariant rate s) (pc : RecorderPc) :
    RegistryInvariant rate { s with recorder := pc } := { hI with }

/-- A mark under the condition comes a full timeout after everything the node's `last_seen`
covers. -/
theorem registryInvariant_mark (hI : RegistryInvariant rate s) {now : UInt32} {id : ℕ}
    (hs : s.monitor = .checking now id) (hid : isConfiguredNode id = true)
    (hexpired : s.expired rate now id = true) (hahead : s.seenAt id ≤ s.capturedAt)
    (hreached : id < firstPending s.setter) :
    RegistryInvariant rate { s.setNode id { s.nodes id with offline := true } with
      history := .marked id s.ticks :: s.history } := by
  obtain ⟨rfl, hcaptured⟩ := hI.captured now id hs
  simp only [Registry.expired, Bool.and_eq_true, decide_eq_true_eq] at hexpired
  obtain ⟨⟨hm, -⟩, htest⟩ := hexpired
  rw [hI.last_seen] at htest
  have htimeout := le_of_le_sub hahead htest
  obtain ⟨hrecords, henables⟩ := hI.reached hm id hid hreached
  have hnode := registryInvariant_nodes hI id { s.nodes id with offline := true } rfl
  refine { hnode with
    past := ?_
    enabled := fun hm => ?_
    reached := fun hm j hj hlt => covered_cons (hI.reached hm j hj hlt) ⟨nofun, nofun⟩
    pending := fun now next field hs j hj =>
      covered_cons (hI.pending now next field hs j hj) ⟨nofun, nofun⟩
    justified := ⟨hI.enabled hm, ?_, ?_, hI.justified⟩ }
  · intro e he
    rcases List.mem_cons.mp he with rfl | he
    · exact Nat.le_refl _
    · exact hI.past e he
  · obtain ⟨e, he⟩ := hI.enabled hm
    exact ⟨e, List.mem_cons_of_mem _ he⟩
  · intro e he
    have hle := henables e he
    omega
  · intro r hr
    have hle := hrecords r hr
    omega

theorem registryInvariant_check (hI : RegistryInvariant rate s) (hC : StepCurrent rate s .check)
    {now : UInt32} {id : ℕ} (hs : s.monitor = .checking now id) :
    RegistryInvariant rate (s.check rate now id) := by
  have hnext : ∀ s' : Registry, RegistryInvariant rate s' → s'.monitor = .checking now id →
      RegistryInvariant rate { s' with
        monitor := if id + 1 < canNodeSlotCount then .checking now (id + 1) else .waiting } := by
    intro s' hI' hs'
    refine { hI' with captured := ?_ }
    intro now' id' h
    dsimp only at h
    split_ifs at h
    cases h
    exact hI'.captured now id hs'
  unfold Registry.check
  by_cases hmark : (isConfiguredNode id && s.expired rate now id) = true
  · obtain ⟨hid, hexpired⟩ := Bool.and_eq_true_iff.mp hmark
    simp only [StepCurrent, hs] at hC
    obtain ⟨hahead, hreached⟩ := hC hid hexpired
    simp only [hmark, if_true]
    exact hnext _ (registryInvariant_mark hI hs hid hexpired hahead hreached) hs
  · simp only [hmark]
    exact hnext s hI hs

theorem registryInvariant_recorderStep (hI : RegistryInvariant rate s)
    (h : s.recorderStep = some t) : RegistryInvariant rate t := by
  unfold Registry.recorderStep at h
  split at h
  next => cases h
  next id hs =>
    obtain rfl := Option.some.inj h
    exact registryInvariant_recorder
      (registryInvariant_nodes hI id { s.nodes id with dataSeen := true } rfl) _
  next id hs =>
    obtain rfl := Option.some.inj h
    exact registryInvariant_recorderSeen hI id
  next id hs =>
    obtain rfl := Option.some.inj h
    exact registryInvariant_recorder
      (registryInvariant_nodes hI id { s.nodes id with offline := false } rfl) _

theorem registryInvariant_step {a : Label} (hI : RegistryInvariant rate s)
    (hC : StepCurrent rate s a) (h : step rate s a = some t) : RegistryInvariant rate t := by
  cases a with
  | advance n =>
    obtain rfl := Option.some.inj h
    exact registryInvariant_advance hI n
  | setMonitoring enabled =>
    simp only [step] at h
    by_cases hready : s.setter = .ready
    · rw [if_pos hready] at h
      obtain rfl := Option.some.inj h
      exact registryInvariant_setMonitoring hI enabled
    · simp [hready] at h
  | setterStep => exact registryInvariant_setterStep hI hC h
  | recordSensorFrame message =>
    simp only [step] at h
    by_cases hready : s.recorder = .ready
    · rw [if_pos hready] at h
      obtain rfl := Option.some.inj h
      exact registryInvariant_recorder hI _
    · simp [hready] at h
  | recorderStep => exact registryInvariant_recorderStep hI h
  | capture =>
    simp only [step] at h
    split_ifs at h
    obtain rfl := Option.some.inj h
    refine { hI with captured := ?_ }
    rintro _ _ ⟨⟩
    exact ⟨rfl, Nat.le_refl _⟩
  | check =>
    simp only [step] at h
    split at h
    next => cases h
    next now id hs =>
      obtain rfl := Option.some.inj h
      exact registryInvariant_check hI hC hs

/-- Every mark is justified in a run whose checks and stores are current. -/
theorem marksJustified_of_run {as : List Label}
    (h : Run (step rate) (StepCurrent rate) Registry.start as s) : MarksJustified rate s.history :=
  (h.invariant registryInvariant_start (fun _ _ _ hI hC => registryInvariant_step hI hC)).justified

/-- The default rate, at which the timeout is 300 ticks. -/
def defaultRate : TickRate := ⟨100, by decide⟩

/-- `node_registry_set_monitoring(true)` from its first store to its last. -/
def enableMonitoring : List Label := .setMonitoring true :: List.replicate 15 .setterStep

/-- A front-brake frame of node 1. -/
def recordBrake : List Label :=
  [.recordSensorFrame ⟨canIdFrontBrake, 8, 0⟩, .recorderStep, .recorderStep, .recorderStep]

/-- Node 1 sends a frame after 1 s and then nothing. -/
def silentNode : List Label :=
  enableMonitoring ++ [.advance 100] ++ recordBrake ++ [.advance 300, .capture, .check]

theorem silentNode_justified :
    ∃ s, Run (step defaultRate) (StepCurrent defaultRate) Registry.start silentNode s ∧
      s.history = [.marked 1 400, .recorded 1 100, .enabled 0] ∧
      MarksJustified defaultRate s.history := by
  have h : Run (step defaultRate) (StepCurrent defaultRate) Registry.start silentNode _ :=
    Run.of_exec rfl
  exact ⟨_, h, rfl, marksJustified_of_run h⟩

/-- The frame arrives one tick after the monitor has read the counter. -/
def frameAfterCapture : List Label :=
  enableMonitoring ++ [.advance 100, .capture, .advance 1] ++ recordBrake ++ [.check]

/-- Monitoring is enabled again after a pause, and the check comes before the setter reaches
node 1. -/
def checkWhileEnabling : List Label := [.advance 300, .setMonitoring true, .capture, .check]

/-- The first run marks node 1 in the tick of its frame, the second in the tick of enabling. -/
theorem staleChecks_not_justified :
    (∃ s, Run (step defaultRate) Free Registry.start frameAfterCapture s ∧
      s.history = [.marked 1 101, .recorded 1 101, .enabled 0] ∧
      ¬ MarksJustified defaultRate s.history) ∧
    (∃ s, Run (step defaultRate) Free Registry.start checkWhileEnabling s ∧
      s.history = [.marked 1 300, .enabled 300] ∧ ¬ MarksJustified defaultRate s.history) := by
  refine ⟨⟨_, Run.of_exec_free rfl, rfl, ?_⟩, ⟨_, Run.of_exec_free rfl, rfl, ?_⟩⟩
  · rintro ⟨-, -, hrecorded, -⟩
    exact absurd (hrecorded 101 (List.mem_cons_self ..)) (by decide)
  · rintro ⟨-, henabled, -, -⟩
    exact absurd (henabled 300 (List.mem_cons_self ..)) (by decide)

end BajaDaq.OfflineMarks
