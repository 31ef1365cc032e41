import BajaDaq.NodeDispatch

/-!
# The sampler follows the last command

`current_state` is stored by three tasks. The recovery task writes back a value it read
earlier, and `app_main` writes a constant after reception is live; either can make the dispatcher
skip a callback.
-/

namespace BajaDaq.CommandObedience
open AppProtocol NodeDispatch TransitionRuns

/-- The commanded state; idle before the first command. -/
def commanded (nodeId : UInt8) (s : Node) : NodeState := (lastCommand nodeId s.handled).getD .idle

/-- Between frames the sampler does what the last relevant frame commanded, and nothing but the
dispatch has changed `current_state`. -/
def Obeys (nodeId : UInt8) (s : Node) : Prop :=
  s.dispatch = .receive → (∀ c ∈ lastCommand nodeId s.handled, s.sampler = (c == .active)) ∧
    s.currentState = commanded nodeId s

/-- A store of the value that is there already, or one that the dispatch is about to
overwrite. -/
def Harmless (s : Node) (value : NodeState) : Prop :=
  value = s.currentState ∨ s.dispatch ≠ .receive

/-- The other tasks' stores of `current_state` are harmless. -/
def StoresHarmless (s : Node) : Label → Prop
  | .recoveryReport => ∀ read ∈ s.recovery, Harmless s read
  | .bootReport => Harmless s .idle
  | _ => True

instance (s : Node) (value : NodeState) : Decidable (Harmless s value) :=
  inferInstanceAs (Decidable (_ ∨ _))

instance (s : Node) (a : Label) : Decidable (StoresHarmless s a) :=
  match a with
  | .recoveryReport => inferInstanceAs (Decidable (∀ read ∈ s.recovery, _))
  | .bootReport => inferInstanceAs (Decidable (Harmless s .idle))
  | .receive _ | .callback | .report | .recoveryRead => isTrue trivial

/-- How far the dispatch has carried out the last command. -/
def DispatchInvariant (nodeId : UInt8) (s : Node) : Prop :=
  match s.dispatch with
  | .receive =>
    s.currentState = commanded nodeId s ∧ s.sampler = (commanded nodeId s == .active)
  | .callback target _ => target = commanded nodeId s
  | .report target _ =>
    target = commanded nodeId s ∧ s.sampler = (commanded nodeId s == .active)

variable {nodeId resetReason : UInt8} {s t : Node}

theorem obeys_of_invariant (h : DispatchInvariant nodeId s) : Obeys nodeId s := by
  intro hready
  simp only [DispatchInvariant, hready] at h
  refine ⟨?_, h.1⟩
  intro c hc
  rw [h.2, commanded, Option.mem_def.mp hc]
  rfl

/-- A harmless report of another task. -/
theorem dispatchInvariant_reportState (hI : DispatchInvariant nodeId s) {value : NodeState}
    (h : Harmless s value) (reset : UInt8) (reason : NodeStateReason) :
    DispatchInvariant nodeId (reportState reset s value reason) := by
  cases hd : s.dispatch with
  | receive =>
    obtain rfl := h.resolve_right (not_not.mpr hd)
    simpa [DispatchInvariant, reportState, commanded, hd] using hI
  | callback target reason' => simpa [DispatchInvariant, reportState, commanded, hd] using hI
  | report target reason' => simpa [DispatchInvariant, reportState, commanded, hd] using hI

theorem dispatchInvariant_receive (hI : DispatchInvariant nodeId s) (hd : s.dispatch = .receive)
    (message : CanMessage) : DispatchInvariant nodeId (receive nodeId s message) := by
  obtain ⟨hcurrent, hsampler, hhandled, hcases⟩ := receive_cases nodeId s message
  have hnew := lastCommand_append nodeId s.handled message
  rw [← hhandled] at hnew
  simp only [DispatchInvariant, hd] at hI
  cases hc : commandOf nodeId message with
  | none =>
    rw [hc] at hcases hnew
    have hsame : commanded nodeId (receive nodeId s message) = commanded nodeId s := by
      rw [commanded, hnew, Option.none_or, commanded]
    simpa only [DispatchInvariant, hcases, hd, hcurrent, hsampler, hsame] using hI
  | some target =>
    rw [hc] at hcases hnew
    have htarget : commanded nodeId (receive nodeId s message) = target := by
      rw [commanded, hnew, Option.some_or, Option.getD_some]
    rcases hcases with ⟨-, reason, hpc⟩ | ⟨hsame, hpc | ⟨reason, hpc⟩⟩
    · simp only [DispatchInvariant, hpc, htarget]
    · have hold : commanded nodeId s = target := hI.1.symm.trans hsame.symm
      simp only [DispatchInvariant, hpc, hd, hcurrent, hsampler, htarget]
      exact ⟨hsame.symm, hold ▸ hI.2⟩
    · have hold : commanded nodeId s = target := hI.1.symm.trans hsame.symm
      simp only [DispatchInvariant, hpc, hsampler, htarget, true_and]
      exact hold ▸ hI.2

theorem dispatchInvariant_step {a : Label} (hI : DispatchInvariant nodeId s)
    (hC : StoresHarmless s a) (h : step nodeId resetReason s a = some t) :
    DispatchInvariant nodeId t := by
  cases a with
  | receive message =>
    simp only [step] at h
    split_ifs at h with hd
    obtain rfl := Option.some.inj h
    exact dispatchInvariant_receive hI hd message
  | callback =>
    simp only [step] at h
    split at h
    next target reason hd =>
      obtain rfl := Option.some.inj h
      simp only [DispatchInvariant, hd] at hI
      have hsampler := runCallback_eq target s.sampler
      rw [hI] at hsampler
      exact ⟨hI, hI ▸ hsampler⟩
    next => cases h
  | report =>
    simp only [step] at h
    split at h
    next target reason hd =>
      obtain rfl := Option.some.inj h
      simp only [DispatchInvariant, hd] at hI ⊢
      exact hI
    next => cases h
  | recoveryRead =>
    simp only [step] at h
    split_ifs at h
    obtain rfl := Option.some.inj h
    exact hI
  | recoveryReport =>
    simp only [step] at h
    split at h
    next read hread =>
      obtain rfl := Option.some.inj h
      exact dispatchInvariant_reportState hI (hC read hread) resetReason .recovery
    next => cases h
  | bootReport =>
    simp only [step] at h
    split_ifs at h
    obtain rfl := Option.some.inj h
    exact dispatchInvariant_reportState hI hC resetReason .boot

/-- The node obeys in every run in which the other tasks' stores are harmless. -/
theorem obeys_of_run {as : List Label}
    (h : Run (step nodeId resetReason) StoresHarmless Node.start as s) : Obeys nodeId s :=
  obeys_of_invariant
    (h.invariant ⟨rfl, rfl⟩ (fun _ _ _ hI hC => dispatchInvariant_step hI hC))

/-- The broadcast commands, without a payload. -/
def startFrame : CanMessage := ⟨canIdStart, 0, 0⟩
def stopFrame : CanMessage := ⟨canIdStop, 0, 0⟩

/-- The boot report in time, then a recovery report between two commands. -/
def timelyReports : List Label :=
  [.bootReport, .receive startFrame, .callback, .report, .recoveryRead, .recoveryReport,
    .receive stopFrame, .callback, .report]

theorem timelyReports_obeyed :
    ∃ s, Run (step 1 0) StoresHarmless Node.start timelyReports s ∧ Obeys 1 s := by
  have h : Run (step 1 0) StoresHarmless Node.start timelyReports _ := Run.of_exec rfl
  exact ⟨_, h, obeys_of_run h⟩

/-- A START is handled before the boot report, and a STOP after it. -/
def lateBootReport : List Label :=
  [.receive startFrame, .callback, .report, .bootReport, .receive stopFrame, .report]

/-- A recovery report that was decided before a STOP and stored after it, then a START. -/
def staleRecoveryReport : List Label :=
  [.bootReport, .receive startFrame, .callback, .report, .recoveryRead, .receive stopFrame,
    .callback, .report, .recoveryReport, .receive startFrame, .report]

/-- The first run handles STOP and leaves the sampler active, the second handles START and
leaves it inactive. -/
theorem lateReports_not_obeyed :
    (∃ s, Run (step 1 0) Free Node.start lateBootReport s ∧ s.dispatch = .receive ∧
      lastCommand 1 s.handled = some .idle ∧ s.sampler = true ∧ ¬ Obeys 1 s) ∧
    (∃ s, Run (step 1 0) Free Node.start staleRecoveryReport s ∧ s.dispatch = .receive ∧
      lastCommand 1 s.handled = some .active ∧ s.sampler = false ∧ ¬ Obeys 1 s) := by
  refine ⟨⟨_, Run.of_exec_free rfl, rfl, rfl, rfl, ?_⟩,
    ⟨_, Run.of_exec_free rfl, rfl, rfl, rfl, ?_⟩⟩
  · intro h
    exact absurd ((h rfl).1 .idle rfl) (by decide)
  · intro h
    exact absurd ((h rfl).1 .active rfl) (by decide)

end BajaDaq.CommandObedience
