import BajaDaq.TransitionRuns

/-!
# Writes still under way

A system writes an output from several places. After the last word of one of them, the others may
still hold writes that they decided on earlier. `Accounts` says that a list of pending writes is
exact along the quiet steps, those of the others; then the output stays if and only if every
pending write would leave it as it is.
-/

namespace BajaDaq.PendingWrites

open TransitionRuns

variable {σ α β : Type*} {step : σ → α → Option σ} {Quiet : σ → α → Prop} {I : σ → Prop}
  {output : σ → β} {pending : σ → List β}

/-- A quiet run from `s` leads to the output `w`. -/
def Reaches (step : σ → α → Option σ) (Quiet : σ → α → Prop) (output : σ → β) (s : σ)
    (w : β) : Prop :=
  ∃ as t, Run step Quiet s as t ∧ output t = w

theorem Reaches.of_output {s : σ} {w : β} (h : output s = w) :
    Reaches step Quiet output s w :=
  ⟨[], s, .nil s, h⟩

theorem Reaches.of_step {s t : σ} {a : α} {w : β} (hq : Quiet s a) (hs : step s a = some t)
    (h : Reaches step Quiet output t w) : Reaches step Quiet output s w := by
  obtain ⟨as, u, hrun, hu⟩ := h
  exact ⟨[a] ++ as, u, (Run.single hq hs).trans hrun, hu⟩

/-- From the states of `I`, the quiet steps write what is pending and nothing else, add nothing to
it, and can write all of it. -/
structure Accounts (step : σ → α → Option σ) (Quiet : σ → α → Prop) (I : σ → Prop)
    (output : σ → β) (pending : σ → List β) : Prop where
  keeps : ∀ s a t, I s → Quiet s a → step s a = some t → I t
  writes : ∀ s a t, I s → Quiet s a → step s a = some t →
    output t = output s ∨ output t ∈ pending s
  closes : ∀ s a t, I s → Quiet s a → step s a = some t → pending t ⊆ pending s
  reaches : ∀ s w, I s → w ∈ pending s → Reaches step Quiet output s w

/-- The output is `v` now and in every state that the quiet steps lead to. -/
def Stays (step : σ → α → Option σ) (Quiet : σ → α → Prop) (output : σ → β) (s : σ)
    (v : β) : Prop :=
  ∀ as t, Run step Quiet s as t → output t = v

namespace Accounts

theorem run (h : Accounts step Quiet I output pending) {s t : σ} {as : List α} (hs : I s)
    (hrun : Run step Quiet s as t) :
    I t ∧ pending t ⊆ pending s ∧ (output t = output s ∨ output t ∈ pending s) := by
  induction hrun with
  | nil => exact ⟨hs, fun _ hw => hw, .inl rfl⟩
  | snoc _ hq hstep ih =>
    obtain ⟨hI, hsub, hout⟩ := ih
    refine ⟨h.keeps _ _ _ hI hq hstep, fun w hw => hsub (h.closes _ _ _ hI hq hstep hw), ?_⟩
    rcases h.writes _ _ _ hI hq hstep with hsame | hwritten
    · rwa [hsame]
    · exact .inr (hsub hwritten)

/-- The output keeps a value along every quiet run if and only if it has it and every pending
write is that value. -/
theorem stays_iff (h : Accounts step Quiet I output pending) {s : σ} (hs : I s) (v : β)
    (hv : output s = v) :
    Stays step Quiet output s v ↔ ∀ w ∈ pending s, w = v := by
  constructor
  · intro hstays w hw
    obtain ⟨as, t, hrun, rfl⟩ := h.reaches s w hs hw
    exact hstays as t hrun
  · intro hpending as t hrun
    rcases (h.run hs hrun).2.2 with hsame | hwritten
    · exact hsame.trans hv
    · exact hpending _ hwritten

end Accounts

/-- A concrete run and one step after it, from their evaluation. -/
theorem exists_step_of_exec {γ : Type*} (f : σ → σ → γ) {s : σ} {as : List α} {a : α} {c : γ}
    (h : ((exec step s as).bind fun t => (step t a).map fun u => f t u) = some c) :
    ∃ t u, Run step Free s as t ∧ step t a = some u ∧ f t u = c := by
  obtain ⟨t, ht, hmap⟩ := Option.bind_eq_some_iff.mp h
  obtain ⟨u, hu, hf⟩ := Option.map_eq_some_iff.mp hmap
  exact ⟨t, u, Run.of_exec_free ht, hu, hf⟩

/-- A quiet run that ends with another output, from its evaluation. -/
theorem not_stays_of_exec [∀ s a, Decidable (Quiet s a)] {s : σ} {as : List α} {v w : β}
    (h : (exec (Run.guarded step Quiet) s as).map output = some w) (hne : w ≠ v) :
    ¬ Stays step Quiet output s v := by
  intro hstays
  obtain ⟨t, ht, rfl⟩ := Option.map_eq_some_iff.mp h
  exact hne (hstays as t (Run.of_exec ht))

end BajaDaq.PendingWrites
