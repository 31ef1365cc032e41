import Mathlib.Data.List.Induction

/-!
# Runs of a labelled transition function

A system is a partial step function; a label carries every choice made outside the state.
`Run` keeps a condition on each step, so that "every run whose steps all meet `C`" is one
hypothesis and an invariant needs to be kept only by the steps that meet it.
-/

namespace BajaDaq.TransitionRuns

variable {σ α : Type*} {step : σ → α → Option σ} {C D : σ → α → Prop}

/-- Execute the labels in order; `none` once a label is not enabled. -/
def exec (step : σ → α → Option σ) : σ → List α → Option σ
  | s, [] => some s
  | s, a :: as => (step s a).bind (fun t => exec step t as)

/-- The labels `as` lead from `s` to the last state, each step meeting `C` where it starts. -/
inductive Run (step : σ → α → Option σ) (C : σ → α → Prop) : σ → List α → σ → Prop
  | nil (s : σ) : Run step C s [] s
  | snoc {s t u : σ} {as : List α} {a : α} (h : Run step C s as t) (hc : C t a)
      (hs : step t a = some u) : Run step C s (as ++ [a]) u

/-- The condition of a run with no restriction on its steps. -/
def Free (_ : σ) (_ : α) : Prop := True

namespace Run

theorem single {s t : σ} {a : α} (hc : C s a) (hs : step s a = some t) :
    Run step C s [a] t := by
  simpa using (Run.nil s).snoc hc hs

theorem trans {s t u : σ} {as bs : List α} (h : Run step C s as t) (h' : Run step C t bs u) :
    Run step C s (as ++ bs) u := by
  induction h' with
  | nil => simpa using h
  | snoc _ hc hs ih =>
    rw [← List.append_assoc]
    exact ih.snoc hc hs

/-- A run whose steps meet `C` is one whose steps meet what `C` implies. -/
theorem mono {s t : σ} {as : List α} (h : Run step C s as t) (hCD : ∀ s a, C s a → D s a) :
    Run step D s as t := by
  induction h with
  | nil => exact .nil _
  | snoc _ hc hs ih => exact ih.snoc (hCD _ _ hc) hs

theorem free {s t : σ} {as : List α} (h : Run step C s as t) : Run step Free s as t :=
  h.mono fun _ _ _ => trivial

/-- A predicate that holds at the start and is kept by every step meeting the condition
holds at the end of the run. -/
theorem invariant {I : σ → Prop} {s t : σ} {as : List α} (h : Run step C s as t) (h₀ : I s)
    (hstep : ∀ s a t, I s → C s a → step s a = some t → I t) : I t := by
  induction h with
  | nil => exact h₀
  | snoc _ hc hs ih => exact hstep _ _ _ ih hc hs

theorem eq_of_nil {s u : σ} (h : Run step C s [] u) : u = s := by
  generalize hlabels : ([] : List α) = labels at h
  cases h with
  | nil => rfl
  | snoc => simp at hlabels

/-- The last step of a run. -/
theorem last {s u : σ} {as : List α} {a : α} (h : Run step C s (as ++ [a]) u) :
    ∃ t, Run step C s as t ∧ C t a ∧ step t a = some u := by
  generalize hlabels : as ++ [a] = labels at h
  cases h with
  | nil => simp at hlabels
  | snoc h hc hs =>
    obtain ⟨rfl, hlast⟩ := List.append_inj' hlabels rfl
    obtain rfl := List.singleton_inj.mp hlast
    exact ⟨_, h, hc, hs⟩

/-- The state between two parts of a run. -/
theorem split {s u : σ} {as bs : List α} (h : Run step C s (as ++ bs) u) :
    ∃ t, Run step C s as t ∧ Run step C t bs u := by
  induction bs using List.reverseRecOn generalizing u with
  | nil =>
    rw [List.append_nil] at h
    exact ⟨u, h, .nil u⟩
  | append_singleton bs b ih =>
    rw [← List.append_assoc] at h
    obtain ⟨v, hv, hc, hs⟩ := last h
    obtain ⟨t, ht, hrest⟩ := ih hv
    exact ⟨t, ht, hrest.snoc hc hs⟩

/-- The states before and after one of the steps of a run. -/
theorem at_step {s u : σ} {as bs : List α} {a : α} (h : Run step C s (as ++ a :: bs) u) :
    ∃ t t', Run step C s as t ∧ C t a ∧ step t a = some t' ∧ Run step C t' bs u := by
  rw [← List.singleton_append, ← List.append_assoc] at h
  obtain ⟨t', ht', hrest⟩ := split h
  obtain ⟨t, ht, hc, hs⟩ := last ht'
  exact ⟨t, t', ht, hc, hs, hrest⟩

/-- The step function with the condition built in, so that a concrete guarded run can be
evaluated. -/
def guarded (step : σ → α → Option σ) (C : σ → α → Prop) [∀ s a, Decidable (C s a)]
    (s : σ) (a : α) : Option σ :=
  if C s a then step s a else none

theorem of_exec [∀ s a, Decidable (C s a)] {s t : σ} {as : List α}
    (h : exec (guarded step C) s as = some t) : Run step C s as t := by
  induction as generalizing s with
  | nil =>
    obtain rfl : s = t := by simpa [exec] using h
    exact .nil s
  | cons a as ih =>
    obtain ⟨u, hu, ht⟩ := Option.bind_eq_some_iff.mp h
    by_cases hc : C s a
    · rw [guarded, if_pos hc] at hu
      exact (single hc hu).trans (ih ht)
    · simp [guarded, hc] at hu

theorem of_exec_free {s t : σ} {as : List α} (h : exec step s as = some t) :
    Run step Free s as t := by
  induction as generalizing s with
  | nil =>
    obtain rfl : s = t := by simpa [exec] using h
    exact .nil s
  | cons a as ih =>
    obtain ⟨u, hu, ht⟩ := Option.bind_eq_some_iff.mp h
    exact (single trivial hu).trans (ih ht)

end Run

variable {η : Type*} {observe : σ → α → η → η}

/-- The system with a record of its run, on which the steps do not depend. -/
def observed (step : σ → α → Option σ) (observe : σ → α → η → η) (p : σ × η) (a : α) :
    Option (σ × η) :=
  (step p.1 a).map fun t => (t, observe p.1 a p.2)

theorem observed_eq_some {p q : σ × η} {a : α} (h : observed step observe p a = some q) :
    step p.1 a = some q.1 ∧ q.2 = observe p.1 a p.2 := by
  obtain ⟨t, ht, rfl⟩ := Option.map_eq_some_iff.mp h
  exact ⟨ht, rfl⟩

end BajaDaq.TransitionRuns
