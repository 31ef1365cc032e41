import Mathlib.Data.Nat.Notation
import Mathlib.Logic.Function.Basic

/-!
# A counter that several tasks increment without a lock

An increment is a load and a later store, so a store may undo those made in between. The counter
never runs ahead of the increments made, and it is exact as long as they do not overlap. Its values
wrap: `wrap n` is what `n` increments make of the initial value.
-/

namespace BajaDaq.RacingCounter

variable {ι β : Type*}

/-- The counter, the value that each task has loaded and not yet stored, and the number of stores
made so far. -/
structure Counter (ι β : Type*) where
  value : β
  loaded : ι → Option β
  stores : ℕ

namespace Counter

def start (zero : β) : Counter ι β := ⟨zero, fun _ => none, 0⟩

variable [DecidableEq ι]

def load (c : Counter ι β) (i : ι) : Counter ι β :=
  { c with loaded := Function.update c.loaded i (some c.value) }

def store (next : β → β) (c : Counter ι β) (i : ι) : Option (Counter ι β) :=
  (c.loaded i).map fun v => ⟨next v, Function.update c.loaded i none, c.stores + 1⟩

theorem loaded_load (c : Counter ι β) (i j : ι) :
    (c.load i).loaded j = if j = i then some c.value else c.loaded j :=
  Function.update_apply c.loaded i (some c.value) j

theorem store_eq_some {next : β → β} {c c' : Counter ι β} {i : ι} (h : c.store next i = some c') :
    ∃ v, c.loaded i = some v ∧ c'.value = next v ∧ c'.stores = c.stores + 1 ∧
      ∀ j, c'.loaded j = if j = i then none else c.loaded j := by
  obtain ⟨v, hv, rfl⟩ := Option.map_eq_some_iff.mp h
  exact ⟨v, hv, rfl, rfl, Function.update_apply c.loaded i none⟩

end Counter

variable (wrap : ℕ → β)

/-- Neither the counter nor a loaded value is ahead of the stores, and a counter that has been
stored is not back at the start before it wraps. -/
structure Behind (c : Counter ι β) : Prop where
  value : ∃ n ≤ c.stores, c.value = wrap n ∧ (0 < c.stores → 0 < n)
  loaded : ∀ i, ∀ v ∈ c.loaded i, ∃ n ≤ c.stores, v = wrap n

/-- The counter is the number of stores, and a task that is in an increment is alone in it. -/
structure Exact (c : Counter ι β) : Prop where
  value : c.value = wrap c.stores
  loaded : ∀ i, ∀ v ∈ c.loaded i, v = wrap c.stores ∧ ∀ j, c.loaded j ≠ none → j = i

variable {wrap} {next : β → β} {c c' : Counter ι β} {i : ι}

theorem behind_start : Behind wrap (Counter.start (wrap 0) : Counter ι β) where
  value := ⟨0, Nat.le_refl 0, rfl, fun h => h⟩
  loaded := nofun

theorem exact_start : Exact wrap (Counter.start (wrap 0) : Counter ι β) where
  value := rfl
  loaded := nofun

variable [DecidableEq ι]

theorem Behind.load (h : Behind wrap c) (i : ι) : Behind wrap (c.load i) where
  value := h.value
  loaded := by
    intro j v hv
    rw [Counter.loaded_load] at hv
    split at hv
    · obtain ⟨n, hn, hvalue, -⟩ := h.value
      obtain rfl := Option.some.inj hv
      exact ⟨n, hn, hvalue⟩
    · exact h.loaded j v hv

theorem Behind.store (hnext : ∀ n, next (wrap n) = wrap (n + 1)) (h : Behind wrap c)
    (hc : c.store next i = some c') : Behind wrap c' := by
  obtain ⟨v, hv, hvalue, hstores, hloaded⟩ := Counter.store_eq_some hc
  obtain ⟨n, hn, rfl⟩ := h.loaded i v hv
  rw [hnext] at hvalue
  refine ⟨⟨n + 1, by omega, hvalue, fun _ => Nat.succ_pos n⟩, ?_⟩
  intro j w hw
  rw [hloaded] at hw
  split at hw
  · cases hw
  · obtain ⟨m, hm, hw⟩ := h.loaded j w hw
    exact ⟨m, by omega, hw⟩

/-- No other task is in an increment. -/
theorem Exact.load (h : Exact wrap c) (halone : ∀ j, c.loaded j ≠ none → j = i) :
    Exact wrap (c.load i) where
  value := h.value
  loaded := by
    intro j v hv
    rw [Counter.loaded_load] at hv
    split at hv
    next hj =>
      obtain rfl := Option.some.inj hv
      refine ⟨h.value, fun k hk => ?_⟩
      rw [Counter.loaded_load] at hk
      split at hk
      next hki => exact hki.trans hj.symm
      next => exact (halone k hk).trans hj.symm
    next hj => exact absurd (halone j (by rw [Option.mem_def.mp hv]; simp)) hj

theorem Exact.store (hnext : ∀ n, next (wrap n) = wrap (n + 1)) (h : Exact wrap c)
    (hc : c.store next i = some c') : Exact wrap c' := by
  obtain ⟨v, hv, hvalue, hstores, hloaded⟩ := Counter.store_eq_some hc
  obtain ⟨rfl, halone⟩ := h.loaded i v hv
  refine ⟨by rw [hvalue, hnext, hstores], ?_⟩
  intro j w hw
  rw [hloaded] at hw
  split at hw
  · cases hw
  next hj => exact absurd (halone j (by rw [Option.mem_def.mp hw]; simp)) hj

end BajaDaq.RacingCounter
