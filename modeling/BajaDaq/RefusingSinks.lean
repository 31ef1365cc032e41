import Mathlib.Data.List.Infix

/-!
# A sink that may refuse

A sink takes elements one by one, and its owner stops at the first one that it refuses. If the last
element is a mark that occurs nowhere else, what the sink has taken tells whether it has taken all.
-/

namespace BajaDaq.RefusingSinks

variable {α : Type*}

/-- What has been taken, and whether the next element after that many is taken too. -/
structure Sink (α : Type*) where
  taken : List α
  accepts : ℕ → Bool

namespace Sink

def put (s : Sink α) (a : α) : Sink α × Bool :=
  if s.accepts s.taken.length then ({ s with taken := s.taken ++ [a] }, true) else (s, false)

/-- Put the elements in order, up to one that is refused. -/
def putAll (s : Sink α) : List α → Sink α × Bool
  | [] => (s, true)
  | a :: as =>
    let next := s.put a
    if next.2 then putAll next.1 as else next

theorem put_cases (s : Sink α) (a : α) :
    s.put a = ({ s with taken := s.taken ++ [a] }, true) ∨ s.put a = (s, false) := by
  unfold put
  split
  · exact .inl rfl
  · exact .inr rfl

theorem putAll_singleton (s : Sink α) (a : α) : s.putAll [a] = s.put a := by
  rcases put_cases s a with h | h
  · simp only [putAll, h, if_true]
  · simp only [putAll, h, Bool.false_eq_true, if_false]

theorem putAll_append (s : Sink α) (xs ys : List α) :
    s.putAll (xs ++ ys) =
      if (s.putAll xs).2 then (s.putAll xs).1.putAll ys else s.putAll xs := by
  induction xs generalizing s with
  | nil => rfl
  | cons x xs ih =>
    rw [List.cons_append, putAll, putAll]
    rcases put_cases s x with h | h
    · simp only [h, if_true]
      exact ih _
    · simp only [h, Bool.false_eq_true, if_false]

/-- A leading part is taken, and all of it exactly if nothing is refused. -/
theorem putAll_take (s : Sink α) (xs : List α) :
    ∃ k ≤ xs.length, (s.putAll xs).1 = { s with taken := s.taken ++ xs.take k } ∧
      ((s.putAll xs).2 = true ↔ k = xs.length) := by
  induction xs generalizing s with
  | nil => exact ⟨0, Nat.le_refl 0, by simp [putAll], by simp [putAll]⟩
  | cons x xs ih =>
    rcases put_cases s x with h | h
    · obtain ⟨k, hk, hrun, hall⟩ := ih { s with taken := s.taken ++ [x] }
      refine ⟨k + 1, Nat.succ_le_succ hk, ?_, ?_⟩
      · simp only [putAll, h, if_true, hrun, List.append_assoc, List.singleton_append,
          List.take_succ_cons]
      · simp only [putAll, h, if_true, hall, List.length_cons, Nat.add_right_cancel_iff]
    · refine ⟨0, Nat.zero_le _, ?_, ?_⟩
      · simp only [putAll, h, Bool.false_eq_true, if_false, List.take_zero, List.append_nil]
      · simp only [putAll, h, Bool.false_eq_true, if_false, List.length_cons, false_iff]
        omega

/-- Nothing is refused exactly if every position up to the last is accepted. -/
theorem putAll_iff (s : Sink α) (xs : List α) :
    (s.putAll xs).2 = true ↔ ∀ n < xs.length, s.accepts (s.taken.length + n) = true := by
  induction xs generalizing s with
  | nil => exact iff_of_true rfl (fun n hn => absurd hn (Nat.not_lt_zero n))
  | cons x xs ih =>
    rw [putAll, put]
    cases haccepts : s.accepts s.taken.length with
    | false =>
      simp only [Bool.false_eq_true, if_false, false_iff]
      intro h
      have hfirst : s.accepts s.taken.length = true := h 0 (Nat.zero_lt_succ _)
      rw [haccepts] at hfirst
      cases hfirst
    | true =>
      simp only [if_true, ih, List.length_append, List.length_singleton]
      constructor
      · intro h n hn
        cases n with
        | zero => exact haccepts
        | succ n =>
          rw [Nat.add_comm n 1, ← Nat.add_assoc]
          exact h n (Nat.lt_of_succ_lt_succ hn)
      · intro h n hn
        rw [Nat.add_assoc, Nat.add_comm 1 n]
        exact h (n + 1) (Nat.succ_lt_succ hn)

/-- With a mark at the end, the mark is taken exactly if nothing is refused. -/
theorem putAll_mark {s : Sink α} {xs : List α} {mark : α} (hs : mark ∉ s.taken) (hx : mark ∉ xs) :
    (mark ∈ (s.putAll (xs ++ [mark])).1.taken ↔ (s.putAll (xs ++ [mark])).2 = true) ∧
      ((s.putAll (xs ++ [mark])).2 = true →
        (s.putAll (xs ++ [mark])).1.taken = s.taken ++ (xs ++ [mark])) ∧
      (¬ (s.putAll (xs ++ [mark])).2 = true →
        ∃ k ≤ xs.length, (s.putAll (xs ++ [mark])).1.taken = s.taken ++ xs.take k) := by
  obtain ⟨k, hk, hrun, hall⟩ := s.putAll_take (xs ++ [mark])
  have hlength : (xs ++ [mark]).length = xs.length + 1 := by simp
  rw [hlength] at hk hall
  rw [hrun, hall]
  refine ⟨?_, ?_, ?_⟩
  · refine ⟨fun hmem => ?_, ?_⟩
    · by_contra hne
      rw [List.take_append_of_le_length (by omega)] at hmem
      rcases List.mem_append.mp hmem with hmem | hmem
      · exact hs hmem
      · exact hx (List.mem_of_mem_take hmem)
    · rintro rfl
      rw [List.take_of_length_le hlength.le]
      exact List.mem_append_right _ (List.mem_append_right _ (List.mem_singleton_self mark))
  · rintro rfl
    rw [List.take_of_length_le hlength.le]
  · intro hne
    exact ⟨k, by omega, by rw [List.take_append_of_le_length (by omega)]⟩

end Sink

end BajaDaq.RefusingSinks
