import Mathlib.Algebra.GroupWithZero.Nat

/-!
# Carried remainders

A quotient handed out in whole parts, again and again: each part keeps the remainder of its
division, and is one larger when the remainders kept so far fill another divisor.
-/

namespace BajaDaq.CarriedRemainders

/-- One part and the remainder kept after it. -/
def part (numerator denominator kept : ℕ) : ℕ × ℕ :=
  if denominator ≤ kept + numerator % denominator then
    (numerator / denominator + 1, kept + numerator % denominator - denominator)
  else (numerator / denominator, kept + numerator % denominator)

/-- `n` parts in a row. -/
def parts (numerator denominator : ℕ) : ℕ → ℕ → List ℕ × ℕ
  | 0, kept => ([], kept)
  | n + 1, kept =>
    let first := part numerator denominator kept
    let rest := parts numerator denominator n first.2
    (first.1 :: rest.1, rest.2)

variable {numerator denominator kept : ℕ}

theorem part_kept_lt (h : kept < denominator) :
    (part numerator denominator kept).2 < denominator := by
  have hmod := Nat.mod_lt numerator (Nat.zero_lt_of_lt h)
  unfold part
  split
  · dsimp only
    omega
  · dsimp only
    omega

/-- Nothing is lost in a part. -/
theorem part_total (numerator denominator kept : ℕ) :
    denominator * (part numerator denominator kept).1 + (part numerator denominator kept).2 =
      kept + numerator := by
  have hdivision := Nat.div_add_mod numerator denominator
  unfold part
  split
  · rw [Nat.mul_add_one]
    omega
  · dsimp only
    omega

theorem part_bounds (numerator denominator kept : ℕ) :
    numerator / denominator ≤ (part numerator denominator kept).1 ∧
      (part numerator denominator kept).1 ≤ numerator / denominator + 1 := by
  unfold part
  split
  · exact ⟨Nat.le_succ _, Nat.le_refl _⟩
  · exact ⟨Nat.le_refl _, Nat.le_succ _⟩

theorem parts_kept_lt (h : kept < denominator) (n : ℕ) :
    (parts numerator denominator n kept).2 < denominator := by
  induction n generalizing kept with
  | zero => exact h
  | succ n ih => exact ih (part_kept_lt h)

theorem parts_total (numerator denominator n kept : ℕ) :
    denominator * (parts numerator denominator n kept).1.sum +
      (parts numerator denominator n kept).2 = kept + n * numerator := by
  induction n generalizing kept with
  | zero => simp [parts]
  | succ n ih =>
    have hfirst := part_total numerator denominator kept
    have hrest := @ih (part numerator denominator kept).2
    simp only [parts, List.sum_cons, Nat.mul_add, Nat.add_mul]
    omega

/-- The parts add up to the quotient of the whole: there is no cumulative error. -/
theorem sum_parts (h : kept < denominator) (n : ℕ) :
    (parts numerator denominator n kept).1.sum = (kept + n * numerator) / denominator := by
  have htotal := parts_total numerator denominator n kept
  have hlast := @parts_kept_lt numerator denominator kept h n
  rw [← htotal, Nat.mul_add_div (Nat.zero_lt_of_lt h), Nat.div_eq_of_lt hlast, Nat.add_zero]

end BajaDaq.CarriedRemainders
