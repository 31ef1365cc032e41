import Mathlib.Algebra.Order.Round
import Mathlib.Data.Rat.Floor
import Mathlib.Data.Sign.Basic

/-!
# Rounding halves away from zero in integer arithmetic

A division that truncates gives the nearest integer when half the divisor is first added to a
positive dividend or taken from a negative one.
-/

namespace BajaDaq.HalfAwayRounding

/-- The nearest integer; of two at the same distance the one further from zero. -/
def roundAway (x : ℚ) : ℤ := SignType.sign x * round |x|

theorem roundAway_neg (x : ℚ) : roundAway (-x) = -roundAway x := by
  simp [roundAway, Left.sign_neg]

theorem roundAway_of_nonneg {x : ℚ} (h : 0 ≤ x) : roundAway x = round x := by
  rcases h.eq_or_lt with rfl | hpos
  · simp [roundAway]
  · simp [roundAway, sign_pos hpos, abs_of_pos hpos]

theorem abs_roundAway_sub_le (x : ℚ) : |roundAway x - x| ≤ 1 / 2 := by
  have hnear : ∀ y : ℚ, 0 ≤ y → |(roundAway y : ℚ) - y| ≤ 1 / 2 := by
    intro y hy
    rw [roundAway_of_nonneg hy, abs_sub_comm]
    exact abs_sub_round y
  rcases le_total 0 x with hx | hx
  · exact hnear x hx
  · have hneg := hnear (-x) (by linarith)
    rw [roundAway_neg, abs_sub_comm] at hneg
    push_cast at hneg
    rwa [neg_sub_neg] at hneg

/-- A bound by an integer is kept. -/
theorem abs_roundAway_le {x : ℚ} {b : ℤ} (h : |x| ≤ b) : |roundAway x| ≤ b := by
  have hnonneg : 0 ≤ round |x| := by
    rw [round_eq]
    exact Int.floor_nonneg.mpr (by positivity)
  have hround : round |x| ≤ b := by
    have hlt : |x| + 1 / 2 < (b : ℚ) + 1 := by linarith
    rw [round_eq]
    exact Int.lt_add_one_iff.mp (Int.floor_lt.mpr (by exact_mod_cast hlt))
  have hsign : |((SignType.sign x : SignType) : ℤ)| ≤ 1 := by
    cases SignType.sign x <;> decide
  calc |roundAway x| = |((SignType.sign x : SignType) : ℤ)| * round |x| := by
        rw [roundAway, abs_mul, abs_of_nonneg hnonneg]
    _ ≤ 1 * round |x| := mul_le_mul_of_nonneg_right hsign hnonneg
    _ ≤ b := by rwa [one_mul]

variable {n d : ℤ}

theorem floor_div_of_pos (hd : 0 < d) : ⌊(n : ℚ) / d⌋ = n / d := by
  obtain ⟨m, rfl⟩ := Int.eq_ofNat_of_zero_le hd.le
  exact_mod_cast Rat.floor_intCast_div_natCast n m

theorem add_half_tdiv (hn : 0 ≤ n) (hd : 0 < d) (heven : 2 ∣ d) :
    (n + d / 2).tdiv d = roundAway ((n : ℚ) / d) := by
  obtain ⟨m, rfl⟩ := heven
  have hm : (0 : ℚ) < m := by exact_mod_cast (by omega : 0 < m)
  have hhalf : ((n : ℚ) / (2 * m : ℤ)) + 1 / 2 = ((n + m : ℤ) : ℚ) / (2 * m : ℤ) := by
    push_cast
    field_simp
  have hnonneg : (0 : ℚ) ≤ (n : ℚ) / (2 * m : ℤ) :=
    div_nonneg (by exact_mod_cast hn) (by exact_mod_cast hd.le)
  rw [roundAway_of_nonneg hnonneg, round_eq, hhalf, Int.mul_ediv_cancel_left m two_ne_zero,
    Int.tdiv_eq_ediv_of_nonneg (by omega), floor_div_of_pos hd]

theorem sub_half_tdiv (hn : n ≤ 0) (hd : 0 < d) (heven : 2 ∣ d) :
    (n - d / 2).tdiv d = roundAway ((n : ℚ) / d) := by
  have hflip : n - d / 2 = -(-n + d / 2) := by ring
  have hneg : (n : ℚ) / d = -((-n : ℤ) / d) := by
    push_cast
    ring
  rw [hflip, Int.neg_tdiv, add_half_tdiv (by omega) hd heven, hneg, roundAway_neg]

end BajaDaq.HalfAwayRounding
