import Mathlib.Data.Real.Basic
import Mathlib.Tactic.Linarith
import Mathlib.Tactic.Ring

/-!
# A correction applied gradually in integer arithmetic

A correction `c` is spread evenly over a period `p`; the part due after `e` is rounded toward
zero. A clock that runs at rate one and receives such a part never stops running forward as
long as the correction does not exceed the period.
-/

namespace BajaDaq.GradualCorrections

/-- The part of the correction due `e` after its start. -/
def share (p c e : ℤ) : ℤ := (c * min e p).tdiv p

variable {p c e f : ℤ}

@[simp] theorem share_neg (p c e : ℤ) : share p (-c) e = -share p c e := by
  rw [share, Int.neg_mul, Int.neg_tdiv, share]

theorem min_nonneg_of_pos (hp : 0 < p) (he : 0 ≤ e) : 0 ≤ min e p := le_min he hp.le

/-- A positive correction only ever moves the clock forward. -/
theorem share_le_share (hp : 0 < p) (hc : 0 ≤ c) (h : e ≤ f) : share p c e ≤ share p c f :=
  Int.tdiv_le_tdiv hp (mul_le_mul_of_nonneg_left (min_le_min_right p h) hc)

theorem share_nonneg (hp : 0 < p) (hc : 0 ≤ c) (he : 0 ≤ e) : 0 ≤ share p c e :=
  Int.tdiv_nonneg (mul_nonneg hc (min_nonneg_of_pos hp he)) hp.le

/-- The part due is the exact part rounded down. -/
theorem mul_share_le (hp : 0 < p) (hc : 0 ≤ c) (he : 0 ≤ e) :
    p * share p c e ≤ c * min e p ∧ c * min e p < p * share p c e + p :=
  ⟨Int.mul_tdiv_self_le (mul_nonneg hc (min_nonneg_of_pos hp he)), Int.lt_mul_tdiv_self_add hp⟩

theorem share_le (hp : 0 < p) (hc : 0 ≤ c) (he : 0 ≤ e) : share p c e ≤ c := by
  have hpart := (mul_share_le hp hc he).1
  have hall : c * min e p ≤ c * p := mul_le_mul_of_nonneg_left (min_le_right e p) hc
  exact le_of_mul_le_mul_left (hpart.trans (hall.trans_eq (mul_comm c p))) hp

/-- While a correction of at most the period is applied the clock runs forward. -/
theorem add_share_le (hp : 0 < p) (hc : |c| ≤ p) (he : 0 ≤ e) (h : e ≤ f) :
    e + share p c e ≤ f + share p c f := by
  rcases le_total 0 c with hpos | hneg
  · exact add_le_add h (share_le_share hp hpos h)
  · -- a negative correction takes away at most what has elapsed
    obtain ⟨d, rfl⟩ : ∃ d, c = -d := ⟨-c, (neg_neg c).symm⟩
    have hd : 0 ≤ d := by omega
    have hdp : d ≤ p := by rwa [abs_neg, abs_of_nonneg hd] at hc
    have hlow := (mul_share_le hp hd he).2
    have hhigh := (mul_share_le hp hd (he.trans h)).1
    have hmin : min f p ≤ min e p + (f - e) := by omega
    have hmono : min e p ≤ min f p := min_le_min_right p h
    have hgain : d * (min f p - min e p) ≤ p * (f - e) :=
      mul_le_mul hdp (by omega) (by omega) hp.le
    have hlt : p * share p d f < p * (share p d e + 1 + (f - e)) := by linarith
    have hstep := lt_of_mul_lt_mul_left hlt hp.le
    rw [share_neg, share_neg]
    omega

/-- The parts due at two times differ by the exact share of the time between them, up to one
unit of rounding. -/
theorem mul_abs_share_sub_le (hp : 0 < p) (he : 0 ≤ e) (h : e ≤ f) :
    p * |share p c f - share p c e| ≤ |c| * (f - e) + p := by
  have hpositive : ∀ d : ℤ, 0 ≤ d → p * |share p d f - share p d e| ≤ d * (f - e) + p := by
    intro d hd
    have hlow := (mul_share_le hp hd he).2
    have hhigh := (mul_share_le hp hd (he.trans h)).1
    have hmin : min f p - min e p ≤ f - e := by omega
    have hgain : d * (min f p - min e p) ≤ d * (f - e) := mul_le_mul_of_nonneg_left hmin hd
    rw [abs_of_nonneg (sub_nonneg.mpr (share_le_share hp hd h))]
    linarith
  rcases le_total 0 c with hc | hc
  · rw [abs_of_nonneg hc]
    exact hpositive c hc
  · have hflip := hpositive (-c) (Int.neg_nonneg_of_nonpos hc)
    rwa [share_neg, share_neg, neg_sub_neg, abs_sub_comm, ← abs_of_nonpos hc] at hflip

/-- The part due lies between nothing and the whole correction. -/
theorem abs_add_share_le {x bound : ℝ} (hp : 0 < p) (he : 0 ≤ e) (hx : |x| ≤ bound)
    (hxc : |x + c| ≤ bound) : |x + share p c e| ≤ bound := by
  rw [abs_le] at hx hxc ⊢
  rcases le_total 0 c with hpos | hneg
  · have hlow : (0 : ℝ) ≤ share p c e := by exact_mod_cast share_nonneg hp hpos he
    have hhigh : (share p c e : ℝ) ≤ c := by exact_mod_cast share_le hp hpos he
    constructor <;> linarith
  · have hlow : c ≤ share p c e := by
      have h := share_le hp (Int.neg_nonneg_of_nonpos hneg) he
      rw [share_neg] at h
      omega
    have hhigh : share p c e ≤ 0 := by
      have h := share_nonneg hp (Int.neg_nonneg_of_nonpos hneg) he
      rw [share_neg] at h
      omega
    have hlow' : (c : ℝ) ≤ share p c e := by exact_mod_cast hlow
    have hhigh' : (share p c e : ℝ) ≤ 0 := by exact_mod_cast hhigh
    constructor <;> linarith

/-- The part due differs from the exact part by less than one unit. -/
theorem abs_mul_share_sub (hp : 0 < p) (he : 0 ≤ e) : |p * share p c e - c * min e p| ≤ p := by
  rcases le_total 0 c with hpos | hneg
  · have h := mul_share_le hp hpos he
    rw [abs_le]
    constructor <;> linarith [h.1, h.2]
  · have h := mul_share_le hp (Int.neg_nonneg_of_nonpos hneg) he
    rw [share_neg] at h
    rw [abs_le]
    constructor <;> linarith [h.1, h.2]

/-- Contraction: an error within `bound` whose correction aims within `target` has shrunk in
proportion to the time, up to one unit of rounding. -/
theorem abs_add_share_contract {x bound target : ℝ} (hp : 0 < p) (he : 0 ≤ e) (hep : e ≤ p)
    (hx : |x| ≤ bound) (hxc : |x + c| ≤ target) :
    p * |x + share p c e| ≤ p * bound - (bound - target) * e + p := by
  have hround : |(p : ℝ) * share p c e - c * e| ≤ p := by
    have h := abs_mul_share_sub (c := c) hp he
    rw [min_eq_left hep] at h
    exact_mod_cast h
  have hp' : (0 : ℝ) ≤ p := by exact_mod_cast hp.le
  have he' : (0 : ℝ) ≤ e := by exact_mod_cast he
  have hrest : (0 : ℝ) ≤ p - e := by
    have : (e : ℝ) ≤ p := by exact_mod_cast hep
    linarith
  have hsplit : (p : ℝ) * (x + share p c e) =
      (p - e) * x + e * (x + c) + (p * share p c e - c * e) := by ring
  calc (p : ℝ) * |x + share p c e|
      = |(p - e) * x + e * (x + c) + (p * share p c e - c * e)| := by
        rw [← hsplit, abs_mul, abs_of_nonneg hp']
    _ ≤ |(p - e) * x| + |e * (x + c)| + |(p : ℝ) * share p c e - c * e| := abs_add_three _ _ _
    _ = (p - e) * |x| + e * |x + c| + |(p : ℝ) * share p c e - c * e| := by
        rw [abs_mul, abs_mul, abs_of_nonneg hrest, abs_of_nonneg he']
    _ ≤ (p - e) * bound + e * target + p :=
        add_le_add (add_le_add (mul_le_mul_of_nonneg_left hx hrest)
          (mul_le_mul_of_nonneg_left hxc he')) hround
    _ = p * bound - (bound - target) * e + p := by ring

end BajaDaq.GradualCorrections
