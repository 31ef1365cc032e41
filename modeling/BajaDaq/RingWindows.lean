import Mathlib.Algebra.BigOperators.Group.List.Basic
import Mathlib.Data.List.Rotate

/-!
# Ring buffers

Values are written to `k` cells in turn. The cells hold the last `k` values, so a sum over the
cells that have been written is the sum of the last values, whatever the place of the next write.
-/

namespace BajaDaq.RingWindows

variable {α : Type*} {k : ℕ} {cells written : List α}

/-- The cells hold the last `k` of the values written, each at its number modulo `k`. -/
structure HoldsLast (k : ℕ) (cells written : List α) : Prop where
  length : cells.length = k
  cell : ∀ i < written.length, written.length ≤ i + k → cells[i % k]? = written[i]?

theorem holdsLast_nil (h : cells.length = k) : HoldsLast k cells [] :=
  ⟨h, fun i hi => absurd hi (Nat.not_lt_zero i)⟩

theorem mod_ne_of_lt {i n : ℕ} (hi : i < n) (hn : n < i + k) : i % k ≠ n % k := by
  intro h
  have hzero : (n - i) % k = 0 := Nat.sub_mod_eq_zero_of_mod_eq h.symm
  rw [Nat.mod_eq_of_lt (by omega)] at hzero
  omega

theorem HoldsLast.write (hk : 0 < k) (h : HoldsLast k cells written) (x : α) :
    HoldsLast k (cells.set (written.length % k) x) (written ++ [x]) := by
  refine ⟨by simp [h.length], ?_⟩
  intro i hi hlast
  simp only [List.length_append, List.length_singleton] at hi hlast
  rcases Nat.lt_succ_iff_lt_or_eq.mp hi with hold | rfl
  · rw [List.getElem?_set_ne (mod_ne_of_lt hold (by omega)).symm, h.cell i hold (by omega),
      List.getElem?_append_left hold]
  · have hcell : written.length % k < cells.length := by
      rw [h.length]
      exact Nat.mod_lt _ hk
    rw [List.getElem?_set_self hcell, List.getElem?_concat_length]

/-- Once every cell has been written the cells are the last values in some rotation. -/
theorem HoldsLast.rotate (h : HoldsLast k cells written) (hfull : k ≤ written.length) :
    cells.rotate written.length = written.drop (written.length - k) := by
  apply List.ext_getElem?
  intro j
  by_cases hj : j < k
  · have hcell := h.cell (written.length - k + j) (by omega) (by omega)
    have hmod : (written.length - k + j) % k = (j + written.length) % k := by
      rw [← Nat.add_mod_right, show written.length - k + j + k = j + written.length by omega]
    rw [List.getElem?_rotate (h.length ▸ hj), h.length, ← hmod, hcell, List.getElem?_drop]
  · rw [List.getElem?_eq_none, List.getElem?_eq_none]
    · simp only [List.length_drop]
      omega
    · simp only [List.length_rotate, h.length]
      omega

/-- Before that they are the values in order. -/
theorem HoldsLast.take (h : HoldsLast k cells written) (hpart : written.length ≤ k) :
    cells.take written.length = written := by
  apply List.ext_getElem?
  intro j
  by_cases hj : j < written.length
  · have hcell := h.cell j hj (by omega)
    rw [List.getElem?_take_of_lt hj, ← hcell, Nat.mod_eq_of_lt (hj.trans_le hpart)]
  · rw [List.getElem?_eq_none (by simp; omega), List.getElem?_eq_none (by omega)]

/-- The cells that have been written hold written values. -/
theorem HoldsLast.mem_take (h : HoldsLast k cells written) {x : α}
    (hx : x ∈ cells.take (min written.length k)) : x ∈ written := by
  rcases Nat.le_total written.length k with hpart | hfull
  · rwa [min_eq_left hpart, h.take hpart] at hx
  · have hrotate : x ∈ cells.rotate written.length := List.mem_rotate.mpr (List.mem_of_mem_take hx)
    rw [h.rotate hfull] at hrotate
    exact List.mem_of_mem_drop hrotate

theorem HoldsLast.sum_take [AddCommMonoid α] (h : HoldsLast k cells written) :
    (cells.take (min written.length k)).sum = (written.drop (written.length - k)).sum := by
  rcases Nat.le_total written.length k with hpart | hfull
  · rw [min_eq_left hpart, h.take hpart, Nat.sub_eq_zero_of_le hpart, List.drop_zero]
  · rw [min_eq_right hfull, List.take_of_length_le h.length.le, ← h.rotate hfull]
    exact (List.rotate_perm cells written.length).sum_eq.symm

end BajaDaq.RingWindows
