import Mathlib.Algebra.Order.Archimedean.Basic
import Mathlib.Order.Bounds.Basic

/-!
# Instants of a periodic grid

The instants `origin + j • period`, and the loop that adds whole periods to a time until it has
passed another. The least instant still to come tells by one comparison whether an instant has
become due.
-/

namespace BajaDaq.GridTimes

variable {G : Type*} [AddCommGroup G] [LinearOrder G] [IsOrderedAddMonoid G]
  {origin period now next t : G} {past : Option G}

def OnGrid (origin period t : G) : Prop := ∃ j : ℕ, t = origin + j • period

/-- The instants after the time `past`, all of them before there is one. -/
def Upcoming (origin period : G) (past : Option G) : Set G :=
  {t | OnGrid origin period t ∧ ∀ last ∈ past, last < t}

/-- `while (next <= now) next += period`, with at most `fuel` tests of the condition. -/
def advancePast (period now : G) : ℕ → G → Option G
  | 0, _ => none
  | fuel + 1, next =>
    if next ≤ now then advancePast period now fuel (next + period) else some next

omit [LinearOrder G] [IsOrderedAddMonoid G] in
theorem OnGrid.add_periods (h : OnGrid origin period t) (k : ℕ) :
    OnGrid origin period (t + k • period) := by
  obtain ⟨j, rfl⟩ := h
  exact ⟨j + k, by rw [add_nsmul, add_assoc]⟩

/-- Two instants are a whole period apart or in the other order. -/
theorem OnGrid.le_or_add_le (hp : 0 < period) {s : G} (hs : OnGrid origin period s)
    (ht : OnGrid origin period t) : t ≤ s ∨ s + period ≤ t := by
  obtain ⟨j, rfl⟩ := hs
  obtain ⟨k, rfl⟩ := ht
  rcases Nat.lt_or_ge j k with h | h
  · right
    rw [add_assoc, ← succ_nsmul]
    exact add_le_add_right (nsmul_le_nsmul_left hp.le h) origin
  · left
    exact add_le_add_right (nsmul_le_nsmul_left hp.le h) origin

theorem isLeast_origin (hp : 0 < period) : IsLeast (Upcoming origin period none) origin := by
  refine ⟨⟨⟨0, by simp⟩, by simp⟩, ?_⟩
  rintro t ⟨⟨j, rfl⟩, -⟩
  exact le_add_of_nonneg_right (nsmul_nonneg hp.le j)

/-- An instant after `now` whose predecessor is not after `now` is the next one. -/
theorem isLeast_of_between (hp : 0 < period) (hnext : OnGrid origin period next)
    (hafter : now < next) (hbefore : next ≤ now + period) :
    IsLeast (Upcoming origin period (some now)) next := by
  refine ⟨⟨hnext, fun last hlast => Option.some.inj hlast ▸ hafter⟩, ?_⟩
  rintro t ⟨ht, hlater⟩
  rcases OnGrid.le_or_add_le hp ht hnext with h | h
  · exact h
  · have hnow : t ≤ now := le_of_add_le_add_right (h.trans hbefore)
    exact absurd (hlater now rfl) (not_lt.mpr hnow)

omit [IsOrderedAddMonoid G] in
/-- While nothing has become due the next instant stays the same. -/
theorem isLeast_of_lt (h : IsLeast (Upcoming origin period past) next)
    (hpast : ∀ last ∈ past, last ≤ now) (hafter : now < next) :
    IsLeast (Upcoming origin period (some now)) next := by
  refine ⟨⟨h.1.1, fun last hlast => Option.some.inj hlast ▸ hafter⟩, ?_⟩
  rintro t ⟨ht, hlater⟩
  exact h.2 ⟨ht, fun last hlast => (hpast last hlast).trans_lt (hlater now rfl)⟩

omit [IsOrderedAddMonoid G] in
/-- One comparison decides whether an instant has become due. -/
theorem le_iff_exists_upcoming (h : IsLeast (Upcoming origin period past) next) :
    next ≤ now ↔ ∃ t ∈ Upcoming origin period past, t ≤ now := by
  constructor
  · intro hle
    exact ⟨next, h.1, hle⟩
  · rintro ⟨t, ht, hle⟩
    exact (h.2 ht).trans hle

/-- Where the loop stops, the time is the next instant. -/
theorem advancePast_isLeast (hp : 0 < period) {fuel : ℕ}
    (h : IsLeast (Upcoming origin period past) next) (hpast : ∀ last ∈ past, last ≤ now)
    (hloop : advancePast period now fuel next = some t) :
    IsLeast (Upcoming origin period (some now)) t := by
  induction fuel generalizing past next with
  | zero => exact absurd hloop (by simp [advancePast])
  | succ fuel ih =>
    rw [advancePast] at hloop
    split_ifs at hloop with hle
    · have hgrid := h.1.1.add_periods 1
      rw [one_nsmul] at hgrid
      have hnext : IsLeast (Upcoming origin period (some next)) (next + period) :=
        isLeast_of_between hp hgrid (lt_add_of_pos_right next hp) le_rfl
      exact ih hnext (fun last hlast => Option.some.inj hlast ▸ hle) hloop
    · obtain rfl := Option.some.inj hloop
      exact isLeast_of_lt h hpast (not_le.mp hle)

theorem exists_advancePast [Archimedean G] (hp : 0 < period) (now next : G) :
    ∃ fuel t, advancePast period now fuel next = some t := by
  obtain ⟨n, hn⟩ := exists_lt_nsmul hp (now - next)
  have hbound : now < next + n • period := sub_lt_iff_lt_add'.mp hn
  clear hn
  induction n generalizing next with
  | zero => exact ⟨1, next, by rw [advancePast, if_neg (by simpa using hbound)]⟩
  | succ n ih =>
    by_cases hle : next ≤ now
    · rw [succ_nsmul', ← add_assoc] at hbound
      obtain ⟨fuel, t, h⟩ := ih (next + period) hbound
      exact ⟨fuel + 1, t, by rw [advancePast, if_pos hle, h]⟩
    · exact ⟨1, next, by rw [advancePast, if_neg hle]⟩

end BajaDaq.GridTimes
