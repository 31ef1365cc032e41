import BajaDaq.ClockDiscipline

/-!
# How closely the estimate follows true time

True UTC is a function of uptime whose rate differs from one by at most `ρ`, and every
observation is within `J` of it. Each correction period shrinks the error of the estimate in
proportion to the spacing of the observations; 160 µs cover the rounding at the shortest one.
-/

namespace BajaDaq.ClockTracking
open ClockDiscipline GradualCorrections

structure Observation where
  uptimeUs : ℤ
  utcUs : ℤ
  deriving DecidableEq, Repr

/-- The clock after a sequence of observations. -/
def observeAll : Clock → List Observation → Clock
  | clock, [] => clock
  | clock, o :: rest => observeAll (clockDisciplineObserve clock o.uptimeUs o.utcUs).1 rest

/-- Consecutive observations are between 0.2 s and 32 s apart. -/
def Spaced (o next : Observation) : Prop :=
  200000 ≤ next.uptimeUs - o.uptimeUs ∧ next.uptimeUs - o.uptimeUs ≤ clockDisciplineCorrectionUs

instance (o next : Observation) : Decidable (Spaced o next) := inferInstanceAs (Decidable (_ ∧ _))

/-- `J + 32000000 ρ + 160`. -/
noncomputable def trackingBound (J ρ : ℝ) : ℝ := J + 32000000 * ρ + 160

section Tracking
variable {T : ℤ → ℝ} {J ρ : ℝ}

/-- The line starts within the bound of true time at the last observation, and its correction
aims within `J` of it. -/
structure Tracks (T : ℤ → ℝ) (J ρ : ℝ) (clock : Clock) (o : Observation) : Prop where
  synchronized : clock.synchronized = true
  anchor : clock.anchorUptimeUs = o.uptimeUs
  near : |(clock.anchorUtcUs : ℝ) - T o.uptimeUs| ≤ trackingBound J ρ
  aim : |(clock.anchorUtcUs : ℝ) - T o.uptimeUs + clock.correctionUs| ≤ J

/-- The line at a later uptime, relative to true time. -/
theorem estimate_sub {clock : Clock} {o : Observation} (h : Tracks T J ρ clock o) (e : ℤ) :
    (clockDisciplineUtcUs clock (o.uptimeUs + e) : ℝ) - T (o.uptimeUs + e) =
      (clock.anchorUtcUs - T o.uptimeUs + share clockDisciplineCorrectionUs clock.correctionUs e) -
        (T (o.uptimeUs + e) - T o.uptimeUs - e) := by
  rw [utcUs_of_synchronized h.synchronized, h.anchor, add_sub_cancel_left]
  push_cast
  ring

variable (hT : ∀ a b, a ≤ b → |T b - T a - (b - a : ℤ)| ≤ ρ * (b - a : ℤ))
include hT

theorem drift_le (o : Observation) {e : ℤ} (he : 0 ≤ e) :
    |T (o.uptimeUs + e) - T o.uptimeUs - e| ≤ ρ * e := by
  have h := hT o.uptimeUs (o.uptimeUs + e) (by omega)
  rwa [add_sub_cancel_left] at h

/-- Between observations only drift is added to the bound. -/
theorem tracks_later (hρ : 0 ≤ ρ) {clock : Clock} {o : Observation}
    (h : Tracks T J ρ clock o) {e : ℤ} (he : 0 ≤ e) :
    |(clockDisciplineUtcUs clock (o.uptimeUs + e) : ℝ) - T (o.uptimeUs + e)| ≤
      trackingBound J ρ + ρ * e := by
  have haim :
      |(clock.anchorUtcUs : ℝ) - T o.uptimeUs + clock.correctionUs| ≤ trackingBound J ρ := by
    refine h.aim.trans ?_
    unfold trackingBound
    linarith
  rw [estimate_sub h]
  exact (abs_sub _ _).trans
    (add_le_add (abs_add_share_le (by decide) he h.near haim) (drift_le hT o he))

/-- At the next observation the error has shrunk enough to make up for drift and rounding. -/
theorem tracks_next {clock : Clock} {o next : Observation}
    (h : Tracks T J ρ clock o) (hspaced : Spaced o next) :
    |(clockDisciplineUtcUs clock next.uptimeUs : ℝ) - T next.uptimeUs| ≤ trackingBound J ρ := by
  obtain ⟨hlow, hhigh⟩ := hspaced
  obtain ⟨e, he⟩ : ∃ e, e = next.uptimeUs - o.uptimeUs := ⟨_, rfl⟩
  have hnext : next.uptimeUs = o.uptimeUs + e := by omega
  rw [← he] at hlow hhigh
  have hshrunk := abs_add_share_contract (p := clockDisciplineCorrectionUs) (by decide)
    (by omega) hhigh h.near h.aim
  have hdrift := drift_le hT o (show 0 ≤ e by omega)
  have hlow' : (200000 : ℝ) ≤ e := by exact_mod_cast hlow
  have hperiod : ((clockDisciplineCorrectionUs : ℤ) : ℝ) = 32000000 := by
    norm_num [clockDisciplineCorrectionUs]
  rw [hnext, estimate_sub h]
  rw [hperiod] at hshrunk
  refine (abs_sub _ _).trans ((add_le_add le_rfl hdrift).trans ?_)
  unfold trackingBound at hshrunk ⊢
  linarith

theorem tracks_observe (hsmall : 2 * J + 32000000 * ρ + 160 ≤ 200000)
    {clock : Clock} {o next : Observation} (h : Tracks T J ρ clock o) (hspaced : Spaced o next)
    (hnear : |(next.utcUs : ℝ) - T next.uptimeUs| ≤ J) :
    (clockDisciplineObserve clock next.uptimeUs next.utcUs).2.1 = .corrected ∧
      Tracks T J ρ (clockDisciplineObserve clock next.uptimeUs next.utcUs).1 next := by
  have hestimate := tracks_next hT h hspaced
  -- the reported error is the jitter less the error of the estimate
  have hclose : ¬ TooFar (next.utcUs - clockDisciplineUtcUs clock next.uptimeUs) := by
    have herror : |(next.utcUs : ℝ) - clockDisciplineUtcUs clock next.uptimeUs| ≤ 200000 := by
      unfold trackingBound at hestimate
      rw [abs_le] at hestimate hnear ⊢
      constructor <;> linarith [hestimate.1, hestimate.2, hnear.1, hnear.2]
    have hint : |next.utcUs - clockDisciplineUtcUs clock next.uptimeUs| ≤ 200000 := by
      exact_mod_cast herror
    exact not_lt.mpr hint
  have hobserved := observed clock next.uptimeUs next.utcUs
  generalize (clockDisciplineObserve clock next.uptimeUs next.utcUs).1 = after at hobserved ⊢
  generalize (clockDisciplineObserve clock next.uptimeUs next.utcUs).2.1 = result at hobserved ⊢
  cases hobserved with
  | anchored hsync => simp [h.synchronized] at hsync
  | corrected _ _ hsync hanchor hutc hcorrection =>
    refine ⟨rfl, hsync, hanchor, by rwa [hutc], ?_⟩
    rw [hutc, hcorrection]
    push_cast
    rwa [sub_add_sub_cancel']
  | rejected _ hfar => exact absurd hfar hclose
  | stepped _ hfar => exact absurd hfar hclose

omit hT in
/-- The first observation anchors the line within `J` of true time. -/
theorem tracks_first (hρ : 0 ≤ ρ) {o : Observation}
    (hnear : |(o.utcUs : ℝ) - T o.uptimeUs| ≤ J) :
    Tracks T J ρ (clockDisciplineObserve .initial o.uptimeUs o.utcUs).1 o := by
  refine ⟨rfl, rfl, hnear.trans ?_, ?_⟩
  · unfold trackingBound
    linarith
  · simpa [clockDisciplineObserve, Clock.initial, jumpTo] using hnear

/-- Every observation after the first one finds a clock that tracks the observation before. -/
theorem tracks_rest (hsmall : 2 * J + 32000000 * ρ + 160 ≤ 200000)
    (before after : List Observation) {clock : Clock} {o next : Observation}
    (h : Tracks T J ρ clock o) (hspaced : (o :: (before ++ next :: after)).IsChain Spaced)
    (hnear : ∀ x ∈ before ++ next :: after, |(x.utcUs : ℝ) - T x.uptimeUs| ≤ J) :
    let found := observeAll clock before
    (clockDisciplineObserve found next.uptimeUs next.utcUs).2.1 = .corrected ∧
      Tracks T J ρ (clockDisciplineObserve found next.uptimeUs next.utcUs).1 next := by
  induction before generalizing clock o with
  | nil =>
    have hgap := (List.isChain_cons_cons.mp hspaced).1
    exact tracks_observe hT hsmall h hgap (hnear next (by simp))
  | cons b before ih =>
    obtain ⟨hgap, hrest⟩ := List.isChain_cons_cons.mp hspaced
    have hb := tracks_observe hT hsmall h hgap (hnear b (by simp))
    exact ih hb.2 hrest (fun x hx => hnear x (List.mem_cons_of_mem b hx))

/-- In every sequence of spaced observations near true time the first one anchors the clock,
all others correct it, and the estimate stays within the bound. -/
theorem tracks_of_observations (hρ : 0 ≤ ρ) (hsmall : 2 * J + 32000000 * ρ + 160 ≤ 200000)
    {observations : List Observation} (hspaced : observations.IsChain Spaced)
    (hnear : ∀ o ∈ observations, |(o.utcUs : ℝ) - T o.uptimeUs| ≤ J)
    (before after : List Observation) (o : Observation) (ho : observations = before ++ o :: after) :
    let observed := clockDisciplineObserve (observeAll .initial before) o.uptimeUs o.utcUs
    observed.2.1 = (if before = [] then .anchored else .corrected) ∧
      |(clockDisciplineUtcUs observed.1 o.uptimeUs : ℝ) - T o.uptimeUs| ≤ trackingBound J ρ ∧
      ∀ e : ℤ, 0 ≤ e →
        |(clockDisciplineUtcUs observed.1 (o.uptimeUs + e) : ℝ) - T (o.uptimeUs + e)| ≤
          trackingBound J ρ + ρ * e := by
  intro observed
  obtain ⟨hresult, htracks⟩ : observed.2.1 = (if before = [] then .anchored else .corrected) ∧
      Tracks T J ρ observed.1 o := by
    subst ho
    cases before with
    | nil => exact ⟨rfl, tracks_first hρ (hnear o (by simp))⟩
    | cons first before =>
      have hfirst := tracks_first hρ (hnear first (by simp))
      exact tracks_rest hT hsmall before after hfirst hspaced
        (fun x hx => hnear x (List.mem_cons_of_mem first hx))
  refine ⟨hresult, ?_, fun e he => tracks_later hT hρ htracks he⟩
  have hnow := tracks_later hT hρ htracks (le_refl 0)
  simpa using hnow

end Tracking

/-- An oscillator 30 ppm off and 20 ms of jitter, as in the host tests. -/
theorem tracks_host_tests :
    let T : ℤ → ℝ := fun uptime => uptime + 0.00003 * uptime
    let first : Observation := ⟨0, 20000⟩
    let second : Observation := ⟨1000000, 980030⟩
    let clock := (clockDisciplineObserve (observeAll .initial [first]) 1000000 980030).1
    ∀ e : ℤ, 0 ≤ e → |(clockDisciplineUtcUs clock (second.uptimeUs + e) : ℝ) -
      T (second.uptimeUs + e)| ≤ trackingBound 20000 0.00003 + 0.00003 * e := by
  intro T first second clock
  have hT : ∀ a b : ℤ, a ≤ b → |T b - T a - (b - a : ℤ)| ≤ 0.00003 * (b - a : ℤ) := by
    intro a b hab
    have hle : (0 : ℝ) ≤ (b - a : ℤ) := by exact_mod_cast sub_nonneg.mpr hab
    have hdrift : T b - T a - (b - a : ℤ) = 0.00003 * (b - a : ℤ) := by
      simp only [T]
      push_cast
      ring
    rw [hdrift, abs_of_nonneg (mul_nonneg (by norm_num) hle)]
  have hspaced : [first, second].IsChain Spaced := by
    refine List.isChain_cons_cons.mpr ⟨?_, .singleton _⟩
    decide
  have hnear : ∀ o ∈ [first, second], |(o.utcUs : ℝ) - T o.uptimeUs| ≤ 20000 := by
    intro o ho
    simp only [List.mem_cons, List.not_mem_nil, or_false] at ho
    rcases ho with rfl | rfl <;> norm_num [T, first, second, abs_le]
  exact (tracks_of_observations hT (by norm_num) (by norm_num) hspaced hnear [first] [] second
    rfl).2.2

end BajaDaq.ClockTracking
