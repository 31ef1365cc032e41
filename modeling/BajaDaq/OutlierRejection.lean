import Mathlib.Data.List.DropRight
import Mathlib.Data.List.Induction
import BajaDaq.ClockTracking

/-!
# Which observations the clock accepts

The clock keeps a saturating count and one uptime. The rule below is said over the whole
history instead: an observation too far off is rejected until it ends a run of at least five
of them that spans at least 5 s.
-/

namespace BajaDaq.OutlierRejection
open ClockDiscipline ClockTracking

/-- An observation with what came of it and the clock it left. -/
structure Entry where
  observation : Observation
  result : ClockObservation
  errorUs : ℤ
  clock : Clock
  deriving DecidableEq, Repr

def Entry.accepted (e : Entry) : Bool := e.result ≠ .rejected

/-- Feed one observation. -/
def entry (clock : Clock) (o : Observation) : Entry :=
  let (after, result, errorUs) := clockDisciplineObserve clock o.uptimeUs o.utcUs
  ⟨o, result, errorUs, after⟩

/-- What came of each of a sequence of observations. -/
def history : Clock → List Observation → List Entry
  | _, [] => []
  | clock, o :: rest => entry clock o :: history (entry clock o).clock rest

theorem observeAll_concat (clock : Clock) (os : List Observation) (o : Observation) :
    observeAll clock (os ++ [o]) = (entry (observeAll clock os) o).clock := by
  induction os generalizing clock with
  | nil => rfl
  | cons p os ih => exact ih _

theorem history_concat (clock : Clock) (os : List Observation) (o : Observation) :
    history clock (os ++ [o]) = history clock os ++ [entry (observeAll clock os) o] := by
  induction os generalizing clock with
  | nil => rfl
  | cons p os ih => exact congrArg (entry clock p :: ·) (ih _)

/-- The entries since the last one that was accepted. -/
def rejectedRun (before : List Entry) : List Entry := before.rtakeWhile (fun e => !e.accepted)

/-- The run of errors too large that ends with `o`. -/
def tooFarRun (before : List Entry) (o : Observation) : List Observation :=
  (rejectedRun before).map (·.observation) ++ [o]

/-- The run has at least five members and spans at least 5 s from the first of them. -/
def LongEnough (before : List Entry) (o : Observation) : Prop :=
  5 ≤ (tooFarRun before o).length ∧
    ∀ first ∈ (tooFarRun before o).head?, 5000000 ≤ o.uptimeUs - first.uptimeUs

instance (before : List Entry) (o : Observation) : Decidable (LongEnough before o) :=
  inferInstanceAs (Decidable (_ ∧ _))

/-- The count and the uptime kept by the clock describe the run of rejections. -/
structure Counts (clock : Clock) (before : List Entry) : Prop where
  synchronized : clock.synchronized = true ↔ before ≠ []
  count : clock.rejectedInARow.toNat = min 255 (rejectedRun before).length
  since : ∀ first ∈ (rejectedRun before).head?,
    clock.rejectingSinceUs = first.observation.uptimeUs

theorem counts_initial : Counts .initial [] := by
  constructor <;> simp [Clock.initial, rejectedRun]

/-- One more rejection counts, also after the count has saturated. -/
theorem countRejection_toNat (clock : Clock) (uptimeUs : ℤ) :
    (countRejection clock uptimeUs).rejectedInARow.toNat =
      min 255 (clock.rejectedInARow.toNat + 1) := by
  have hbound := clock.rejectedInARow.toNat_lt
  simp only [countRejection]
  split_ifs with h
  · have hlt : clock.rejectedInARow.toNat < 255 := UInt8.lt_iff_toNat_lt.mp h
    rw [UInt8.toNat_add, UInt8.toNat_one]
    omega
  · have hge : ¬ clock.rejectedInARow.toNat < 255 := fun hlt => h (UInt8.lt_iff_toNat_lt.mpr hlt)
    omega

section Counting
variable {clock : Clock} {before : List Entry}

theorem count_eq_zero_iff (h : Counts clock before) :
    clock.rejectedInARow = 0 ↔ rejectedRun before = [] := by
  rw [← UInt8.toNat_inj, h.count, UInt8.toNat_zero, ← List.length_eq_zero_iff]
  omega

/-- The uptime noted with a rejection is that of the first of its run. -/
theorem countRejection_since (h : Counts clock before) (o : Observation) :
    ∀ first ∈ (tooFarRun before o).head?,
      (countRejection clock o.uptimeUs).rejectingSinceUs = first.uptimeUs := by
  intro first hfirst
  simp only [countRejection, count_eq_zero_iff h]
  cases hrun : rejectedRun before with
  | nil =>
    obtain rfl : o = first := by simpa [tooFarRun, hrun] using hfirst
    rfl
  | cons e run =>
    obtain rfl : e.observation = first := by simpa [tooFarRun, hrun] using hfirst
    simpa [hrun] using h.since e (by simp [hrun])

/-- The test of the code on its counters is the rule over the history. -/
theorem rejects_iff (h : Counts clock before) (o : Observation) :
    ((countRejection clock o.uptimeUs).rejectedInARow < clockDisciplineStepAfterRejections ∨
      o.uptimeUs - (countRejection clock o.uptimeUs).rejectingSinceUs <
        clockDisciplineStepAfterUs) ↔ ¬ LongEnough before o := by
  have hlength : (tooFarRun before o).length = (rejectedRun before).length + 1 := by
    simp [tooFarRun]
  have hcount : (countRejection clock o.uptimeUs).rejectedInARow <
      clockDisciplineStepAfterRejections ↔ (tooFarRun before o).length < 5 := by
    rw [UInt8.lt_iff_toNat_lt, countRejection_toNat, h.count, hlength]
    show min 255 (min 255 _ + 1) < 5 ↔ _
    omega
  obtain ⟨first, hfirst⟩ : ∃ first, (tooFarRun before o).head? = some first := by
    cases hrun : tooFarRun before o with
    | nil => simp [hrun] at hlength
    | cons first run => exact ⟨first, rfl⟩
  have hsince := countRejection_since h o first hfirst
  have hspan : LongEnough before o ↔ 5 ≤ (tooFarRun before o).length ∧
      5000000 ≤ o.uptimeUs - first.uptimeUs := by
    simp [LongEnough, hfirst]
  rw [hcount, hsince, hspan, clockDisciplineStepAfterUs]
  omega

/-- What the clock answers, in terms of the history. -/
theorem entry_eq (h : Counts clock before) (o : Observation) :
    entry clock o =
      if before = [] then ⟨o, .anchored, 0, jumpTo o.uptimeUs o.utcUs⟩
      else
        let estimateUs := clockDisciplineUtcUs clock o.uptimeUs
        let errorUs := o.utcUs - estimateUs
        if TooFar errorUs then
          if LongEnough before o then ⟨o, .stepped, errorUs, jumpTo o.uptimeUs o.utcUs⟩
          else ⟨o, .rejected, errorUs, countRejection clock o.uptimeUs⟩
        else ⟨o, .corrected, errorUs, { clock with
          anchorUptimeUs := o.uptimeUs
          anchorUtcUs := estimateUs
          correctionUs := errorUs
          rejectedInARow := 0 }⟩ := by
  have hreject := rejects_iff h o
  by_cases hfirst : before = []
  · have hsync : clock.synchronized = false := by
      simpa using (not_congr h.synchronized).mpr (not_not.mpr hfirst)
    rw [if_pos hfirst]
    simp [entry, clockDisciplineObserve, hsync]
  · have hsync : clock.synchronized = true := h.synchronized.mpr hfirst
    rw [if_neg hfirst]
    simp only [entry, clockDisciplineObserve, hsync, Bool.not_true, Bool.false_eq_true, if_false,
      hreject]
    split_ifs <;> rfl

/-- After an accepted observation the run is empty. -/
theorem counts_accepted (e : Entry) (haccepted : e.accepted = true)
    (hsync : e.clock.synchronized = true) (hzero : e.clock.rejectedInARow = 0) :
    Counts e.clock (before ++ [e]) := by
  have hrun : rejectedRun (before ++ [e]) = [] := by
    rw [rejectedRun, List.rtakeWhile_concat_neg _ _ _ (by simp [haccepted])]
  refine ⟨by simp [hsync], ?_, ?_⟩
  · simp [hrun, hzero]
  · simp [hrun]

theorem counts_rejected (h : Counts clock before) (hne : before ≠ []) (o : Observation)
    (errorUs : ℤ) :
    let counted := countRejection clock o.uptimeUs
    Counts counted (before ++ [⟨o, .rejected, errorUs, counted⟩]) := by
  intro counted
  have hrun : rejectedRun (before ++ [⟨o, .rejected, errorUs, counted⟩]) =
      rejectedRun before ++ [⟨o, .rejected, errorUs, counted⟩] :=
    List.rtakeWhile_concat_pos _ _ _ (by simp [Entry.accepted])
  refine ⟨?_, ?_, ?_⟩
  · have hsync : counted.synchronized = true := h.synchronized.mpr hne
    simp [hsync]
  · rw [hrun, countRejection_toNat, h.count, List.length_append, List.length_singleton]
    omega
  · intro first hfirst
    apply countRejection_since h o first.observation
    rw [hrun] at hfirst
    cases hbefore : rejectedRun before with
    | nil =>
      obtain rfl : _ = first := by simpa [hbefore] using hfirst
      simp [tooFarRun, hbefore]
    | cons e run =>
      obtain rfl : e = first := by simpa [hbefore] using hfirst
      simp [tooFarRun, hbefore]

theorem counts_entry (h : Counts clock before) (o : Observation) :
    Counts (entry clock o).clock (before ++ [entry clock o]) := by
  rw [entry_eq h o]
  dsimp only
  split_ifs with hfirst hfar
  · exact counts_accepted _ rfl rfl rfl
  · exact counts_accepted _ rfl rfl rfl
  · exact counts_rejected h hfirst o _
  · exact counts_accepted _ rfl (h.synchronized.mpr hfirst) rfl

end Counting

theorem counts_history (os : List Observation) :
    Counts (observeAll .initial os) (history .initial os) := by
  induction os using List.reverseRecOn with
  | nil => exact counts_initial
  | append_singleton os o ih =>
    rw [observeAll_concat, history_concat]
    exact counts_entry ih o

/-- A line starts at its anchor. -/
theorem utcUs_at_anchor {clock : Clock} {m : ℤ} (h : clock.synchronized = true)
    (hanchor : clock.anchorUptimeUs = m) : clockDisciplineUtcUs clock m = clock.anchorUtcUs := by
  rw [utcUs_of_synchronized h, hanchor]
  simp [GradualCorrections.share, clockDisciplineCorrectionUs]

theorem utcUs_jumpTo (uptimeUs utcUs m : ℤ) :
    clockDisciplineUtcUs (jumpTo uptimeUs utcUs) m = utcUs + (m - uptimeUs) := by
  rw [utcUs_of_synchronized rfl]
  simp [jumpTo, GradualCorrections.share]

theorem history_eq_nil_iff (os : List Observation) : history .initial os = [] ↔ os = [] := by
  cases os <;> simp [history]

/-- Which result every observation of every sequence gets, and what it does to the estimate. -/
theorem outliers_by_history (before : List Observation) (o : Observation) :
    let clock := observeAll .initial before
    let past := history .initial before
    let errorUs := o.utcUs - clockDisciplineUtcUs clock o.uptimeUs
    let e := entry clock o
    ((e.result = .anchored ↔ before = []) ∧
      (e.result = .stepped ↔ before ≠ [] ∧ TooFar errorUs ∧ LongEnough past o) ∧
      (e.result = .rejected ↔ before ≠ [] ∧ TooFar errorUs ∧ ¬ LongEnough past o) ∧
      (e.result = .corrected ↔ before ≠ [] ∧ ¬ TooFar errorUs)) ∧
    (e.result = .rejected →
      ∀ m, clockDisciplineUtcUs e.clock m = clockDisciplineUtcUs clock m) ∧
    (e.result = .corrected →
      clockDisciplineUtcUs e.clock o.uptimeUs = clockDisciplineUtcUs clock o.uptimeUs) ∧
    (e.result = .anchored ∨ e.result = .stepped →
      ∀ m, clockDisciplineUtcUs e.clock m = o.utcUs + (m - o.uptimeUs)) := by
  intro clock past errorUs e
  have hcounts : Counts clock past := counts_history before
  have he : e = entry clock o := rfl
  rw [entry_eq hcounts o] at he
  simp only [past, history_eq_nil_iff] at he
  split_ifs at he with hfirst hfar hlong
  · rw [he]
    simp [hfirst, utcUs_jumpTo]
  · rw [he]
    simp [hfirst, hfar, hlong, past, errorUs, clock, utcUs_jumpTo]
  · rw [he]
    simp [hfirst, hfar, hlong, past, errorUs, clock, utcUs_countRejection]
  · rw [he]
    have hsync : clock.synchronized = true :=
      hcounts.synchronized.mpr (mt (history_eq_nil_iff before).mp hfirst)
    simp [hfirst, hfar, errorUs, clock, utcUs_at_anchor, hsync]

end BajaDaq.OutlierRejection
