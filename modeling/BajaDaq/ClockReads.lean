import BajaDaq.ClockDiscipline
import BajaDaq.TransitionRuns

/-!
# Reads of absolute time between observations

An observation is measured at the start of its burst and arrives later, when reads up to now
have already been served from the old line. Whether the new line keeps up with them depends
on the two corrections and on the delay.
-/

namespace BajaDaq.ClockReads
open ClockDiscipline GradualCorrections TransitionRuns

inductive Event where
  /-- `utc_us_at` -/
  | read (now : ℤ)
  /-- an observation that arrives at `now` with its own uptime and UTC -/
  | observe (now uptimeUs utcUs : ℤ)
  deriving DecidableEq, Repr

inductive Outcome where
  | value (utcUs : ℤ)
  | observation (result : ClockObservation)
  deriving DecidableEq, Repr

/-- The outcomes are kept newest first. -/
structure Timeline where
  clock : Clock
  now : ℤ
  measured : Option ℤ
  history : List Outcome
  deriving DecidableEq, Repr

def Timeline.start (now : ℤ) : Timeline := ⟨.initial, now, none, []⟩

/-- Time and measurement uptimes do not decrease, and a measurement lies in the past. -/
def step (s : Timeline) : Event → Option Timeline
  | .read now =>
    if s.now ≤ now then
      some { s with
        now := now
        history := .value (clockDisciplineUtcUs s.clock now) :: s.history }
    else none
  | .observe now uptimeUs utcUs =>
    if s.now ≤ now ∧ uptimeUs ≤ now ∧ ∀ last ∈ s.measured, last ≤ uptimeUs then
      let observed := clockDisciplineObserve s.clock uptimeUs utcUs
      some ⟨observed.1, now, some uptimeUs, .observation observed.2.1 :: s.history⟩
    else none

/-- The values read since the clock last stepped. -/
def served : List Outcome → List ℤ
  | [] => []
  | .value utcUs :: earlier => utcUs :: served earlier
  | .observation .stepped :: _ => []
  | .observation _ :: earlier => served earlier

/-- Each read is at least as large as every earlier one with no step between. -/
def NeverBackwards : List Outcome → Prop
  | [] => True
  | .value utcUs :: earlier => (∀ v ∈ served earlier, v ≤ utcUs) ∧ NeverBackwards earlier
  | .observation _ :: earlier => NeverBackwards earlier

/-- How far an observation lies from the line of a synchronized clock. -/
def offLine (clock : Clock) (uptimeUs utcUs : ℤ) : ℤ :=
  let elapsedUs := uptimeUs - clock.anchorUptimeUs
  utcUs - clock.anchorUtcUs - elapsedUs -
    share clockDisciplineCorrectionUs clock.correctionUs elapsedUs

/-- The part of the new correction that is due by now makes up for what the old correction has
added since the measurement. -/
def MakesUp (clock : Clock) (now uptimeUs utcUs : ℤ) : Prop :=
  let added := share clockDisciplineCorrectionUs clock.correctionUs
  added (now - clock.anchorUptimeUs) - added (uptimeUs - clock.anchorUptimeUs) ≤
    share clockDisciplineCorrectionUs (offLine clock uptimeUs utcUs) (now - uptimeUs)

instance (clock : Clock) (now uptimeUs utcUs : ℤ) : Decidable (MakesUp clock now uptimeUs utcUs) :=
  inferInstanceAs (Decidable (_ ≤ _))

/-- A bad observation moves no line, and the first one has only the zero reads before it. -/
def KeepsUp (s : Timeline) : Event → Prop
  | .read _ => True
  | .observe now uptimeUs utcUs =>
    (s.clock.synchronized = false ∧ 0 ≤ utcUs + (now - uptimeUs)) ∨
      (s.clock.synchronized = true ∧
        (TooFar (offLine s.clock uptimeUs utcUs) ∨ MakesUp s.clock now uptimeUs utcUs))

instance (s : Timeline) (e : Event) : Decidable (KeepsUp s e) :=
  match e with
  | .read _ => isTrue trivial
  | .observe _ _ _ => inferInstanceAs (Decidable (_ ∨ _))

theorem offLine_eq {clock : Clock} (h : clock.synchronized = true) (uptimeUs utcUs : ℤ) :
    offLine clock uptimeUs utcUs = utcUs - clockDisciplineUtcUs clock uptimeUs := by
  rw [utcUs_of_synchronized h, offLine]
  omega

/-- The estimate at `now` after the observation is at least the one before, unless the clock
steps, exactly when the observation keeps up. -/
theorem keepsUp_iff (s : Timeline) (now uptimeUs utcUs : ℤ) :
    KeepsUp s (.observe now uptimeUs utcUs) ↔
      ((clockDisciplineObserve s.clock uptimeUs utcUs).2.1 = .stepped ∨
        clockDisciplineUtcUs s.clock now ≤
          clockDisciplineUtcUs (clockDisciplineObserve s.clock uptimeUs utcUs).1 now) := by
  have h := observed s.clock uptimeUs utcUs
  generalize (clockDisciplineObserve s.clock uptimeUs utcUs).1 = after at h ⊢
  generalize (clockDisciplineObserve s.clock uptimeUs utcUs).2.1 = result at h ⊢
  cases h with
  | anchored h =>
    have hnew : clockDisciplineUtcUs (jumpTo uptimeUs utcUs) now = utcUs + (now - uptimeUs) := by
      rw [utcUs_of_synchronized rfl]
      simp [jumpTo, share]
    simp [KeepsUp, h, utcUs_of_unsynchronized h, hnew]
  | corrected h hnear hsync hanchor hutc hcorrection =>
    rw [← offLine_eq h] at hnear hcorrection
    rw [utcUs_of_synchronized hsync, hanchor, hutc, hcorrection, utcUs_of_synchronized h,
      utcUs_of_synchronized h]
    simp only [KeepsUp, MakesUp, h, hnear, false_or, true_and, false_and, reduceCtorEq]
    constructor <;> intro hle <;> omega
  | rejected h hfar =>
    rw [← offLine_eq h] at hfar
    simp [KeepsUp, h, hfar, utcUs_countRejection]
  | stepped h hfar =>
    rw [← offLine_eq h] at hfar
    simp [KeepsUp, h, hfar]

structure ReadInvariant (s : Timeline) : Prop where
  measured_le : ∀ m ∈ s.measured, m ≤ s.now
  anchor_le : s.clock.synchronized = true → ∃ m ∈ s.measured, s.clock.anchorUptimeUs ≤ m
  correction : |s.clock.correctionUs| ≤ clockDisciplineMaxErrorUs
  served_le : ∀ v ∈ served s.history, v ≤ clockDisciplineUtcUs s.clock s.now
  ordered : NeverBackwards s.history

theorem no_correction : |(0 : ℤ)| ≤ clockDisciplineMaxErrorUs := by decide

theorem readInvariant_start (now : ℤ) : ReadInvariant (.start now) where
  measured_le := nofun
  anchor_le := nofun
  correction := no_correction
  served_le := nofun
  ordered := trivial

/-- Time alone keeps the estimate above everything served. -/
theorem served_le_of_le {s : Timeline} (hI : ReadInvariant s) {now : ℤ} (h : s.now ≤ now) :
    ∀ v ∈ served s.history, v ≤ clockDisciplineUtcUs s.clock now := by
  intro v hv
  refine (hI.served_le v hv).trans (utcUs_mono hI.correction ?_ h)
  intro hsync
  obtain ⟨m, hm, hle⟩ := hI.anchor_le hsync
  exact hle.trans (hI.measured_le m hm)

theorem readInvariant_read {s : Timeline} (hI : ReadInvariant s) {now : ℤ} (h : s.now ≤ now) :
    ReadInvariant { s with
      now := now, history := .value (clockDisciplineUtcUs s.clock now) :: s.history } where
  measured_le m hm := (hI.measured_le m hm).trans h
  anchor_le := hI.anchor_le
  correction := hI.correction
  served_le v hv := by
    rcases List.mem_cons.mp hv with rfl | hv
    · exact le_rfl
    · exact served_le_of_le hI h v hv
  ordered := ⟨served_le_of_le hI h, hI.ordered⟩

theorem readInvariant_observe {s : Timeline} (hI : ReadInvariant s) {now uptimeUs utcUs : ℤ}
    (hnow : s.now ≤ now) (hpast : uptimeUs ≤ now) (hlast : ∀ last ∈ s.measured, last ≤ uptimeUs)
    (hC : KeepsUp s (.observe now uptimeUs utcUs)) :
    let observed := clockDisciplineObserve s.clock uptimeUs utcUs
    ReadInvariant ⟨observed.1, now, some uptimeUs, .observation observed.2.1 :: s.history⟩ := by
  have hkeep := (keepsUp_iff s now uptimeUs utcUs).mp hC
  have hbefore := served_le_of_le hI hnow
  have h := observed s.clock uptimeUs utcUs
  dsimp only
  generalize (clockDisciplineObserve s.clock uptimeUs utcUs).1 = after at h hkeep ⊢
  generalize (clockDisciplineObserve s.clock uptimeUs utcUs).2.1 = result at h hkeep ⊢
  have hmeasured : ∀ m ∈ some uptimeUs, m ≤ now := by
    rintro m ⟨⟩
    exact hpast
  cases h with
  | anchored h =>
    refine ⟨hmeasured, fun _ => ⟨_, rfl, le_rfl⟩, no_correction, ?_, hI.ordered⟩
    exact fun v hv => (hbefore v hv).trans (hkeep.resolve_left nofun)
  | corrected h hnear hsync hanchor hutc hcorrection =>
    refine ⟨hmeasured, fun _ => ⟨_, rfl, hanchor.le⟩, ?_, ?_, hI.ordered⟩
    · rw [hcorrection]
      exact not_lt.mp hnear
    · exact fun v hv => (hbefore v hv).trans (hkeep.resolve_left nofun)
  | rejected h hfar =>
    refine ⟨hmeasured, fun _ => ?_, hI.correction, hbefore, hI.ordered⟩
    obtain ⟨m, hm, hle⟩ := hI.anchor_le h
    exact ⟨_, rfl, hle.trans (hlast m hm)⟩
  | stepped h hfar => exact ⟨hmeasured, fun _ => ⟨_, rfl, le_rfl⟩, no_correction, nofun, hI.ordered⟩

/-- Time never runs backwards in a run whose observations all keep up. -/
theorem neverBackwards_of_run {now : ℤ} {es : List Event} {s : Timeline}
    (h : Run step KeepsUp (.start now) es s) : NeverBackwards s.history := by
  refine (h.invariant (readInvariant_start now) ?_).ordered
  intro s e t hI hC hstep
  cases e with
  | read now =>
    simp only [step] at hstep
    split_ifs at hstep with hnow
    obtain rfl := Option.some.inj hstep
    exact readInvariant_read hI hnow
  | observe now uptimeUs utcUs =>
    simp only [step] at hstep
    split_ifs at hstep with hgap
    obtain rfl := Option.some.inj hstep
    exact readInvariant_observe hI hgap.1 hgap.2.1 hgap.2.2 hC

/-- Two errors of 20 ms in the same direction, each measured 75 ms before it arrives. -/
def steadyErrors : List Event :=
  [.observe 75000 0 1700000000000000, .read 75000,
    .observe 275000 200000 1700000000220000, .read 475000,
    .observe 475000 400000 1700000000420125, .read 475000]

theorem steadyErrors_forward :
    ∃ s, Run step KeepsUp (.start 0) steadyErrors s ∧ NeverBackwards s.history := by
  have h : Run step KeepsUp (.start 0) steadyErrors _ := Run.of_exec rfl
  exact ⟨_, h, neverBackwards_of_run h⟩

/-- The same with the second error in the other direction. -/
def jitteryErrors : List Event :=
  [.observe 75000 0 1700000000000000, .read 75000,
    .observe 275000 200000 1700000000220000, .read 475000,
    .observe 475000 400000 1700000000380125, .read 475000]

/-- The last read is then 92 µs behind the one before, though all observations were accepted. -/
theorem jitteryErrors_backward :
    ∃ s, Run step Free (.start 0) jitteryErrors s ∧
      s.history = [.value 1700000000475079, .observation .corrected, .value 1700000000475171,
        .observation .corrected, .value 1700000000075000, .observation .anchored] ∧
      ¬ NeverBackwards s.history := by
  refine ⟨_, Run.of_exec_free rfl, rfl, ?_⟩
  rintro ⟨hlast, -⟩
  exact absurd (hlast 1700000000475171 (List.mem_cons_self ..)) (by decide)

end BajaDaq.ClockReads
