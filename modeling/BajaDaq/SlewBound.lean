import Mathlib.Data.Finset.Card
import BajaDaq.OutlierRejection

/-!
# How far the rate of the estimate is from one

The line in force at an uptime is the one set by the latest accepted observation up to it.
Between two jumps the estimate follows elapsed time within one part in 160 and one microsecond
of rounding for each line, and never runs backwards: every line starts where the one before it
has got to.
-/

namespace BajaDaq.SlewBound
open ClockDiscipline ClockTracking OutlierRejection GradualCorrections

/-- The accepted observations up to an uptime. -/
def acceptedUpTo (entries : List Entry) (m : ℤ) : List Entry :=
  entries.filter (fun e => e.accepted && decide (e.observation.uptimeUs ≤ m))

/-- The line set by the latest accepted observation up to an uptime. -/
def lineInForce (os : List Observation) (m : ℤ) : Option Clock :=
  (acceptedUpTo (history .initial os) m).getLast?.map (·.clock)

/-- The uptimes after `u₁` and up to `u₂` from which another line was in force. -/
def joins (entries : List Entry) (u₁ u₂ : ℤ) : Finset ℤ :=
  ((acceptedUpTo entries u₂).map (·.observation.uptimeUs)).toFinset.filter (u₁ < ·)

/-- The number of lines in force at some uptime from `u₁` to `u₂`. -/
def segmentsTouched (os : List Observation) (u₁ u₂ : ℤ) : ℕ :=
  (joins (history .initial os) u₁ u₂).card + 1

def Sorted (os : List Observation) : Prop := os.Pairwise (·.uptimeUs ≤ ·.uptimeUs)

instance (os : List Observation) : Decidable (Sorted os) :=
  inferInstanceAs (Decidable (os.Pairwise _))

/-- The clock was set to GPS time, so its estimate may have jumped. -/
def Jumped (e : Entry) : Prop := e.result = .anchored ∨ e.result = .stepped

instance (e : Entry) : Decidable (Jumped e) := inferInstanceAs (Decidable (_ ∨ _))

/-- A line whose correction was within the limit, at an uptime from its anchor on. -/
structure Line (clock : Clock) (m : ℤ) : Prop where
  synchronized : clock.synchronized = true
  correction : |clock.correctionUs| ≤ clockDisciplineMaxErrorUs
  anchor : clock.anchorUptimeUs ≤ m

theorem Line.mono {clock : Clock} {a b : ℤ} (h : Line clock a) (hab : a ≤ b) : Line clock b :=
  ⟨h.synchronized, h.correction, h.anchor.trans hab⟩

theorem line_jumpTo (uptimeUs utcUs : ℤ) : Line (jumpTo uptimeUs utcUs) uptimeUs :=
  ⟨rfl, by simp [jumpTo, clockDisciplineMaxErrorUs], le_refl uptimeUs⟩

/-- Along one line. -/
theorem Line.slew {clock : Clock} {a b : ℤ} (h : Line clock a) (hab : a ≤ b) :
    160 * |clockDisciplineUtcUs clock b - clockDisciplineUtcUs clock a - (b - a)| ≤
      (b - a) + 160 := by
  have hfrom : 0 ≤ a - clock.anchorUptimeUs := sub_nonneg.mpr h.anchor
  have hshare := mul_abs_share_sub_le (p := clockDisciplineCorrectionUs)
    (c := clock.correctionUs) (by decide) hfrom (Int.sub_le_sub_right hab clock.anchorUptimeUs)
  have hlimit : |clock.correctionUs| * (b - a) ≤ clockDisciplineMaxErrorUs * (b - a) :=
    mul_le_mul_of_nonneg_right h.correction (sub_nonneg.mpr hab)
  rw [sub_sub_sub_cancel_right] at hshare
  rw [utcUs_of_synchronized h.synchronized, utcUs_of_synchronized h.synchronized]
  generalize share clockDisciplineCorrectionUs clock.correctionUs (b - clock.anchorUptimeUs) = later
    at hshare ⊢
  generalize share clockDisciplineCorrectionUs clock.correctionUs
    (a - clock.anchorUptimeUs) = sooner at hshare ⊢
  have hrest : clock.anchorUtcUs + (b - clock.anchorUptimeUs) + later -
      (clock.anchorUtcUs + (a - clock.anchorUptimeUs) + sooner) - (b - a) = later - sooner := by
    ring
  rw [hrest]
  simp only [clockDisciplineCorrectionUs, clockDisciplineMaxErrorUs] at hshare hlimit
  omega

/-- The estimate at an uptime, starting with a clock and feeding it the observations. -/
def reading (clock : Clock) (os : List Observation) (m : ℤ) : ℤ :=
  ((acceptedUpTo (history clock os) m).getLast?.map (clockDisciplineUtcUs ·.clock m)).getD
    (clockDisciplineUtcUs clock m)

/-- Observations after `m` have no part in the estimate at `m`. -/
theorem acceptedUpTo_later {clock : Clock} {os : List Observation} {m : ℤ}
    (h : ∀ o ∈ os, m < o.uptimeUs) : acceptedUpTo (history clock os) m = [] := by
  induction os generalizing clock with
  | nil => rfl
  | cons o os ih =>
    have ho : ¬ (entry clock o).observation.uptimeUs ≤ m := not_le.mpr (h o (by simp))
    have hrest : acceptedUpTo (history (entry clock o).clock os) m = [] :=
      ih (fun p hp => h p (List.mem_cons_of_mem o hp))
    rw [history, acceptedUpTo, List.filter_cons_of_neg (by simp [ho])]
    exact hrest

theorem reading_later {clock : Clock} {os : List Observation} {m : ℤ}
    (h : ∀ o ∈ os, m < o.uptimeUs) : reading clock os m = clockDisciplineUtcUs clock m := by
  rw [reading, acceptedUpTo_later h]
  rfl

theorem acceptedUpTo_cons_accepted {e : Entry} {es : List Entry} {m : ℤ} (h : e.accepted = true)
    (hm : e.observation.uptimeUs ≤ m) : acceptedUpTo (e :: es) m = e :: acceptedUpTo es m := by
  simp [acceptedUpTo, h, hm]

theorem acceptedUpTo_cons_rejected {e : Entry} {es : List Entry} {m : ℤ}
    (h : e.accepted = false) : acceptedUpTo (e :: es) m = acceptedUpTo es m := by
  simp [acceptedUpTo, h]

/-- A rejected observation leaves the line in force. -/
theorem utcUs_entry_rejected {clock : Clock} {o : Observation}
    (h : (entry clock o).accepted = false) (m : ℤ) :
    clockDisciplineUtcUs (entry clock o).clock m = clockDisciplineUtcUs clock m := by
  have hobserved : Observed clock o.uptimeUs o.utcUs (entry clock o).clock (entry clock o).result :=
    observed clock o.uptimeUs o.utcUs
  generalize entry clock o = e at h hobserved
  obtain ⟨_, result, _, after⟩ := e
  cases hobserved with
  | rejected => rfl
  | anchored | corrected | stepped => simp [Entry.accepted] at h

theorem reading_cons {clock : Clock} {o : Observation} {os : List Observation} {m : ℤ}
    (h : o.uptimeUs ≤ m) :
    reading clock (o :: os) m = reading (entry clock o).clock os m := by
  simp only [reading, history]
  cases haccepted : (entry clock o).accepted with
  | true =>
    rw [acceptedUpTo_cons_accepted haccepted h, List.getLast?_cons]
    cases (acceptedUpTo (history (entry clock o).clock os) m).getLast? <;> rfl
  | false => rw [acceptedUpTo_cons_rejected haccepted, utcUs_entry_rejected haccepted]

theorem joins_cons_rejected {e : Entry} {es : List Entry} {u₁ u₂ : ℤ}
    (h : e.accepted = false) : joins (e :: es) u₁ u₂ = joins es u₁ u₂ := by
  rw [joins, acceptedUpTo_cons_rejected h, joins]

theorem joins_cons_early {e : Entry} {es : List Entry} {u₁ u₂ : ℤ}
    (h : e.observation.uptimeUs ≤ u₁) : joins (e :: es) u₁ u₂ = joins es u₁ u₂ := by
  cases haccepted : e.accepted with
  | false => exact joins_cons_rejected haccepted
  | true =>
    by_cases hm : e.observation.uptimeUs ≤ u₂
    · rw [joins, acceptedUpTo_cons_accepted haccepted hm, List.map_cons, List.toFinset_cons,
        Finset.filter_insert, if_neg (not_lt.mpr h), joins]
    · simp [joins, acceptedUpTo, hm]

/-- An accepted observation at a later uptime than all before adds a join. -/
theorem joins_cons_card {e : Entry} (es : List Entry) {u₁ u₂ : ℤ} (haccepted : e.accepted = true)
    (h : u₁ < e.observation.uptimeUs) (hm : e.observation.uptimeUs ≤ u₂) :
    (joins es e.observation.uptimeUs u₂).card + 1 ≤ (joins (e :: es) u₁ u₂).card := by
  have hnew : e.observation.uptimeUs ∉ joins es e.observation.uptimeUs u₂ := by
    simp [joins]
  rw [← Finset.card_insert_of_notMem hnew]
  apply Finset.card_le_card
  intro m hmem
  rw [joins, acceptedUpTo_cons_accepted haccepted hm, List.map_cons, List.toFinset_cons]
  rcases Finset.mem_insert.mp hmem with rfl | hrest
  · simp [h]
  · obtain ⟨hold, hlater⟩ := Finset.mem_filter.mp hrest
    exact Finset.mem_filter.mpr ⟨Finset.mem_insert_of_mem hold, h.trans hlater⟩

/-- The estimate from `x` to `u₂`: it does not run backwards and keeps the rate. -/
def Slews (clock : Clock) (os : List Observation) (x estimate u₂ : ℤ) : Prop :=
  estimate ≤ reading clock os u₂ ∧
    160 * |reading clock os u₂ - estimate - (u₂ - x)| ≤
      (u₂ - x) + 160 * ((joins (history clock os) x u₂).card + 1)

/-- No observation up to `u₂` reaches the line again. -/
theorem slews_line {clock : Clock} {os : List Observation} {x u₂ : ℤ} (hline : Line clock x)
    (hx : x ≤ u₂) (h : ∀ o ∈ os, u₂ < o.uptimeUs) :
    Slews clock os x (clockDisciplineUtcUs clock x) u₂ := by
  refine ⟨?_, ?_⟩
  · rw [reading_later h]
    exact utcUs_mono hline.correction (fun _ => hline.anchor) hx
  · have hslew := hline.slew hx
    rw [reading_later h]
    omega

theorem Sorted.later {o : Observation} {os : List Observation} (h : Sorted (o :: os)) {m : ℤ}
    (hm : m < o.uptimeUs) : ∀ p ∈ o :: os, m < p.uptimeUs := by
  intro p hp
  rcases List.mem_cons.mp hp with rfl | hp
  · exact hm
  · exact hm.trans_le (List.rel_of_pairwise_cons h hp)

/-- A correction continues the line before it: the rates add up, and it is one join more. -/
theorem slews_cons_corrected {clock : Clock} {o : Observation} {os : List Observation} {x u₂ : ℤ}
    (hline : Line clock x) (haccepted : (entry clock o).accepted = true) (hxo : x ≤ o.uptimeUs)
    (hle : o.uptimeUs ≤ u₂)
    (h : Slews (entry clock o).clock os o.uptimeUs (clockDisciplineUtcUs clock o.uptimeUs) u₂) :
    Slews clock (o :: os) x (clockDisciplineUtcUs clock x) u₂ := by
  obtain ⟨hmono, hslew⟩ := h
  have hup := utcUs_mono hline.correction (fun _ => hline.anchor) hxo
  unfold Slews
  rw [reading_cons hle, history]
  refine ⟨hup.trans hmono, ?_⟩
  rcases hxo.eq_or_lt with rfl | hlt
  · rw [joins_cons_early (e := entry clock o) (le_refl o.uptimeUs)]
    exact hslew
  · have hcard := joins_cons_card (history (entry clock o).clock os) haccepted hlt hle
    have hfirst := hline.slew hxo
    have hsplit := abs_add_le
      (reading (entry clock o).clock os u₂ - clockDisciplineUtcUs clock o.uptimeUs -
        (u₂ - o.uptimeUs))
      (clockDisciplineUtcUs clock o.uptimeUs - clockDisciplineUtcUs clock x - (o.uptimeUs - x))
    have hsum : reading (entry clock o).clock os u₂ - clockDisciplineUtcUs clock o.uptimeUs -
        (u₂ - o.uptimeUs) + (clockDisciplineUtcUs clock o.uptimeUs -
          clockDisciplineUtcUs clock x - (o.uptimeUs - x)) =
        reading (entry clock o).clock os u₂ - clockDisciplineUtcUs clock x - (u₂ - x) := by
      ring
    change (joins (history (entry clock o).clock os) o.uptimeUs u₂).card + 1 ≤ _ at hcard
    rw [hsum] at hsplit
    omega

/-- Across any number of corrections: each restarts the line where the estimate has got to. -/
theorem slews_from {u₂ : ℤ} (os : List Observation) {clock : Clock} {x : ℤ} (hline : Line clock x)
    (hx : x ≤ u₂) (hsorted : Sorted os) (hfrom : ∀ o ∈ os, x ≤ o.uptimeUs)
    (hno : ∀ e ∈ history clock os, e.observation.uptimeUs ≤ u₂ → ¬ Jumped e) :
    Slews clock os x (clockDisciplineUtcUs clock x) u₂ := by
  induction os generalizing clock x with
  | nil => exact slews_line hline hx (by simp)
  | cons o os ih =>
    by_cases ho : u₂ < o.uptimeUs
    · exact slews_line hline hx (hsorted.later ho)
    · have hle : o.uptimeUs ≤ u₂ := not_lt.mp ho
      have hxo : x ≤ o.uptimeUs := hfrom o (by simp)
      have hrest : Sorted os := hsorted.tail
      have hnow := hno (entry clock o) (by simp [history]) hle
      have hlater : ∀ e ∈ history (entry clock o).clock os,
          e.observation.uptimeUs ≤ u₂ → ¬ Jumped e :=
        fun e he => hno e (List.mem_cons_of_mem _ he)
      have hafter : ∀ p ∈ os, o.uptimeUs ≤ p.uptimeUs :=
        fun p hp => List.rel_of_pairwise_cons hsorted hp
      have hobserved : Observed clock o.uptimeUs o.utcUs (entry clock o).clock
          (entry clock o).result := observed clock o.uptimeUs o.utcUs
      generalize hclock : (entry clock o).clock = after at hlater hobserved
      generalize hresult : (entry clock o).result = result at hobserved
      cases hobserved with
      | anchored => exact absurd (Or.inl hresult) hnow
      | stepped => exact absurd (Or.inr hresult) hnow
      | rejected =>
        unfold Slews
        rw [reading_cons hle, history, hclock,
          joins_cons_rejected (by simp [Entry.accepted, hresult])]
        exact ih ⟨hline.synchronized, hline.correction, hline.anchor⟩ hx hrest
          (fun p hp => hxo.trans (hafter p hp)) hlater
      | corrected _ hnear hsync hanchor hutc hcorrection =>
        have hjoined : Line after o.uptimeUs :=
          ⟨hsync, hcorrection ▸ not_lt.mp hnear, hanchor.le⟩
        refine slews_cons_corrected hline (by simp [Entry.accepted, hresult]) hxo hle ?_
        rw [hclock, ← hutc, ← utcUs_at_anchor hsync hanchor]
        exact ih hjoined hle hrest hafter hlater

/-- A line is in force from its anchor on, whatever the observation did. -/
theorem line_entry {clock : Clock} {m : ℤ} (hline : Line clock m) {o : Observation}
    (ho : o.uptimeUs ≤ m) : Line (entry clock o).clock m := by
  have hobserved : Observed clock o.uptimeUs o.utcUs (entry clock o).clock (entry clock o).result :=
    observed clock o.uptimeUs o.utcUs
  generalize (entry clock o).clock = after at hobserved ⊢
  generalize (entry clock o).result = result at hobserved
  cases hobserved with
  | anchored | stepped => exact (line_jumpTo _ _).mono ho
  | rejected => exact ⟨hline.synchronized, hline.correction, hline.anchor⟩
  | corrected _ hnear hsync hanchor _ hcorrection =>
    exact ⟨hsync, hcorrection ▸ not_lt.mp hnear, hanchor.le.trans ho⟩

theorem mem_history_observation {clock : Clock} {os : List Observation} {e : Entry}
    (h : e ∈ history clock os) : e.observation ∈ os := by
  induction os generalizing clock with
  | nil => simp [history] at h
  | cons o os ih =>
    rcases List.mem_cons.mp h with rfl | hrest
    · exact List.mem_cons_self
    · exact List.mem_cons_of_mem o (ih hrest)

/-- From `u₁` on, after any observations up to `u₁`. -/
theorem slews {u₁ u₂ : ℤ} (hu : u₁ ≤ u₂) (os : List Observation) {clock : Clock}
    (hline : Line clock u₁) (hsorted : Sorted os)
    (hno : ∀ e ∈ history clock os, u₁ < e.observation.uptimeUs → e.observation.uptimeUs ≤ u₂ →
      ¬ Jumped e) :
    Slews clock os u₁ (reading clock os u₁) u₂ := by
  have hdone : ∀ {clock : Clock} {os : List Observation}, Line clock u₁ → Sorted os →
      (∀ o ∈ os, u₁ < o.uptimeUs) →
      (∀ e ∈ history clock os, u₁ < e.observation.uptimeUs → e.observation.uptimeUs ≤ u₂ →
        ¬ Jumped e) →
      Slews clock os u₁ (reading clock os u₁) u₂ := by
    intro clock os hline hsorted hlater hno
    rw [reading_later hlater]
    refine slews_from os hline hu hsorted (fun o ho => (hlater o ho).le) (fun e he hle => ?_)
    exact hno e he (hlater _ (mem_history_observation he)) hle
  induction os generalizing clock with
  | nil => exact hdone hline hsorted (by simp) hno
  | cons o os ih =>
    by_cases ho : u₁ < o.uptimeUs
    · exact hdone hline hsorted (hsorted.later ho) hno
    · have hle : o.uptimeUs ≤ u₁ := not_lt.mp ho
      have hrest : Slews (entry clock o).clock os u₁ (reading (entry clock o).clock os u₁) u₂ :=
        ih (line_entry hline hle) hsorted.tail (fun e he => hno e (List.mem_cons_of_mem _ he))
      unfold Slews at hrest ⊢
      rw [reading_cons hle, reading_cons (hle.trans hu), history, joins_cons_early hle]
      exact hrest

theorem utcUs_lineInForce {os : List Observation} {m : ℤ} {line : Clock}
    (h : lineInForce os m = some line) :
    clockDisciplineUtcUs line m = reading .initial os m := by
  obtain ⟨e, he, rfl⟩ := Option.map_eq_some_iff.mp h
  rw [reading, he]
  rfl

/-- Once a line is in force there always is one. -/
theorem lineInForce_later {os : List Observation} {u₁ u₂ : ℤ} (hu : u₁ ≤ u₂) {line : Clock}
    (h : lineInForce os u₁ = some line) : ∃ later, lineInForce os u₂ = some later := by
  obtain ⟨e, he, -⟩ := Option.map_eq_some_iff.mp h
  have hmem : e ∈ acceptedUpTo (history .initial os) u₂ := by
    obtain ⟨hin, hcond⟩ := List.mem_filter.mp (List.mem_of_getLast? he)
    rw [Bool.and_eq_true, decide_eq_true_eq] at hcond
    exact List.mem_filter.mpr ⟨hin, by simp [hcond.1, hcond.2.trans hu]⟩
  cases hlast : (acceptedUpTo (history .initial os) u₂).getLast? with
  | none => exact absurd (List.getLast?_eq_none_iff.mp hlast) (List.ne_nil_of_mem hmem)
  | some last => exact ⟨last.clock, by rw [lineInForce, hlast]; rfl⟩

/-- Between two uptimes with a line in force and no jump after the first the estimate follows
elapsed time within 1/160 and one microsecond for each line, and does not run backwards. -/
theorem slew_of_observations (os : List Observation) (hsorted : Sorted os) (u₁ u₂ : ℤ)
    (hu : u₁ ≤ u₂) (line₁ : Clock) (hline : lineInForce os u₁ = some line₁)
    (hno : ∀ e ∈ history .initial os, u₁ < e.observation.uptimeUs →
      e.observation.uptimeUs ≤ u₂ → ¬ Jumped e) :
    ∃ line₂, lineInForce os u₂ = some line₂ ∧
      (|(((clockDisciplineUtcUs line₂ u₂ - clockDisciplineUtcUs line₁ u₁) - (u₂ - u₁) : ℤ) : ℚ)| ≤
        ((u₂ - u₁ : ℤ) : ℚ) / 160 + segmentsTouched os u₁ u₂) ∧
      clockDisciplineUtcUs line₁ u₁ ≤ clockDisciplineUtcUs line₂ u₂ := by
  obtain ⟨line₂, hline₂⟩ := lineInForce_later hu hline
  refine ⟨line₂, hline₂, ?_⟩
  rw [utcUs_lineInForce hline, utcUs_lineInForce hline₂]
  cases os with
  | nil => simp [lineInForce, acceptedUpTo, history] at hline
  | cons o os =>
    have ho : o.uptimeUs ≤ u₁ := by
      by_contra hlater
      have hnone : acceptedUpTo (history .initial (o :: os)) u₁ = [] :=
        acceptedUpTo_later (hsorted.later (not_le.mp hlater))
      simp [lineInForce, hnone] at hline
    -- the first observation anchors the clock
    have hanchored : Line (entry .initial o).clock u₁ := (line_jumpTo _ _).mono ho
    obtain ⟨hmono, hslew⟩ := slews hu os hanchored hsorted.tail
      (fun e he => hno e (List.mem_cons_of_mem _ he))
    rw [reading_cons ho, reading_cons (ho.trans hu), segmentsTouched, history, joins_cons_early ho]
    refine ⟨?_, hmono⟩
    have hslew' : (160 : ℚ) * |((reading (entry .initial o).clock os u₂ -
        reading (entry .initial o).clock os u₁ - (u₂ - u₁) : ℤ) : ℚ)| ≤
        ((u₂ - u₁ : ℤ) : ℚ) +
          160 * ((joins (history (entry .initial o).clock os) u₁ u₂).card + 1) := by
      exact_mod_cast hslew
    push_cast at hslew' ⊢
    linarith

/-- The second correction arrives while the first is unfinished. -/
theorem slew_two_corrections :
    let os : List Observation := [⟨0, 0⟩, ⟨1000000, 1100000⟩, ⟨2000000, 1950000⟩]
    let line₁ := jumpTo 0 0
    ∃ line₂, lineInForce os 3000000 = some line₂ ∧
      (|(((clockDisciplineUtcUs line₂ 3000000 - clockDisciplineUtcUs line₁ 500000) -
          (3000000 - 500000) : ℤ) : ℚ)| ≤
        ((3000000 - 500000 : ℤ) : ℚ) / 160 + segmentsTouched os 500000 3000000) ∧
      clockDisciplineUtcUs line₁ 500000 ≤ clockDisciplineUtcUs line₂ 3000000 :=
  slew_of_observations [⟨0, 0⟩, ⟨1000000, 1100000⟩, ⟨2000000, 1950000⟩] (by decide) 500000 3000000
    (by decide) (jumpTo 0 0) (by decide) (by decide)

end BajaDaq.SlewBound
