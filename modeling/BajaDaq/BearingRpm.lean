import BajaDaq.BearingEncoder
import BajaDaq.HalfAwayRounding
import BajaDaq.RingWindows

/-!
# The speed of the bearing over the last reads

The windows hold the counts and the times between the last five reads, so their sums are the net
count and the time since the fifth read before, or since the start. The interrupts that make a
count come at different microseconds, which keeps a speed far inside an `int32_t`.
-/

namespace BajaDaq.BearingRpm
open BearingEncoder HalfAwayRounding RingWindows TransitionRuns

/-- The net count of the single-bit transitions, from the state before. -/
def net : AbState → List Action → ℤ
  | _, [] => 0
  | a, .interrupt _ b :: rest => turn a b + net b rest
  | a, .read .. :: rest => net a rest

def stateAfter : AbState → List Action → AbState
  | a, [] => a
  | _, .interrupt _ b :: rest => stateAfter b rest
  | a, .read .. :: rest => stateAfter a rest

/-- The time of the last single-bit transition. -/
def lastTurnUs : AbState → List Action → Option ℤ
  | _, [] => none
  | a, .interrupt nowUs b :: rest =>
    (lastTurnUs b rest).or (if SingleBit a b then some nowUs else none)
  | a, .read .. :: rest => lastTurnUs a rest

/-- The time of the last read, or of the start. -/
def lastReadUs : ℤ → List Action → ℤ
  | t, [] => t
  | t, .interrupt .. :: rest => lastReadUs t rest
  | _, .read nowUs _ _ :: rest => lastReadUs nowUs rest

/-- What the reads take over. -/
def counts (labels : List Action) : List ℤ :=
  labels.filterMap fun
    | .interrupt .. => none
    | .read _ count _ => some count

/-- The times from each read back to the one before, or to the start. -/
def gaps : ℤ → List Action → List ℤ
  | _, [] => []
  | t, .interrupt .. :: rest => gaps t rest
  | t, .read nowUs _ _ :: rest => (nowUs - t) :: gaps nowUs rest

def interruptStates (labels : List Action) : List AbState :=
  labels.filterMap fun
    | .interrupt _ b => some b
    | .read .. => none

theorem net_append (a : AbState) (xs ys : List Action) :
    net a (xs ++ ys) = net a xs + net (stateAfter a xs) ys := by
  induction xs generalizing a with
  | nil => simp [net, stateAfter]
  | cons x xs ih =>
    cases x with
    | interrupt nowUs b => simp [net, stateAfter, ih, add_assoc]
    | read => exact ih a

theorem stateAfter_append (a : AbState) (xs ys : List Action) :
    stateAfter a (xs ++ ys) = stateAfter (stateAfter a xs) ys := by
  induction xs generalizing a with
  | nil => rfl
  | cons x xs ih =>
    cases x with
    | interrupt nowUs b => exact ih b
    | read => exact ih a

theorem lastTurnUs_append (a : AbState) (xs ys : List Action) :
    lastTurnUs a (xs ++ ys) = (lastTurnUs (stateAfter a xs) ys).or (lastTurnUs a xs) := by
  induction xs generalizing a with
  | nil => simp [lastTurnUs, stateAfter]
  | cons x xs ih =>
    cases x with
    | interrupt nowUs b => simp [lastTurnUs, stateAfter, ih, Option.or_assoc]
    | read => exact ih a

theorem lastReadUs_append (t : ℤ) (xs ys : List Action) :
    lastReadUs t (xs ++ ys) = lastReadUs (lastReadUs t xs) ys := by
  induction xs generalizing t with
  | nil => rfl
  | cons x xs ih => cases x <;> exact ih _

theorem gaps_append (t : ℤ) (xs ys : List Action) :
    gaps t (xs ++ ys) = gaps t xs ++ gaps (lastReadUs t xs) ys := by
  induction xs generalizing t with
  | nil => rfl
  | cons x xs ih =>
    cases x with
    | interrupt => exact ih t
    | read nowUs => exact congrArg (List.cons (nowUs - t)) (ih nowUs)

@[simp] theorem length_gaps (t : ℤ) (xs : List Action) :
    (gaps t xs).length = (counts xs).length := by
  induction xs generalizing t with
  | nil => rfl
  | cons x xs ih =>
    cases x with
    | interrupt => exact ih t
    | read nowUs => simp [gaps, counts] at ih ⊢; exact ih nowUs

/-- The gaps add up to the time between the first and the last. -/
theorem sum_gaps (t : ℤ) (xs : List Action) : (gaps t xs).sum = lastReadUs t xs - t := by
  induction xs generalizing t with
  | nil => simp [gaps, lastReadUs]
  | cons x xs ih =>
    cases x with
    | interrupt => exact ih t
    | read nowUs => simp [gaps, lastReadUs, ih]

theorem emod_four (p : ℤ) : p % 4 = 0 ∨ p % 4 = 1 ∨ p % 4 = 2 ∨ p % 4 = 3 := by omega

theorem grayState_add (p d : ℤ) : grayState (p + d) = grayState (p % 4 + d) := by
  simp only [grayState, Int.emod_add_emod]

/-- The state after a step along the cycle, and the sign of the step. -/
theorem turn_grayState (p q : ℤ) (h : |q - p| = 1) : turn (grayState p) (grayState q) = q - p := by
  have hzero := grayState_add p 0
  rw [add_zero, add_zero] at hzero
  rcases (abs_eq (by decide : (0 : ℤ) ≤ 1)).mp h with h | h
  · obtain rfl : q = p + 1 := by omega
    rw [h, hzero, grayState_add]
    rcases emod_four p with hp | hp | hp | hp <;> rw [hp] <;> decide
  · obtain rfl : q = p + -1 := by omega
    rw [h, hzero, grayState_add]
    rcases emod_four p with hp | hp | hp | hp <;> rw [hp] <;> decide

/-- A single-bit change is a step along the cycle. -/
theorem exists_step (p : ℤ) {b : AbState} (h : SingleBit (grayState p) b) :
    ∃ q, |q - p| = 1 ∧ grayState q = b := by
  have hstep : ∀ r ∈ [(0 : ℤ), 1, 2, 3], ∀ b, SingleBit (grayState r) b →
      |turn (grayState r) b| = 1 ∧ grayState (r + turn (grayState r) b) = b := by
    decide
  have hzero := grayState_add p 0
  rw [add_zero, add_zero] at hzero
  have hr : p % 4 ∈ [(0 : ℤ), 1, 2, 3] := by simpa using emod_four p
  rw [hzero] at h
  obtain ⟨habs, hstate⟩ := hstep (p % 4) hr b h
  exact ⟨p + turn (grayState (p % 4)) b, by rwa [add_sub_cancel_left], by rwa [grayState_add]⟩

/-- Over a path of single steps the net count is the displacement. -/
theorem net_of_path (tail : List Action) (p : ℤ) (ps : List ℤ)
    (hchain : (p :: ps).IsChain (fun x y => |y - x| = 1))
    (hstates : ps.map grayState = interruptStates tail) :
    net (grayState p) tail = ps.getLast?.getD p - p := by
  induction tail generalizing p ps with
  | nil =>
    obtain rfl : ps = [] := by simpa [interruptStates] using hstates
    simp [net]
  | cons x tail ih =>
    cases x with
    | read => exact ih p ps hchain hstates
    | interrupt nowUs b =>
      cases ps with
      | nil => simp [interruptStates] at hstates
      | cons q qs =>
        obtain ⟨hb, htail⟩ := List.cons_eq_cons.mp hstates
        obtain ⟨hstep, hrest⟩ := List.isChain_cons_cons.mp hchain
        have hturn : turn (grayState p) b = q - p := by
          rw [← hb]
          exact turn_grayState p q hstep
        rw [net, hturn, ← hb, ih q qs hrest htail, List.getLast?_cons]
        cases qs.getLast? <;> simp

/-- Single-bit changes follow such a path. -/
theorem exists_path (states : List AbState) (p : ℤ)
    (h : (grayState p :: states).IsChain SingleBit) :
    ∃ ps : List ℤ, (p :: ps).IsChain (fun x y => |y - x| = 1) ∧ ps.map grayState = states := by
  induction states generalizing p with
  | nil => exact ⟨[], .singleton p, rfl⟩
  | cons b states ih =>
    obtain ⟨hb, hrest⟩ := List.isChain_cons_cons.mp h
    obtain ⟨q, hstep, rfl⟩ := exists_step p hb
    obtain ⟨ps, hchain, hmap⟩ := ih q hrest
    exact ⟨q :: ps, List.isChain_cons_cons.mpr ⟨hstep, hchain⟩, by rw [List.map_cons, hmap]⟩

/-- Rounded to nearest with halves away from zero, and clamped to an `int32_t`. -/
def spanRpm (count elapsedUs : ℤ) : ℤ :=
  max int32Min (min (roundAway (((60000000 * count : ℤ) : ℚ) / ((128 * elapsedUs : ℤ) : ℚ)))
    int32Max)

theorem calculateRpm_eq {count elapsedUs : ℤ} (he : 0 < elapsedUs) :
    calculateRpm count elapsedUs = spanRpm count elapsedUs := by
  have hden : encoderCountsPerRevolution * elapsedUs = 128 * elapsedUs := rfl
  have hpos : 0 < 128 * elapsedUs := by omega
  have heven : (2 : ℤ) ∣ 128 * elapsedUs := by omega
  have hhalf : (128 * elapsedUs).tdiv 2 = 128 * elapsedUs / 2 :=
    Int.tdiv_eq_ediv_of_nonneg hpos.le
  have hclamp : ∀ x : ℤ, (if int32Max < x then int32Max else if x < int32Min then int32Min else x) =
      max int32Min (min x int32Max) := by
    intro x
    have hle : int32Min ≤ int32Max := by decide
    omega
  rcases lt_trichotomy count 0 with hneg | rfl | hplus
  · rw [calculateRpm, if_neg (by omega)]
    simp only [hden, hhalf]
    rw [if_neg (by omega : ¬ 0 < count * 60000000), hclamp, mul_comm count,
      sub_half_tdiv (by omega) hpos heven]
    rfl
  · rw [calculateRpm, if_pos (Or.inr rfl)]
    simp [spanRpm, roundAway, int32Min, int32Max]
  · rw [calculateRpm, if_neg (by omega)]
    simp only [hden, hhalf]
    rw [if_pos (by omega : 0 < count * 60000000), hclamp, mul_comm count,
      add_half_tdiv (by omega) hpos heven]
    rfl

/-- Less than one count each microsecond keeps the speed inside an `int32_t`. -/
theorem spanRpm_eq {count elapsedUs : ℤ} (he : 0 < elapsedUs) (h : |count| ≤ elapsedUs) :
    spanRpm count elapsedUs =
      roundAway (((60000000 * count : ℤ) : ℚ) / ((128 * elapsedUs : ℤ) : ℚ)) := by
  have he' : (0 : ℚ) < elapsedUs := by exact_mod_cast he
  have hcount : |(count : ℚ)| ≤ elapsedUs := by exact_mod_cast h
  have hsmall : |((60000000 * count : ℤ) : ℚ) / ((128 * elapsedUs : ℤ) : ℚ)| ≤ (468750 : ℤ) := by
    push_cast
    rw [abs_div, abs_mul, abs_of_pos (by positivity : (0 : ℚ) < 128 * elapsedUs),
      div_le_iff₀ (by positivity)]
    norm_num
    linarith
  have hbound := abs_le.mp (abs_roundAway_le hsmall)
  have hmin : int32Min = -2147483648 := rfl
  have hmax : int32Max = 2147483647 := rfl
  rw [spanRpm, hmin, hmax]
  omega

/-- The context against the labels since the start. -/
structure Tracked (a₀ : AbState) (startUs : ℤ) (labels : List Action) (s : Encoder) : Prop where
  state : s.context.lastState = stateAfter a₀ labels
  pending : (counts labels).sum + s.context.pendingCount = net a₀ labels
  edge : s.context.lastValidEdgeUs = (lastTurnUs a₀ labels).getD 0
  edgeTime : ∀ t, lastTurnUs a₀ labels = some t → 0 < t ∧ t ≤ s.timeUs
  countWindow : HoldsLast encoderWindowSamples s.context.countWindow (counts labels)
  timeWindow : HoldsLast encoderWindowSamples s.context.timeWindowUs (gaps startUs labels)
  index : s.context.windowIndex = (counts labels).length % encoderWindowSamples
  size : s.context.windowSize = min (counts labels).length encoderWindowSamples
  read : s.context.lastReadUs = lastReadUs startUs labels
  readTime : 0 ≤ s.context.lastReadUs ∧ s.context.lastReadUs ≤ s.timeUs
  slow : |s.context.pendingCount| ≤ s.timeUs - s.context.lastReadUs
  slowCounts : List.Forall₂ (fun count gap => |count| ≤ gap) (counts labels) (gaps startUs labels)

theorem tracked_start (context : EncoderContext) (startUs : ℕ) :
    Tracked context.lastState startUs [] (.start context startUs) where
  state := rfl
  pending := rfl
  edge := rfl
  edgeTime := by simp [lastTurnUs]
  countWindow := holdsLast_nil (List.length_replicate ..)
  timeWindow := holdsLast_nil (List.length_replicate ..)
  index := rfl
  size := rfl
  read := rfl
  readTime := ⟨Int.natCast_nonneg startUs, le_refl _⟩
  slow := by simp [Encoder.start, startEncoder]
  slowCounts := .nil

section Steps
variable {a₀ : AbState} {startUs : ℤ} {labels : List Action} {s : Encoder}

/-- An interrupt adds its turn to the pending count and notes the time of a single-bit change. -/
theorem encoderIsr_eq (context : EncoderContext) (nowUs : ℤ) (state : AbState) :
    encoderIsr context nowUs state = { context with
      pendingCount := context.pendingCount + turn context.lastState state
      lastValidEdgeUs := if SingleBit context.lastState state then nowUs
        else context.lastValidEdgeUs
      lastState := state } := by
  rw [encoderIsr, encoderTransition_eq_turn]
  by_cases h : SingleBit context.lastState state
  · have hturn := (turn_ne_zero_iff _ _).mpr h
    simp [h, hturn]
  · have hturn : turn context.lastState state = 0 := not_not.mp (mt (turn_ne_zero_iff _ _).mp h)
    simp [h, hturn]

theorem tracked_interrupt (h : Tracked a₀ startUs labels s) {nowUs : ℤ} (state : AbState)
    (htime : s.timeUs < nowUs) :
    Tracked a₀ startUs (labels ++ [.interrupt nowUs state])
      ⟨encoderIsr s.context nowUs state, nowUs⟩ := by
  rw [encoderIsr_eq]
  have hcounts : counts (labels ++ [.interrupt nowUs state]) = counts labels := by simp [counts]
  have hgaps : gaps startUs (labels ++ [.interrupt nowUs state]) = gaps startUs labels := by
    rw [gaps_append, gaps, gaps, List.append_nil]
  have hreadTime := h.readTime
  have hturn := abs_turn_le s.context.lastState state
  have hslow := h.slow
  have hedge : lastTurnUs a₀ (labels ++ [.interrupt nowUs state]) =
      (if SingleBit s.context.lastState state then some nowUs else none).or
        (lastTurnUs a₀ labels) := by
    rw [lastTurnUs_append, ← h.state, lastTurnUs, lastTurnUs, Option.none_or]
  constructor
  · rw [stateAfter_append, stateAfter, stateAfter]
  · rw [hcounts, net_append, net, net, ← h.state, ← h.pending]
    dsimp only
    omega
  · rw [hedge]
    dsimp only
    split_ifs
    · rfl
    · exact h.edge
  · intro t ht
    rw [hedge] at ht
    split_ifs at ht
    · obtain rfl : nowUs = t := by simpa using ht
      exact ⟨by omega, le_refl nowUs⟩
    · obtain ⟨hpos, hle⟩ := h.edgeTime t (by simpa using ht)
      exact ⟨hpos, hle.trans htime.le⟩
  · rw [hcounts]
    exact h.countWindow
  · rw [hgaps]
    exact h.timeWindow
  · rw [hcounts]
    exact h.index
  · rw [hcounts]
    exact h.size
  · rw [lastReadUs_append]
    exact h.read
  · exact ⟨hreadTime.1, hreadTime.2.trans htime.le⟩
  · have hsum := abs_add_le s.context.pendingCount (turn s.context.lastState state)
    dsimp only
    omega
  · rw [hcounts, hgaps]
    exact h.slowCounts

theorem readRpm_eq (h : Tracked a₀ startUs labels s) {nowUs : ℤ} (htime : s.timeUs < nowUs) :
    readRpm s.context nowUs = (advanceWindows s.context nowUs, s.context.pendingCount,
      windowRpm (advanceWindows s.context nowUs) nowUs) := by
  have hreadTime := h.readTime
  rw [readRpm, if_neg (by omega)]

theorem tracked_read (h : Tracked a₀ startUs labels s) {nowUs : ℤ} (value : ℤ)
    (htime : s.timeUs < nowUs) :
    Tracked a₀ startUs (labels ++ [.read nowUs s.context.pendingCount value])
      ⟨advanceWindows s.context nowUs, nowUs⟩ := by
  have hcounts : counts (labels ++ [.read nowUs s.context.pendingCount value]) =
      counts labels ++ [s.context.pendingCount] := by simp [counts]
  have hgaps : gaps startUs (labels ++ [.read nowUs s.context.pendingCount value]) =
      gaps startUs labels ++ [nowUs - s.context.lastReadUs] := by
    rw [gaps_append, gaps, gaps, h.read]
  have hedge : lastTurnUs a₀ (labels ++ [.read nowUs s.context.pendingCount value]) =
      lastTurnUs a₀ labels := by
    rw [lastTurnUs_append, lastTurnUs, lastTurnUs, Option.none_or]
  have hwindow : 0 < encoderWindowSamples := by decide
  have hreadTime := h.readTime
  have hsize := h.size
  constructor
  · rw [stateAfter_append]
    exact h.state
  · rw [hcounts, List.sum_append, List.sum_singleton, net_append, net, net, h.pending]
    rfl
  · rw [hedge]
    exact h.edge
  · intro t ht
    rw [hedge] at ht
    obtain ⟨hpos, hle⟩ := h.edgeTime t ht
    exact ⟨hpos, hle.trans htime.le⟩
  · rw [hcounts]
    have hwrite := h.countWindow.write hwindow s.context.pendingCount
    rwa [← h.index] at hwrite
  · rw [hgaps]
    have hwrite := h.timeWindow.write hwindow (nowUs - s.context.lastReadUs)
    rwa [length_gaps, ← h.index] at hwrite
  · rw [hcounts, List.length_append, List.length_singleton]
    dsimp only [advanceWindows]
    rw [h.index, Nat.mod_add_mod]
  · rw [hcounts, List.length_append, List.length_singleton]
    dsimp only [advanceWindows]
    split_ifs <;> omega
  · rw [lastReadUs_append]
    rfl
  · exact ⟨by dsimp only [advanceWindows]; omega, le_refl nowUs⟩
  · simp [advanceWindows]
  · rw [hcounts, hgaps]
    have hslow := h.slow
    exact List.rel_append h.slowCounts (.cons (by omega) .nil)

theorem tracked_step {t : Encoder} {a : Action} (h : Tracked a₀ startUs labels s)
    (hs : step s a = some t) : Tracked a₀ startUs (labels ++ [a]) t := by
  cases a with
  | interrupt nowUs state =>
    simp only [step, Option.ite_none_right_eq_some, Option.some_inj] at hs
    obtain ⟨⟨htime, -⟩, rfl⟩ := hs
    exact tracked_interrupt h state htime
  | read nowUs count value =>
    simp only [step, Option.ite_none_right_eq_some, Option.some_inj] at hs
    obtain ⟨⟨⟨htime, -⟩, hcount, -⟩, rfl⟩ := hs
    rw [readRpm_eq h htime] at hcount ⊢
    rw [hcount]
    exact tracked_read h value htime

end Steps

theorem tracked_of_run {C : Encoder → Action → Prop} {context : EncoderContext} {startUs : ℕ}
    {labels : List Action} {s : Encoder} (h : Run step C (.start context startUs) labels s) :
    Tracked context.lastState startUs labels s := by
  induction h with
  | nil => exact tracked_start context startUs
  | snoc _ _ hs ih => exact tracked_step ih hs

/-- No single-bit transition has been seen, or the last one is at least 100 ms old. -/
def StandsStill (a₀ : AbState) (before : List Action) (nowUs : ℤ) : Prop :=
  ∀ t ∈ lastTurnUs a₀ before, 100000 ≤ nowUs - t

instance (a₀ : AbState) (before : List Action) (nowUs : ℤ) :
    Decidable (StandsStill a₀ before nowUs) :=
  inferInstanceAs (Decidable (∀ t ∈ lastTurnUs a₀ before, _))

/-- Before a read, `tail` is what follows the fifth read before it, or everything if there are
fewer. -/
def IsSpan (head tail : List Action) : Prop :=
  (head = [] ∧ (counts tail).length < 5) ∨
    ((counts tail).length = 4 ∧ ∃ h t count value, head = h ++ [.read t count value])

section Value
variable {C : Encoder → Action → Prop} {context : EncoderContext} {startUs : ℕ}
  {labels head tail after : List Action} {s : Encoder} {nowUs count value : ℤ}

theorem timeUs_le {s t : Encoder} (h : Run step C s labels t) : s.timeUs ≤ t.timeUs := by
  induction h with
  | nil => exact le_refl _
  | @snoc t u labels a _ _ hs ih =>
    cases a with
    | interrupt nowUs state =>
      simp only [step, Option.ite_none_right_eq_some, Option.some_inj] at hs
      obtain ⟨⟨htime, -⟩, rfl⟩ := hs
      exact ih.trans htime.le
    | read nowUs count value =>
      simp only [step, Option.ite_none_right_eq_some, Option.some_inj] at hs
      obtain ⟨⟨⟨htime, -⟩, -⟩, rfl⟩ := hs
      exact ih.trans htime.le

/-- A read takes over the whole pending count. -/
theorem read_step {t : Encoder} {a₀ : AbState} {fromUs : ℤ} (h : Tracked a₀ fromUs labels s)
    (hs : step s (.read nowUs count value) = some t) :
    (s.timeUs < nowUs ∧ nowUs < uptimeLimitUs) ∧ count = s.context.pendingCount ∧
      value = windowRpm (advanceWindows s.context nowUs) nowUs ∧
      t = ⟨advanceWindows s.context nowUs, nowUs⟩ := by
  simp only [step, Option.ite_none_right_eq_some, Option.some_inj] at hs
  obtain ⟨⟨htime, hcount, hvalue⟩, rfl⟩ := hs
  rw [readRpm_eq h htime.1] at hcount hvalue ⊢
  exact ⟨htime, hcount, hvalue, rfl⟩

/-- At the start of a span all counts have been taken over. -/
theorem pending_of_span (hspan : IsSpan head tail)
    (h : Run step C (.start context startUs) head s) : s.context.pendingCount = 0 := by
  rcases hspan with ⟨rfl, -⟩ | ⟨-, front, t, count, value, rfl⟩
  · have htracked := (tracked_of_run h).pending
    simpa [counts, net] using htracked
  · obtain ⟨u, hrun, -, hs⟩ := h.last
    obtain ⟨-, -, -, rfl⟩ := read_step (tracked_of_run hrun) hs
    rfl

theorem encoderIsStopped_iff {a₀ : AbState} (h : Tracked a₀ startUs labels s) (nowUs : ℤ) :
    encoderIsStopped s.context.lastValidEdgeUs nowUs = true ↔ StandsStill a₀ labels nowUs := by
  have hedge := h.edge
  cases hlast : lastTurnUs a₀ labels with
  | none =>
    rw [hlast, Option.getD_none] at hedge
    simp [encoderIsStopped, StandsStill, hedge, hlast]
  | some t =>
    have hpos := (h.edgeTime t hlast).1
    rw [hlast, Option.getD_some] at hedge
    simp [encoderIsStopped, StandsStill, hedge, hlast, encoderStopTimeoutUs]
    omega

/-- The last five entries of a list that is appended to in spans. -/
theorem drop_span {α : Type} {xs ys : List α} {n : ℕ} (hys : ys.length = n + 1)
    (h : (xs = [] ∧ n < 5) ∨ n = 4) :
    (xs ++ ys).drop ((xs ++ ys).length - encoderWindowSamples) = ys := by
  have hwindow : encoderWindowSamples = 5 := rfl
  rcases h with ⟨rfl, hn⟩ | rfl
  · rw [List.nil_append, hwindow, hys, Nat.sub_eq_zero_of_le (by omega), List.drop_zero]
  · have hlength : (xs ++ ys).length - encoderWindowSamples = xs.length := by
      rw [List.length_append, hys, hwindow]
      omega
    rw [hlength, List.drop_left]

theorem counts_of_span (hspan : IsSpan head tail) :
    (counts head = [] ∧ (counts tail).length < 5) ∨ (counts tail).length = 4 := by
  rcases hspan with ⟨rfl, hfew⟩ | ⟨hfour, -⟩
  · exact Or.inl ⟨rfl, hfew⟩
  · exact Or.inr hfour

/-- After the read at the end of a span the windows hold the counts of the span. -/
theorem sum_countWindow_of_span {a₀ : AbState} {fromUs : ℤ} (hspan : IsSpan head tail)
    (h : Tracked a₀ fromUs (head ++ tail ++ [.read nowUs count value]) s) :
    (s.context.countWindow.take s.context.windowSize).sum = (counts tail).sum + count := by
  have hsum := h.countWindow.sum_take
  have hcounts : counts (head ++ tail ++ [.read nowUs count value]) =
      counts head ++ (counts tail ++ [count]) := by
    simp [counts]
  rw [← h.size, hcounts, drop_span (by simp) (counts_of_span hspan), List.sum_append,
    List.sum_singleton] at hsum
  exact hsum

/-- And the times add up to the time of the span. -/
theorem sum_timeWindow_of_span {a₀ : AbState} {fromUs : ℤ} (hspan : IsSpan head tail)
    (h : Tracked a₀ fromUs (head ++ tail ++ [.read nowUs count value]) s) :
    (s.context.timeWindowUs.take s.context.windowSize).sum = nowUs - lastReadUs fromUs head := by
  have hsum := h.timeWindow.sum_take
  have hgaps : gaps fromUs (head ++ tail ++ [.read nowUs count value]) =
      gaps fromUs head ++ gaps (lastReadUs fromUs head) (tail ++ [.read nowUs count value]) := by
    rw [List.append_assoc, gaps_append]
  have hcases : (gaps fromUs head = [] ∧ (counts tail).length < 5) ∨
      (counts tail).length = 4 := by
    rcases counts_of_span hspan with ⟨hnil, hfew⟩ | hfour
    · refine Or.inl ⟨List.length_eq_zero_iff.mp ?_, hfew⟩
      rw [length_gaps, hnil, List.length_nil]
    · exact Or.inr hfour
  rw [length_gaps, ← h.size, ← length_gaps fromUs, hgaps,
    drop_span (by simp [counts]) hcases, sum_gaps, lastReadUs_append] at hsum
  exact hsum

/-- The value of every read. -/
theorem read_of_run (h : Run step C (.start context startUs)
      (head ++ tail ++ .read nowUs count value :: after) s) (hspan : IsSpan head tail) :
    value = if StandsStill context.lastState (head ++ tail) nowUs then 0
      else spanRpm (net (stateAfter context.lastState head) tail)
        (nowUs - lastReadUs startUs head) := by
  obtain ⟨u, u', hbefore, hc, hs, -⟩ := h.at_step
  obtain ⟨v, hhead, htail⟩ := hbefore.split
  have hu := tracked_of_run hbefore
  have hv := tracked_of_run hhead
  have hnext := tracked_of_run (hbefore.snoc hc hs)
  obtain ⟨⟨htime, -⟩, rfl, hvalue, rfl⟩ := read_step hu hs
  -- the counts of the window are those of the span
  have hcount : ((advanceWindows u.context nowUs).countWindow.take
      (advanceWindows u.context nowUs).windowSize).sum =
      net (stateAfter context.lastState head) tail := by
    have hpending := hu.pending
    have hzero := hv.pending
    rw [pending_of_span hspan hhead, add_zero] at hzero
    rw [net_append, counts, List.filterMap_append, List.sum_append] at hpending
    refine (sum_countWindow_of_span hspan hnext).trans ?_
    simp only [counts] at hpending hzero ⊢
    omega
  have helapsed : ((advanceWindows u.context nowUs).timeWindowUs.take
      (advanceWindows u.context nowUs).windowSize).sum = nowUs - lastReadUs startUs head :=
    sum_timeWindow_of_span hspan hnext
  have hpositive : 0 < nowUs - lastReadUs startUs head := by
    have hread := hv.read
    have hle := hv.readTime.2.trans (timeUs_le htail)
    omega
  rw [hvalue, windowRpm, hcount, helapsed, calculateRpm_eq hpositive]
  have hstopped := encoderIsStopped_iff hu nowUs
  have hedge : (advanceWindows u.context nowUs).lastValidEdgeUs = u.context.lastValidEdgeUs := rfl
  rw [hedge]
  by_cases hstill : StandsStill context.lastState (head ++ tail) nowUs
  · rw [if_pos (hstopped.mpr hstill), if_pos hstill]
  · rw [if_neg (fun hc => hstill (hstopped.mp hc)), if_neg hstill]

end Value

/-- Everything counted fits an `int32_t`. -/
structure CountsFit (labels : List Action) (s : Encoder) : Prop where
  pending : |s.context.pendingCount| ≤ 2 ^ 31
  counts : ∀ count ∈ counts labels, |count| ≤ 2 ^ 31

theorem countsFit_read {labels : List Action} {s : Encoder} (h : CountsFit labels s)
    (nowUs value : ℤ) : CountsFit (labels ++ [.read nowUs s.context.pendingCount value])
      ⟨advanceWindows s.context nowUs, nowUs⟩ := by
  refine ⟨by simp [advanceWindows], ?_⟩
  intro count hcount
  have hcase : count ∈ counts labels ∨ count = s.context.pendingCount := by
    simpa [counts] using hcount
  rcases hcase with hold | rfl
  · exact h.counts count hold
  · exact h.pending

theorem countsFit_of_run {context : EncoderContext} {startUs : ℕ} {labels : List Action}
    {s : Encoder} (h : Run step PendingFits (.start context startUs) labels s) :
    CountsFit labels s := by
  induction h with
  | nil => exact ⟨by simp [Encoder.start, startEncoder], by simp [counts]⟩
  | @snoc t u labels a hrun hc hs ih =>
    cases a with
    | interrupt nowUs state =>
      simp only [step, Option.ite_none_right_eq_some, Option.some_inj] at hs
      obtain ⟨-, rfl⟩ := hs
      refine ⟨?_, by simpa [counts] using ih.counts⟩
      obtain ⟨hlow, hhigh⟩ := hc
      rw [encoderTransition_eq_turn, int32Min] at hlow
      rw [encoderTransition_eq_turn, int32Max] at hhigh
      rw [encoderIsr_eq, abs_le]
      dsimp only
      omega
    | read nowUs count value =>
      obtain ⟨-, rfl, -, rfl⟩ := read_step (tracked_of_run hrun) hs
      exact countsFit_read ih nowUs value

theorem abs_sum_le {xs : List ℤ} {b : ℤ} (h : ∀ x ∈ xs, |x| ≤ b) : |xs.sum| ≤ xs.length * b := by
  induction xs with
  | nil => simp
  | cons x xs ih =>
    have hx := h x List.mem_cons_self
    have hxs := ih (fun y hy => h y (List.mem_cons_of_mem x hy))
    have hsum := abs_add_le x xs.sum
    rw [List.sum_cons, List.length_cons]
    push_cast
    linarith

/-- Counts bounded by the gaps they fall in have a sum bounded by the sum of the gaps. -/
theorem abs_sum_le_sum {cs gs : List ℤ} (h : List.Forall₂ (fun count gap => |count| ≤ gap) cs gs) :
    |cs.sum| ≤ gs.sum := by
  induction h with
  | nil => simp
  | @cons c g cs gs hle _ ih =>
    have hsum := abs_add_le c cs.sum
    rw [List.sum_cons, List.sum_cons]
    linarith

theorem nonneg_of_forall₂ {cs gs : List ℤ}
    (h : List.Forall₂ (fun count gap => |count| ≤ gap) cs gs) : ∀ g ∈ gs, 0 ≤ g := by
  induction h with
  | nil => simp
  | @cons c g cs gs hle _ ih =>
    intro x hx
    rcases List.mem_cons.mp hx with rfl | hx
    · exact (abs_nonneg c).trans hle
    · exact ih x hx

section Windows
variable {a₀ : AbState} {startUs : ℤ} {labels : List Action} {s : Encoder}

/-- The partial sums of the loop over the counts. -/
theorem sum_countWindow (h : Tracked a₀ startUs labels s) (hfits : CountsFit labels s) {i : ℕ}
    (hi : i ≤ s.context.windowSize) : |(s.context.countWindow.take i).sum| ≤ 5 * 2 ^ 31 := by
  have hsize : s.context.windowSize ≤ 5 := by
    rw [h.size]
    exact min_le_right _ _
  have hcounts : ∀ x ∈ s.context.countWindow.take i, |x| ≤ 2 ^ 31 := by
    intro x hx
    have hwindow := (List.take_sublist_take_left hi).subset hx
    rw [h.size] at hwindow
    exact hfits.counts x (h.countWindow.mem_take hwindow)
  have hlength : ((s.context.countWindow.take i).length : ℤ) ≤ 5 := by
    exact_mod_cast (List.length_take_le _ _).trans (hi.trans hsize)
  have hsum := abs_sum_le hcounts
  linarith

/-- The partial sums of the loop over the times. -/
theorem sum_timeWindow (h : Tracked a₀ startUs labels s) (hstart : 0 ≤ startUs) {i : ℕ}
    (hi : i ≤ s.context.windowSize) :
    0 ≤ (s.context.timeWindowUs.take i).sum ∧
      (s.context.timeWindowUs.take i).sum ≤ s.context.lastReadUs := by
  have hgaps := nonneg_of_forall₂ h.slowCounts
  have hpart := List.take_sublist_take_left (l := s.context.timeWindowUs) hi
  have hnonneg : ∀ x ∈ s.context.timeWindowUs.take s.context.windowSize, 0 ≤ x := by
    intro x hx
    rw [h.size, ← length_gaps startUs] at hx
    exact hgaps x (h.timeWindow.mem_take hx)
  have hlast := h.timeWindow.sum_take
  rw [length_gaps, ← h.size] at hlast
  have hall : (s.context.timeWindowUs.take s.context.windowSize).sum ≤
      (gaps startUs labels).sum := by
    rw [hlast]
    exact (List.drop_sublist _ _).sum_le_sum hgaps
  have hread := h.read
  rw [sum_gaps] at hall
  refine ⟨List.sum_nonneg (fun x hx => hnonneg x (hpart.subset hx)), ?_⟩
  refine (hpart.sum_le_sum hnonneg).trans (hall.trans ?_)
  omega

end Windows

def InInt64 (x : ℤ) : Prop := -2 ^ 63 ≤ x ∧ x < 2 ^ 63

/-- No `int64_t` that a read computes overflows. -/
theorem readValues_inInt64 {context : EncoderContext} {startUs : ℕ} {labels : List Action}
    {s : Encoder} (h : Run step PendingFits (.start context startUs) labels s) {nowUs : ℤ}
    (htime : s.timeUs < nowUs) (hlimit : nowUs < uptimeLimitUs) :
    ∀ x ∈ readValues s.context nowUs, InInt64 x := by
  have htracked := tracked_of_run h
  have hnext := tracked_read htracked 0 htime
  have hfits := countsFit_read (countsFit_of_run h) nowUs 0
  have hreadTime := htracked.readTime
  have hedge : 0 ≤ s.context.lastValidEdgeUs ∧ s.context.lastValidEdgeUs ≤ s.timeUs := by
    rw [htracked.edge]
    cases hlast : lastTurnUs context.lastState labels with
    | none => exact ⟨le_refl 0, hreadTime.1.trans hreadTime.2⟩
    | some t => exact ⟨(htracked.edgeTime t hlast).1.le, (htracked.edgeTime t hlast).2⟩
  have hcounts : ∀ i ≤ (advanceWindows s.context nowUs).windowSize,
      |((advanceWindows s.context nowUs).countWindow.take i).sum| ≤ 5 * 2 ^ 31 :=
    fun i hi => sum_countWindow hnext hfits hi
  have htimes : ∀ i ≤ (advanceWindows s.context nowUs).windowSize,
      0 ≤ ((advanceWindows s.context nowUs).timeWindowUs.take i).sum ∧
        ((advanceWindows s.context nowUs).timeWindowUs.take i).sum ≤ nowUs :=
    fun i hi => sum_timeWindow hnext (Int.natCast_nonneg startUs) hi
  simp only [abs_le] at hcounts
  have hcount := hcounts _ (le_refl _)
  have helapsed := htimes _ (le_refl _)
  have hden : encoderCountsPerRevolution = 128 := rfl
  unfold uptimeLimitUs at hlimit
  intro x hx
  simp only [readValues, List.mem_append, List.mem_cons, List.not_mem_nil, or_false, List.mem_map,
    List.mem_range, hden] at hx
  unfold InInt64
  rcases hx with (hx | ⟨i, hi, rfl⟩) | ⟨i, hi, rfl⟩
  · generalize ((advanceWindows s.context nowUs).timeWindowUs.take
      (advanceWindows s.context nowUs).windowSize).sum = elapsedUs at helapsed hx
    generalize ((advanceWindows s.context nowUs).countWindow.take
      (advanceWindows s.context nowUs).windowSize).sum = count at hcount hx
    have hhalf : (128 * elapsedUs).tdiv 2 = 64 * elapsedUs := by
      rw [Int.tdiv_eq_ediv_of_nonneg (by omega)]
      omega
    rw [hhalf] at hx
    omega
  · have hsum := hcounts i (Nat.lt_succ_iff.mp hi)
    omega
  · have hsum := htimes i (Nat.lt_succ_iff.mp hi)
    omega

/-- The state at the mirrored place: the place `p` goes to `c - p`. -/
def reflect (c : Fin 4) (a : AbState) : AbState := grayState (c.val - cyclePosition a)

def mirror (c : Fin 4) : Action → Action
  | .interrupt nowUs state => .interrupt nowUs (reflect c state)
  | .read nowUs count value => .read nowUs (-count) (-value)

def mirrorEncoder (c : Fin 4) (s : Encoder) : Encoder :=
  { s with context := { s.context with
      pendingCount := -s.context.pendingCount
      lastState := reflect c s.context.lastState
      countWindow := s.context.countWindow.map (-·) } }

theorem turn_reflect : ∀ c a b, turn (reflect c a) (reflect c b) = -turn a b := by
  decide

theorem singleBit_reflect : ∀ c a b, SingleBit (reflect c a) (reflect c b) ↔ SingleBit a b := by
  decide

theorem sum_map_neg (xs : List ℤ) : (xs.map (-·)).sum = -xs.sum := by
  induction xs with
  | nil => rfl
  | cons x xs ih => rw [List.map_cons, List.sum_cons, List.sum_cons, ih, neg_add]

theorem calculateRpm_neg {count elapsedUs : ℤ} (h : |count| ≤ elapsedUs) :
    calculateRpm (-count) elapsedUs = -calculateRpm count elapsedUs := by
  rcases (abs_nonneg count |>.trans h).eq_or_lt with rfl | hpos
  · simp [calculateRpm]
  · have hneg : ((60000000 * -count : ℤ) : ℚ) / ((128 * elapsedUs : ℤ) : ℚ) =
        -(((60000000 * count : ℤ) : ℚ) / ((128 * elapsedUs : ℤ) : ℚ)) := by
      push_cast
      ring
    rw [calculateRpm_eq hpos, calculateRpm_eq hpos, spanRpm_eq hpos h,
      spanRpm_eq hpos (by rwa [abs_neg]), hneg, roundAway_neg]

/-- The counts of the windows are no larger than their times. -/
theorem windows_slow {a₀ : AbState} {startUs : ℤ} {labels : List Action} {s : Encoder}
    (h : Tracked a₀ startUs labels s) :
    |(s.context.countWindow.take s.context.windowSize).sum| ≤
      (s.context.timeWindowUs.take s.context.windowSize).sum := by
  have hcounts := h.countWindow.sum_take
  have htimes := h.timeWindow.sum_take
  rw [← h.size] at hcounts
  rw [length_gaps, ← h.size] at htimes
  rw [hcounts, htimes]
  exact abs_sum_le_sum (List.forall₂_drop _ h.slowCounts)

theorem step_mirror (c : Fin 4) {a₀ : AbState} {startUs : ℤ} {labels : List Action} {s t : Encoder}
    {a : Action} (h : Tracked a₀ startUs labels s) (hs : step s a = some t) :
    step (mirrorEncoder c s) (mirror c a) = some (mirrorEncoder c t) := by
  cases a with
  | interrupt nowUs state =>
    simp only [step, Option.ite_none_right_eq_some, Option.some_inj] at hs
    obtain ⟨htime, rfl⟩ := hs
    have hisr : encoderIsr (mirrorEncoder c s).context nowUs (reflect c state) =
        (mirrorEncoder c ⟨encoderIsr s.context nowUs state, nowUs⟩).context := by
      rw [encoderIsr_eq, encoderIsr_eq]
      simp only [mirrorEncoder, turn_reflect, singleBit_reflect, neg_add]
    have henabled : (mirrorEncoder c s).timeUs < nowUs ∧ nowUs < uptimeLimitUs := htime
    simp only [step, mirror]
    rw [if_pos henabled, hisr]
    rfl
  | read nowUs count value =>
    obtain ⟨htime, rfl, rfl, rfl⟩ := read_step h hs
    have hnext := windows_slow (tracked_read h 0 htime.1)
    have hreadTime := h.readTime
    have hadvance : advanceWindows (mirrorEncoder c s).context nowUs =
        (mirrorEncoder c ⟨advanceWindows s.context nowUs, nowUs⟩).context := by
      simp only [advanceWindows, mirrorEncoder, List.map_set, neg_zero]
      rfl
    have hvalue :
        windowRpm (mirrorEncoder c ⟨advanceWindows s.context nowUs, nowUs⟩).context nowUs =
          -windowRpm (advanceWindows s.context nowUs) nowUs := by
      have hedge :
          (mirrorEncoder c ⟨advanceWindows s.context nowUs, nowUs⟩).context.lastValidEdgeUs =
            (advanceWindows s.context nowUs).lastValidEdgeUs := rfl
      rw [windowRpm, windowRpm, hedge]
      by_cases hstopped :
          encoderIsStopped (advanceWindows s.context nowUs).lastValidEdgeUs nowUs = true
      · rw [if_pos hstopped, if_pos hstopped, neg_zero]
      · rw [if_neg hstopped, if_neg hstopped, ← calculateRpm_neg hnext, ← sum_map_neg,
          List.map_take]
        rfl
    have hread : readRpm (mirrorEncoder c s).context nowUs =
        ((mirrorEncoder c ⟨advanceWindows s.context nowUs, nowUs⟩).context,
          -s.context.pendingCount, -windowRpm (advanceWindows s.context nowUs) nowUs) := by
      have hlater : ¬ nowUs - (mirrorEncoder c s).context.lastReadUs ≤ 0 := by
        change ¬ nowUs - s.context.lastReadUs ≤ 0
        omega
      rw [readRpm, if_neg hlater]
      simp only [hadvance, hvalue]
      rfl
    have henabled : (mirrorEncoder c s).timeUs < nowUs ∧ nowUs < uptimeLimitUs := htime
    rw [mirror, step, hread, if_pos ⟨henabled, rfl, rfl⟩]
    rfl

/-- The mirrored labels are those of a run from the mirrored state. -/
theorem run_mirror (c : Fin 4) {C : Encoder → Action → Prop} {context : EncoderContext}
    {startUs : ℕ} {labels : List Action} {s : Encoder}
    (h : Run step C (.start context startUs) labels s) :
    Run step Free (.start { context with lastState := reflect c context.lastState } startUs)
      (labels.map (mirror c)) (mirrorEncoder c s) := by
  induction h with
  | nil =>
    have hstart : mirrorEncoder c (.start context startUs) =
        .start { context with lastState := reflect c context.lastState } startUs := by
      simp [mirrorEncoder, Encoder.start, startEncoder]
    rw [hstart]
    exact .nil _
  | snoc hrun _ hs ih =>
    rw [List.map_append, List.map_singleton]
    exact ih.snoc trivial (step_mirror c (tracked_of_run hrun) hs)

/-- What comes from outside, without what a read returns. -/
def input : Action → Action
  | .interrupt nowUs state => .interrupt nowUs state
  | .read nowUs _ _ => .read nowUs 0 0

theorem step_determined {s t u : Encoder} {a b : Action} (ha : step s a = some t)
    (hb : step s b = some u) (h : input a = input b) : a = b ∧ t = u := by
  cases a with
  | interrupt nowUs state =>
    cases b with
    | interrupt =>
      obtain ⟨rfl, rfl⟩ := Action.interrupt.inj h
      exact ⟨rfl, Option.some_inj.mp (ha.symm.trans hb)⟩
    | read => cases h
  | read nowUs count value =>
    cases b with
    | interrupt => cases h
    | read nowUs' count' value' =>
      obtain ⟨rfl, -, -⟩ := Action.read.inj h
      simp only [step, Option.ite_none_right_eq_some, Option.some_inj] at ha hb
      obtain ⟨⟨-, rfl, rfl⟩, rfl⟩ := ha
      obtain ⟨⟨-, rfl, rfl⟩, rfl⟩ := hb
      exact ⟨rfl, rfl⟩

/-- The code returns the same in every run with the same interrupts and reads. -/
theorem run_determined {C D : Encoder → Action → Prop} {s t u : Encoder} {as bs : List Action}
    (ha : Run step C s as t) (hb : Run step D s bs u) (h : as.map input = bs.map input) :
    as = bs ∧ t = u := by
  induction ha generalizing bs u with
  | nil =>
    obtain rfl : bs = [] := by simpa using h.symm
    exact ⟨rfl, hb.eq_of_nil.symm⟩
  | @snoc t₁ t₂ as a _ _ hs ih =>
    rcases List.eq_nil_or_concat bs with rfl | ⟨bs, b, rfl⟩
    · simp at h
    · rw [List.concat_eq_append] at hb h
      rw [List.map_append, List.map_append] at h
      obtain ⟨hold, hlast⟩ := List.append_inj' h rfl
      obtain ⟨v, hv, -, hb⟩ := hb.last
      obtain ⟨rfl, rfl⟩ := ih hv hold
      obtain ⟨rfl, rfl⟩ := step_determined hs hb (List.singleton_inj.mp hlast)
      exact ⟨by rw [List.concat_eq_append], rfl⟩

/-- The speed of the bearing in every run: no count is lost or taken twice, each read returns the
rounded average over its span, a count is a displacement along the Gray cycle, mirrored motion
gives the negated values, and nothing overflows. -/
theorem bearingRpm_of_run (context : EncoderContext) (startUs : ℕ) (labels : List Action)
    (s : Encoder) (h : Run step PendingFits (.start context startUs) labels s) :
    (counts labels).sum + s.context.pendingCount = net context.lastState labels ∧
      (∀ head tail nowUs count value after,
        labels = head ++ tail ++ .read nowUs count value :: after → IsSpan head tail →
        value = if StandsStill context.lastState (head ++ tail) nowUs then 0
          else spanRpm (net (stateAfter context.lastState head) tail)
            (nowUs - lastReadUs startUs head)) ∧
      (∀ (tail : List Action) (p : ℤ), (grayState p :: interruptStates tail).IsChain SingleBit →
        ∃ ps : List ℤ, (p :: ps).IsChain (fun x y => |y - x| = 1) ∧
          ps.map grayState = interruptStates tail ∧
          net (grayState p) tail = ps.getLast?.getD p - p) ∧
      (∀ c labels' s', Run step PendingFits
          (.start { context with lastState := reflect c context.lastState } startUs) labels' s' →
        labels'.map input = (labels.map (mirror c)).map input →
        labels' = labels.map (mirror c)) ∧
      ∀ nowUs, s.timeUs < nowUs → nowUs < uptimeLimitUs →
        ∀ x ∈ readValues s.context nowUs, InInt64 x := by
  refine ⟨(tracked_of_run h).pending, ?_, ?_, ?_, ?_⟩
  · rintro head tail nowUs count value after rfl hspan
    exact read_of_run h hspan
  · intro tail p hchain
    obtain ⟨ps, hpath, hstates⟩ := exists_path (interruptStates tail) p hchain
    exact ⟨ps, hpath, hstates, net_of_path tail p ps hpath hstates⟩
  · intro c labels' s' h' hinput
    exact (run_determined h' (run_mirror c h) hinput).1
  · intro nowUs htime hlimit
    exact readValues_inInt64 h htime hlimit

/-- Two turns and a read after 20 ms: 46.875 rounds to 47. -/
theorem twoTurns_rpm :
    let tail : List Action := [.interrupt 2000 2, .interrupt 3000 3]
    (counts (tail ++ [.read 21000 2 47])).sum + 0 = net 0 (tail ++ [.read 21000 2 47]) ∧
      (47 : ℤ) = if StandsStill 0 tail 21000 then 0
        else spanRpm (net (stateAfter 0 []) tail) (21000 - lastReadUs 1000 []) := by
  intro tail
  have hrun : Run step PendingFits (.start ⟨0, 0, 0, [], [], 0, 0, 0⟩ 1000)
      (tail ++ [.read 21000 2 47])
      ⟨⟨0, 3000, 3, [2, 0, 0, 0, 0], [20000, 0, 0, 0, 0], 1, 1, 21000⟩, 21000⟩ := Run.of_exec rfl
  have h := bearingRpm_of_run ⟨0, 0, 0, [], [], 0, 0, 0⟩ 1000 _ _ hrun
  exact ⟨h.1, h.2.1 [] tail 21000 2 47 [] rfl (Or.inl ⟨rfl, by decide⟩)⟩

end BajaDaq.BearingRpm
