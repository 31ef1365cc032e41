import BajaDaq.EngineRpm

/-!
# The events of an engine session

Every spark event belongs to an edge of its own, in the order of the edges, with the speed of the
interval before it. A zero event comes only while the engine stands still. Each edge is returned,
queued or counted as lost; the count is right up to a multiple of 2^32.
-/

namespace BajaDaq.EngineEvents
open EngineRpm TransitionRuns

/-- The times of the edges. -/
def edges (labels : List Action) : List ℤ :=
  labels.filterMap fun
    | .edge nowUs => some nowUs
    | _ => none

/-- The events returned by `engine_rpm_next_event`. -/
def returned (labels : List Action) : List EngineEvent :=
  labels.filterMap fun
    | .receive event => some event
    | .stopCheck _ event => event
    | _ => none

def sparks (labels : List Action) : List EngineEvent := (returned labels).filter (·.spark)

def zeros (labels : List Action) : List EngineEvent := (returned labels).filter (!·.spark)

/-- The sum of what `engine_rpm_dropped_events` returned. -/
def reportedDropped (labels : List Action) : ℕ :=
  (labels.map fun
    | .droppedEvents count => count.toNat
    | _ => 0).sum

/-- The speed for an edge and the edge before it. -/
def intervalRpm : Option ℤ → ℤ → ℤ
  | none, _ => 0
  | some previousUs, nowUs =>
    if 10000 ≤ nowUs - previousUs ∧ nowUs - previousUs ≤ 60000 then 60000000 / (nowUs - previousUs)
    else 0

/-- One event for each edge. -/
def eventsOf : Option ℤ → List ℤ → List EngineEvent
  | _, [] => []
  | previousUs, nowUs :: rest =>
    ⟨nowUs, intervalRpm previousUs nowUs, true⟩ :: eventsOf (some nowUs) rest

theorem eventsOf_concat (previousUs : Option ℤ) (times : List ℤ) (nowUs : ℤ) :
    eventsOf previousUs (times ++ [nowUs]) =
      eventsOf previousUs times ++ [⟨nowUs, intervalRpm (times.getLast?.or previousUs) nowUs, true⟩]
    := by
  induction times generalizing previousUs with
  | nil => rfl
  | cons t times ih =>
    rw [List.cons_append, eventsOf, ih, eventsOf, List.cons_append, List.getLast?_cons]
    cases times.getLast? <;> rfl

/-- Speeds outside the range the sensor can measure are not reported. -/
theorem intervalRpm_range (previousUs : Option ℤ) (nowUs : ℤ)
    (h : intervalRpm previousUs nowUs ≠ 0) :
    1000 ≤ intervalRpm previousUs nowUs ∧ intervalRpm previousUs nowUs ≤ 6000 := by
  cases previousUs with
  | none => exact absurd rfl h
  | some previousUs =>
    simp only [intervalRpm] at h ⊢
    split_ifs at h ⊢ with hvalid
    · obtain ⟨hlow, hhigh⟩ := hvalid
      constructor
      · exact Int.le_ediv_of_mul_le (by omega) (by omega)
      · exact Int.ediv_le_of_le_mul (by omega) (by omega)
    · exact absurd rfl h

theorem rpm_range_of_mem {previousUs : Option ℤ} {times : List ℤ} {e : EngineEvent}
    (he : e ∈ eventsOf previousUs times) (hrpm : e.engineRpm ≠ 0) :
    1000 ≤ e.engineRpm ∧ e.engineRpm ≤ 6000 := by
  induction times generalizing previousUs with
  | nil => simp [eventsOf] at he
  | cons t times ih =>
    rcases List.mem_cons.mp he with rfl | hrest
    · exact intervalRpm_range previousUs t hrpm
    · exact ih hrest

/-- What the interrupt notes about an interval gives the speed of the interval. -/
theorem sparkEvent_capture (previousUs : Option ℤ) (nowUs : ℤ) (hpositive : previousUs ≠ some 0) :
    sparkEvent ⟨nowUs, nowUs - previousUs.getD 0, previousUs.getD 0 != 0 &&
      decide (minSparkIntervalUs ≤ nowUs - previousUs.getD 0) &&
      decide (nowUs - previousUs.getD 0 ≤ maxSparkIntervalUs)⟩ =
      ⟨nowUs, intervalRpm previousUs nowUs, true⟩ := by
  cases previousUs with
  | none => simp [sparkEvent, intervalRpm]
  | some previousUs =>
    have hne : previousUs ≠ 0 := fun h => hpositive (congrArg some h)
    have hmin : minSparkIntervalUs = 10000 := rfl
    have hmax : maxSparkIntervalUs = 60000 := rfl
    have hunit : 60000000 * revolutionsPerSpark = 60000000 := rfl
    have hfirst : (previousUs != 0) = true := by simpa using hne
    simp only [sparkEvent, intervalRpm, Option.getD_some, hfirst, hmin, hmax, hunit, Bool.true_and,
      Bool.and_eq_true, decide_eq_true_eq]
    split_ifs with hvalid
    · rw [Int.tdiv_eq_ediv_of_nonneg (by decide)]
    · rfl

/-- The queue and the last edge against the history: events in the order of their edges, one for
each edge. -/
structure Captures (labels : List Action) (s : Engine) : Prop where
  order : (sparks labels ++ s.context.events.map sparkEvent).Sublist (eventsOf none (edges labels))
  last : s.context.lastSparkUs = (edges labels).getLast?.getD 0
  same : s.edgeUs = s.context.lastSparkUs
  positive : ∀ t ∈ edges labels, 0 < t ∧ t ≤ s.edgeUs
  lastPositive : 0 ≤ s.edgeUs

section Labels
variable (labels : List Action)

@[simp] theorem edges_edge (t : ℤ) : edges (labels ++ [.edge t]) = edges labels ++ [t] := by
  simp [edges]

@[simp] theorem edges_receive (e : EngineEvent) :
    edges (labels ++ [.receive e]) = edges labels := by
  simp [edges]

@[simp] theorem edges_receiveTimeout : edges (labels ++ [.receiveTimeout]) = edges labels := by
  simp [edges]

@[simp] theorem edges_stopCheck (t : ℤ) (e : Option EngineEvent) :
    edges (labels ++ [.stopCheck t e]) = edges labels := by
  simp [edges]

@[simp] theorem edges_droppedEvents (n : UInt32) :
    edges (labels ++ [.droppedEvents n]) = edges labels := by
  simp [edges]

@[simp] theorem returned_edge (t : ℤ) : returned (labels ++ [.edge t]) = returned labels := by
  simp [returned]

@[simp] theorem returned_receive (e : EngineEvent) :
    returned (labels ++ [.receive e]) = returned labels ++ [e] := by
  simp [returned]

@[simp] theorem returned_receiveTimeout :
    returned (labels ++ [.receiveTimeout]) = returned labels := by
  simp [returned]

@[simp] theorem returned_stopCheck (t : ℤ) (e : Option EngineEvent) :
    returned (labels ++ [.stopCheck t e]) = returned labels ++ e.toList := by
  cases e <;> simp [returned]

@[simp] theorem returned_droppedEvents (n : UInt32) :
    returned (labels ++ [.droppedEvents n]) = returned labels := by
  simp [returned]

theorem sparks_edge (t : ℤ) : sparks (labels ++ [.edge t]) = sparks labels := by simp [sparks]

theorem sparks_receive (capture : SparkCapture) :
    sparks (labels ++ [.receive (sparkEvent capture)]) = sparks labels ++ [sparkEvent capture] := by
  simp [sparks, sparkEvent]

end Labels

section Steps
variable {labels : List Action} {s t : Engine} {a : Action}

theorem captures_edge {nowUs : ℤ} (h : Captures labels s) (hedge : s.edgeUs < nowUs)
    {context : EngineRpmContext} (hspark : context.lastSparkUs = nowUs)
    (horder : (sparks labels ++ context.events.map sparkEvent).Sublist
      (eventsOf none (edges labels ++ [nowUs]))) :
    Captures (labels ++ [.edge nowUs])
      { s with context := context, timeUs := nowUs, edgeUs := nowUs } := by
  refine ⟨?_, ?_, hspark.symm, ?_, ?_⟩
  · rw [sparks_edge, edges_edge]
    exact horder
  · simp [hspark]
  · intro t ht
    rw [edges_edge, List.mem_append, List.mem_singleton] at ht
    have hpos : 0 < nowUs := h.lastPositive.trans_lt hedge
    rcases ht with ht | rfl
    · exact ⟨(h.positive t ht).1, ((h.positive t ht).2.trans_lt hedge).le⟩
    · exact ⟨hpos, le_refl t⟩
  · exact h.lastPositive.trans hedge.le

/-- Steps other than edges keep the part about the last edge. -/
theorem captures_other (h : Captures labels s) (hedges : edges (labels ++ [a]) = edges labels)
    (hspark : t.context.lastSparkUs = s.context.lastSparkUs) (hedge : t.edgeUs = s.edgeUs)
    (horder : sparks (labels ++ [a]) ++ t.context.events.map sparkEvent =
      sparks labels ++ s.context.events.map sparkEvent) : Captures (labels ++ [a]) t := by
  refine ⟨?_, ?_, ?_, ?_, ?_⟩
  · rw [horder, hedges]
    exact h.order
  · rw [hspark, hedges]
    exact h.last
  · rw [hedge, hspark]
    exact h.same
  · rw [hedges, hedge]
    exact h.positive
  · rw [hedge]
    exact h.lastPositive

theorem captures_step (h : Captures labels s) (hstep : Stepped s a t) :
    Captures (labels ++ [a]) t := by
  have hlast := h.last
  cases hstep with
  | @queued nowUs capture htime hedge hroom hcapture =>
    have hevent : sparkEvent capture =
        ⟨nowUs, intervalRpm (edges labels).getLast? nowUs, true⟩ := by
      rw [hcapture, hlast]
      apply sparkEvent_capture
      intro hzero
      exact absurd (h.positive 0 (List.mem_of_getLast? hzero)).1 (lt_irrefl 0)
    refine captures_edge h hedge rfl ?_
    rw [eventsOf_concat, Option.or_none, List.map_append, ← List.append_assoc, List.map_singleton,
      hevent]
    exact h.order.append (.refl _)
  | lost htime hedge hfull =>
    refine captures_edge h hedge rfl ?_
    rw [eventsOf_concat]
    exact h.order.trans (List.sublist_append_left _ _)
  | @receive capture rest hevents =>
    refine captures_other h (edges_receive _ _) rfl rfl ?_
    simp [sparks_receive, hevents]
  | receiveTimeout => exact captures_other h (edges_receiveTimeout _) rfl rfl (by simp [sparks])
  | stopped => exact captures_other h (edges_stopCheck _ _ _) rfl rfl (by simp [sparks])
  | running => exact captures_other h (edges_stopCheck _ _ _) rfl rfl (by simp [sparks])
  | droppedEvents => exact captures_other h (edges_droppedEvents _ _) rfl rfl (by simp [sparks])

/-- The zero timer is not before the discard nor before a zero event. -/
structure ZeroTimer (startUs : ℤ) (labels : List Action) (s : Engine) : Prop where
  start : startUs ≤ s.context.lastZeroUs
  zeros : ∀ e ∈ zeros labels, e.timestampUs ≤ s.context.lastZeroUs

theorem zeroTimer_step {startUs : ℤ} (h : ZeroTimer startUs labels s) (hstep : Stepped s a t) :
    ZeroTimer startUs (labels ++ [a]) t := by
  cases hstep with
  | queued => exact ⟨h.start, by simpa [zeros] using h.zeros⟩
  | lost => exact ⟨h.start, by simpa [zeros] using h.zeros⟩
  | receive => exact ⟨h.start, by simpa [zeros, sparkEvent] using h.zeros⟩
  | receiveTimeout => exact ⟨h.start, by simpa [zeros] using h.zeros⟩
  | running => exact ⟨h.start, by simpa [zeros] using h.zeros⟩
  | droppedEvents => exact ⟨h.start, by simpa [zeros] using h.zeros⟩
  | @stopped nowUs htime hspark hzero =>
    have hlater : s.context.lastZeroUs ≤ nowUs := by
      unfold engineStopTimeoutUs at hzero
      omega
    refine ⟨h.start.trans hlater, ?_⟩
    intro e he
    have hcase : e ∈ zeros labels ∨ e = ⟨nowUs, 0, false⟩ := by simpa [zeros] using he
    rcases hcase with hbefore | rfl
    · exact (h.zeros e hbefore).trans hlater
    · exact le_refl nowUs

/-- An edge is not lost while the counter is at its maximum. -/
def NoWrap (s : Engine) : Action → Prop
  | .edge _ => s.context.events.length < captureQueueLength ∨ s.context.dropped ≠ 0xFFFFFFFF
  | _ => True

instance (s : Engine) : (a : Action) → Decidable (NoWrap s a)
  | .edge _ => inferInstanceAs (Decidable (_ ∨ _))
  | .receive _ | .receiveTimeout | .stopCheck .. | .droppedEvents _ => .isTrue trivial

/-- What has been reported or is still to be reported. -/
def counted (labels : List Action) (s : Engine) : ℕ :=
  reportedDropped labels + s.context.dropped.toNat

/-- A step loses `k` edges and adds as much to the count, which wraps at 2^32. -/
theorem counted_step (labels : List Action) (hstep : Stepped s a t) :
    ∃ k, (edges (labels ++ [a])).length + (sparks labels).length + s.context.events.length =
        (edges labels).length + (sparks (labels ++ [a])).length + t.context.events.length + k ∧
      counted (labels ++ [a]) t ≡ counted labels s + k [MOD 2 ^ 32] ∧
      (NoWrap s a → counted (labels ++ [a]) t = counted labels s + k) := by
  have hnone : counted (labels ++ [a]) t = counted labels s →
      counted (labels ++ [a]) t ≡ counted labels s + 0 [MOD 2 ^ 32] ∧
        (NoWrap s a → counted (labels ++ [a]) t = counted labels s + 0) :=
    fun h => ⟨by rw [h, Nat.add_zero], fun _ => h⟩
  cases hstep with
  | queued =>
    refine ⟨0, ?_, hnone (by simp [counted, reportedDropped])⟩
    simp [sparks]
    omega
  | @lost nowUs htime hedge hfull =>
    have hreported : reportedDropped (labels ++ [.edge nowUs]) = reportedDropped labels := by
      simp [reportedDropped]
    refine ⟨1, ?_, ?_, fun hno => ?_⟩
    · simp [sparks]
      omega
    · rw [counted, counted, hreported, UInt32.toNat_add, Nat.add_assoc]
      exact (Nat.mod_modEq _ _).add_left _
    · have hmax : s.context.dropped ≠ 0xFFFFFFFF := hno.resolve_left hfull
      have hlt := s.context.dropped.toNat_lt
      have hbelow : s.context.dropped.toNat ≠ 0xFFFFFFFF :=
        fun h => hmax (UInt32.toNat_inj.mp h)
      rw [counted, counted, hreported, UInt32.toNat_add, UInt32.toNat_one,
        Nat.mod_eq_of_lt (by omega)]
      omega
  | @receive capture rest hevents =>
    refine ⟨0, ?_, hnone (by simp [counted, reportedDropped])⟩
    simp [sparks_receive, hevents]
    omega
  | receiveTimeout | stopped | running | droppedEvents =>
    exact ⟨0, by simp [sparks], hnone (by simp [counted, reportedDropped])⟩

end Steps

section Runs
variable {context : EngineRpmContext} {checking : ℕ} {startUs : ℤ} {labels : List Action}
  {s t : Engine}

theorem captures_of_run (h : Run step Free (.start context checking startUs) labels s) :
    Captures labels s := by
  induction h with
  | nil =>
    exact ⟨by simp [sparks, returned, Engine.start, engineRpmDiscardPending], rfl, rfl,
      by simp [edges], le_refl 0⟩
  | snoc hrun _ hs ih => exact captures_step ih (stepped hs)

theorem zeroTimer_of_run (h : Run step Free (.start context checking startUs) labels s) :
    ZeroTimer startUs labels s := by
  induction h with
  | nil =>
    exact ⟨le_refl startUs, by simp [zeros, returned]⟩
  | snoc hrun _ hs ih => exact zeroTimer_step ih (stepped hs)

/-- Each edge has been returned, is queued or is lost, and the losses are counted up to a
multiple of 2^32. -/
theorem edges_length_of_run (h : Run step Free (.start context checking startUs) labels s) :
    ∃ lost, (edges labels).length =
        (sparks labels).length + s.context.events.length + lost ∧
      lost ≡ reportedDropped labels + s.context.dropped.toNat [MOD 2 ^ 32] := by
  induction h with
  | nil =>
    exact ⟨0, rfl, rfl⟩
  | @snoc t u labels a hrun _ hs ih =>
    obtain ⟨lost, htotal, hmod⟩ := ih
    obtain ⟨k, hk, hcount, -⟩ := counted_step labels (stepped hs)
    exact ⟨lost + k, by omega, (hmod.add_right k).trans hcount.symm⟩

/-- Without wrapping the count is exact. -/
theorem edges_length_of_noWrap (h : Run step NoWrap (.start context checking startUs) labels s) :
    (edges labels).length = (sparks labels).length + s.context.events.length +
      reportedDropped labels + s.context.dropped.toNat := by
  induction h with
  | nil =>
    rfl
  | @snoc t u labels a hrun hc hs ih =>
    have htotal := ih
    obtain ⟨k, hk, -, hcount⟩ := counted_step labels (stepped hs)
    have hexact := hcount hc
    simp only [counted] at hexact
    omega

/-- Edges do not go back in time. -/
theorem edges_from (h : Run step Free s labels t) : s.timeUs ≤ t.timeUs ∧
    ∀ x ∈ edges labels, s.timeUs ≤ x := by
  induction h with
  | nil => exact ⟨le_refl _, by simp [edges]⟩
  | snoc hrun _ hs ih =>
    obtain ⟨htime, hedges⟩ := ih
    cases stepped hs with
    | queued hle | lost hle =>
      refine ⟨htime.trans hle, fun x hx => ?_⟩
      rw [edges_edge, List.mem_append, List.mem_singleton] at hx
      rcases hx with hx | rfl
      · exact hedges x hx
      · exact htime.trans hle
    | stopped hle | running hle => exact ⟨htime.trans hle, by simpa using hedges⟩
    | receive | receiveTimeout | droppedEvents => exact ⟨htime, by simpa using hedges⟩

/-- A zero event comes when there has been neither an edge nor a zero event nor the discard for
100 ms. -/
theorem zero_of_run {before after : List Action} {nowUs : ℤ} {e : EngineEvent}
    (h : Run step Free (.start context checking startUs)
      (before ++ .stopCheck nowUs (some e) :: after) s) :
    e = ⟨nowUs, 0, false⟩ ∧ (∀ x ∈ edges before, x ≤ nowUs - 100000) ∧
      (∀ x ∈ edges after, nowUs ≤ x) ∧ 100000 ≤ nowUs - startUs ∧
      ∀ z ∈ zeros before, 100000 ≤ nowUs - z.timestampUs := by
  obtain ⟨u, u', hbefore, -, hs, hafter⟩ := h.at_step
  have hcaptures := captures_of_run hbefore
  have htimer := zeroTimer_of_run hbefore
  have hsame := hcaptures.same
  have hlater := (edges_from hafter).2
  cases stepped hs with
  | stopped htime hspark hzero =>
    simp only [engineStopTimeoutUs] at hspark hzero
    have hstart := htimer.start
    refine ⟨rfl, fun x hx => ?_, hlater, by omega, fun z hz => ?_⟩
    · have hx := (hcaptures.positive x hx).2
      omega
    · have hz := htimer.zeros z hz
      omega

/-- The events of every session, however the interrupt and the calls interleave. -/
theorem engineEvents_of_run (context : EngineRpmContext) (checking : ℕ) (startUs : ℤ)
    (labels : List Action) (s : Engine)
    (h : Run step Free (.start context checking startUs) labels s) :
    (sparks labels).Sublist (eventsOf none (edges labels)) ∧
      (∀ e ∈ sparks labels, e.engineRpm ≠ 0 → 1000 ≤ e.engineRpm ∧ e.engineRpm ≤ 6000) ∧
      (∀ before after nowUs e, labels = before ++ .stopCheck nowUs (some e) :: after →
        e = ⟨nowUs, 0, false⟩ ∧ (∀ x ∈ edges before, x ≤ nowUs - 100000) ∧
          (∀ x ∈ edges after, nowUs ≤ x) ∧ 100000 ≤ nowUs - startUs ∧
          ∀ z ∈ zeros before, 100000 ≤ nowUs - z.timestampUs) ∧
      (∃ lost, (edges labels).length =
          (sparks labels).length + s.context.events.length + lost ∧
        lost ≡ reportedDropped labels + s.context.dropped.toNat [MOD 2 ^ 32]) ∧
      (Run step NoWrap (.start context checking startUs) labels s →
        (edges labels).length = (sparks labels).length + s.context.events.length +
          reportedDropped labels + s.context.dropped.toNat) := by
  have hsublist : (sparks labels).Sublist (eventsOf none (edges labels)) :=
    (List.sublist_append_left _ _).trans (captures_of_run h).order
  refine ⟨hsublist, ?_, ?_, edges_length_of_run h, edges_length_of_noWrap⟩
  · intro e he
    exact rpm_range_of_mem (hsublist.subset he)
  · rintro before after nowUs e rfl
    exact zero_of_run h

end Runs

/-- Two edges 20 ms apart, then a standstill. -/
theorem twoSparks_events :
    let labels : List Action := [.edge 5000000, .edge 5020000, .receive ⟨5000000, 0, true⟩,
      .receive ⟨5020000, 3000, true⟩, .receiveTimeout, .stopCheck 5030000 none, .receiveTimeout,
      .stopCheck 5130000 (some ⟨5130000, 0, false⟩), .droppedEvents 0]
    (sparks labels).Sublist (eventsOf none (edges labels)) ∧
      (edges labels).length = (sparks labels).length + 0 + reportedDropped labels + 0 := by
  intro labels
  have h := engineEvents_of_run ⟨0, 0, 0, []⟩ 0 4000000 labels
    ⟨⟨5020000, 5130000, 0, []⟩, 0, 5130000, 5020000⟩ (Run.of_exec_free rfl)
  exact ⟨h.1, h.2.2.2.2 (Run.of_exec rfl)⟩

/-- One edge each microsecond, with no call in between. -/
def edgeTrain (n : ℕ) : List Action := (List.range n).map fun i : ℕ => .edge ((i : ℤ) + 1)

theorem edgeTrain_run (n : ℕ) :
    ∃ s, Run step Free (.start ⟨0, 0, 0, []⟩ 0 0) (edgeTrain n) s ∧ s.timeUs ≤ n ∧ s.edgeUs ≤ n ∧
      s.context.events.length = min n captureQueueLength ∧
      s.context.dropped = UInt32.ofNat (n - captureQueueLength) := by
  induction n with
  | zero => exact ⟨.start ⟨0, 0, 0, []⟩ 0 0, .nil _, le_refl 0, le_refl 0, rfl, rfl⟩
  | succ n ih =>
    obtain ⟨s, hrun, htime, hedge, hlength, hdropped⟩ := ih
    have henabled : s.timeUs ≤ (n : ℤ) + 1 ∧ s.edgeUs < (n : ℤ) + 1 := by omega
    have hstep : step s (.edge ((n : ℤ) + 1)) = some { s with
        context := engineRpmIsr s.context (n + 1)
        timeUs := n + 1
        edgeUs := n + 1 } := by
      rw [step, if_pos henabled]
    have hlabels : edgeTrain (n + 1) = edgeTrain n ++ [.edge ((n : ℤ) + 1)] := by
      simp [edgeTrain, List.range_succ]
    rw [hlabels]
    refine ⟨_, hrun.snoc trivial hstep, by simp, by simp, ?_⟩
    by_cases hroom : n < captureQueueLength
    · have hqueued : s.context.events.length < captureQueueLength := by omega
      rw [engineRpmIsr, if_pos hqueued, hdropped, Nat.sub_eq_zero_of_le hroom.le,
        Nat.sub_eq_zero_of_le hroom, List.length_append, hlength]
      exact ⟨by simp; omega, rfl⟩
    · have hfull : ¬ s.context.events.length < captureQueueLength := by omega
      have hnext : n + 1 - captureQueueLength = n - captureQueueLength + 1 := by omega
      rw [engineRpmIsr, if_neg hfull, hnext, UInt32.ofNat_add]
      exact ⟨by simp only [hlength]; omega, by rw [hdropped]; rfl⟩

/-- After 2^32 edges lost between two reports the count starts again at 0. -/
theorem edgeTrain_wraps :
    ∃ s, Run step Free (.start ⟨0, 0, 0, []⟩ 0 0) (edgeTrain (captureQueueLength + 2 ^ 32)) s ∧
      (edges (edgeTrain (captureQueueLength + 2 ^ 32))).length ≠
        (sparks (edgeTrain (captureQueueLength + 2 ^ 32))).length + s.context.events.length +
          reportedDropped (edgeTrain (captureQueueLength + 2 ^ 32)) + s.context.dropped.toNat := by
  obtain ⟨s, hrun, -, -, hlength, hdropped⟩ := edgeTrain_run (captureQueueLength + 2 ^ 32)
  have hedges : ∀ n, (edges (edgeTrain n)).length = n := by
    intro n
    rw [edges, edgeTrain, List.filterMap_map]
    change (List.filterMap (some ∘ fun i : ℕ => (i : ℤ) + 1) (List.range n)).length = n
    rw [List.filterMap_eq_map, List.length_map, List.length_range]
  have hsparks : ∀ n, (sparks (edgeTrain n)).length = 0 := by
    intro n
    rw [sparks, returned, edgeTrain, List.filterMap_map]
    change ((List.filterMap (fun _ => none) (List.range n)).filter EngineEvent.spark).length = 0
    rw [List.filterMap_eq_nil_iff.mpr fun _ _ => rfl]
    rfl
  have hreported : ∀ n, reportedDropped (edgeTrain n) = 0 := by
    intro n
    simp [reportedDropped, edgeTrain, Function.comp_def, List.map_const']
  have hzero : s.context.dropped.toNat = 0 := by
    rw [hdropped, Nat.add_sub_cancel_left]
    rfl
  refine ⟨s, hrun, ?_⟩
  rw [hedges, hsparks, hreported, hlength, hzero]
  omega

end BajaDaq.EngineEvents
