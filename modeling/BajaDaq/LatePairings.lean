import BajaDaq.BurstObservations

/-!
# Sentences paired with a moment after their first byte

A burst starts wherever the line was silent, also within a sentence. A sentence that was
interrupted is paired with the byte behind the interruption.
-/

namespace BajaDaq.LatePairings
open BurstObservations CStrings GpsReceiver LineAssembly ListBursts RmcParser TransitionRuns

/-- The times of the bytes that were read at least 50 ms after the byte before them. -/
def restarts : List ℤ → List ℤ
  | a :: b :: rest =>
    if gpsBurstGapUs ≤ b - a then b :: restarts (b :: rest) else restarts (b :: rest)
  | _ => []

/-- The uptime of the observation is at or before the first byte of its sentence. -/
def OnTime (outputDelayUs : ℤ) (call : Mark × Ended) : Prop :=
  ∀ beganUs ∈ call.2.timesUs.head?, (observation outputDelayUs call).2 ≤ beganUs

/-- No byte of the sentence was read at least 50 ms after the byte before it and more than the
output delay after the first one. -/
def Unbroken (outputDelayUs : ℤ) (ended : Ended) : Prop :=
  ∀ beganUs ∈ ended.timesUs.head?, ∀ restartUs ∈ restarts ended.timesUs,
    restartUs ≤ beganUs + outputDelayUs

theorem restarts_concat (ts : List ℤ) (t : ℤ) :
    restarts (ts ++ [t]) =
      restarts ts ++ if ∃ last ∈ ts.getLast?, gpsBurstGapUs ≤ t - last then [t] else [] := by
  induction ts with
  | nil => simp [restarts]
  | cons a ts ih =>
    cases ts with
    | nil => simp [restarts]
    | cons b ts =>
      have hlast : (a :: b :: ts).getLast? = (b :: ts).getLast? := List.getLast?_cons_cons
      rw [List.cons_append, List.cons_append, restarts, ← List.cons_append, ih, hlast, restarts]
      split <;> simp

theorem restarts_sublist (ts : List ℤ) : (restarts ts).Sublist ts.tail := by
  induction ts with
  | nil => exact List.Sublist.slnil
  | cons a ts ih =>
    cases ts with
    | nil => exact List.Sublist.slnil
    | cons b ts =>
      rw [restarts, List.tail_cons]
      split
      · exact ih.cons_cons b
      · exact ih.cons b

/-- The start of the burst against the times of the sentence that is being read. -/
structure Spans (first : Option Mark) (ts : List ℤ) : Prop where
  used : first = none → restarts ts = []
  before : ∀ m ∈ first, restarts ts = [] → ∀ beganUs ∈ ts.head?, m.receivedUs ≤ beganUs
  within : ∀ m ∈ first, ∀ restartUs ∈ (restarts ts).getLast?, m.receivedUs = restartUs

theorem spans_nil (first : Option Mark) : Spans first [] :=
  ⟨fun _ => rfl, fun _ _ _ _ h => by simp at h, fun _ _ _ h => by simp [restarts] at h⟩

/-- One more byte of the sentence. -/
theorem spans_concat {done : List Mark} {ts : List ℤ} {m : Mark} (h : Spans (openStart done) ts)
    (hlatest : ts ≠ [] → ts.getLast? = done.getLast?.map Mark.receivedUs)
    (hsorted : ∀ earlier ∈ done, earlier.receivedUs ≤ m.receivedUs) :
    Spans (started done m) (ts ++ [m.receivedUs]) := by
  have hgap : ts ≠ [] → ((∃ last ∈ ts.getLast?, gpsBurstGapUs ≤ m.receivedUs - last) ↔
      ¬ ∃ last ∈ done.getLast?, close last m = true) := by
    intro hts
    rw [hlatest hts]
    cases hlast : done.getLast? with
    | none =>
      have hnone : ts.getLast? = none := by rw [hlatest hts, hlast]; rfl
      exact absurd (List.getLast?_eq_none_iff.mp hnone) hts
    | some last => simp [close]
  by_cases hclose : ∃ last ∈ done.getLast?, close last m = true
  · rw [started, if_pos hclose]
    by_cases hts : ts = []
    · rw [hts]
      refine ⟨fun _ => rfl, ?_, fun _ _ _ hlast => by simp [restarts] at hlast⟩
      intro first hfirst _ beganUs hbegan
      obtain rfl : m.receivedUs = beganUs := by simpa using hbegan
      exact hsorted first (mem_of_openStart hfirst)
    · have hsame : restarts (ts ++ [m.receivedUs]) = restarts ts := by
        rw [restarts_concat, if_neg (fun hfar => (hgap hts).mp hfar hclose), List.append_nil]
      refine ⟨?_, ?_, ?_⟩
      · rw [hsame]
        exact h.used
      · rw [hsame, List.head?_append_of_ne_nil _ hts]
        exact h.before
      · rw [hsame]
        exact h.within
  · rw [started, if_neg hclose]
    by_cases hts : ts = []
    · rw [hts]
      refine ⟨fun _ => rfl, ?_, fun _ _ _ hlast => by simp [restarts] at hlast⟩
      intro first hfirst _ beganUs hbegan
      obtain rfl := Option.some.inj hfirst
      obtain rfl : m.receivedUs = beganUs := by simpa using hbegan
      exact Int.le_refl m.receivedUs
    · have hnew : restarts (ts ++ [m.receivedUs]) = restarts ts ++ [m.receivedUs] := by
        rw [restarts_concat, if_pos ((hgap hts).mpr hclose)]
      refine ⟨fun hused => absurd hused (Option.some_ne_none _), ?_, ?_⟩
      · intro first _ hnone
        rw [hnew] at hnone
        simp at hnone
      · intro first hfirst restartUs hrestart
        obtain rfl := Option.some.inj hfirst
        rw [hnew, List.getLast?_concat] at hrestart
        exact Option.some.inj hrestart

/-- The observation of a sentence is on time exactly if the sentence was not interrupted. -/
theorem onTime_iff_unbroken {outputDelayUs : ℤ} (hdelay : 0 ≤ outputDelayUs)
    {first : Option Mark} {ended : Ended} (h : Spans first ended.timesUs)
    (hsorted : ended.timesUs.Pairwise (· ≤ ·)) :
    (∀ m ∈ first, OnTime outputDelayUs (m, ended)) ↔ Unbroken outputDelayUs ended := by
  rcases List.eq_nil_or_concat (restarts ended.timesUs) with hnone | ⟨front, restartUs, hrestarts⟩
  · refine iff_of_true ?_ ?_
    · intro m hm beganUs hbegan
      have hle := h.before m hm hnone beganUs hbegan
      simp only [observation]
      omega
    · intro beganUs _ restartUs hrestart
      rw [hnone] at hrestart
      cases hrestart
  · rw [List.concat_eq_append] at hrestarts
    have hsome : restarts ended.timesUs ≠ [] := by simp [hrestarts]
    have hordered : (restarts ended.timesUs).Pairwise (· ≤ ·) :=
      hsorted.sublist ((restarts_sublist ended.timesUs).trans (List.tail_sublist _))
    -- the burst starts at the last interruption
    have hstart : ∀ m ∈ first, m.receivedUs = restartUs := by
      intro m hm
      exact h.within m hm restartUs (by rw [hrestarts, List.getLast?_concat]; rfl)
    have hlatest : ∀ t ∈ restarts ended.timesUs, t ≤ restartUs := by
      intro t ht
      rw [hrestarts] at ht hordered
      rcases List.mem_append.mp ht with hold | hlast
      · exact (List.pairwise_append.mp hordered).2.2 t hold restartUs (by simp)
      · exact (List.mem_singleton.mp hlast).le
    constructor
    · intro hontime beganUs hbegan t ht
      obtain ⟨m, hm⟩ : ∃ m, first = some m := Option.ne_none_iff_exists'.mp (mt h.used hsome)
      have hle := hontime m hm beganUs hbegan
      have hlast := hlatest t ht
      rw [observation, hstart m hm] at hle
      dsimp only at hle
      omega
    · intro hunbroken m hm beganUs hbegan
      have hle := hunbroken beganUs hbegan restartUs (by simp [hrestarts])
      rw [observation, hstart m hm]
      dsimp only
      omega

section Runs
variable {D : Type} [Doubles D] {outputDelayUs : ℤ}

theorem timesUs_of_markOf {segment : List Arrival} {a : Arrival} {ended : Ended}
    (h : (markOf D segment a).ended = some ended) :
    ended.timesUs = (segment ++ [a]).map Arrival.receivedUs := by
  rw [markOf] at h
  dsimp only at h
  split at h
  · obtain ⟨utcMs, -, rfl⟩ := Option.map_eq_some_iff.mp h
    rfl
  · cases h

/-- The next segment is empty behind a line feed. -/
theorem spans_nextSegment {done : List Mark} {segment : List Arrival} {a : Arrival}
    (h : Spans (started done (markOf D segment a)) ((segment ++ [a]).map Arrival.receivedUs)) :
    Spans (openStart (done ++ [markOf D segment a]))
      ((nextSegment segment a).map Arrival.receivedUs) := by
  rw [(calls_concat done (markOf D segment a)).2]
  by_cases hbyte : a.byte = lineFeed
  · rw [nextSegment, if_pos hbyte]
    exact spans_nil _
  · rw [nextSegment, if_neg hbyte, markOf, if_neg hbyte]
    rw [markOf, if_neg hbyte] at h
    exact h

theorem getLast_nextSegment {done : List Mark} {segment : List Arrival} {a : Arrival}
    (h : nextSegment segment a ≠ []) :
    (nextSegment segment a).getLast?.map Arrival.receivedUs =
      (done ++ [markOf D segment a]).getLast?.map Mark.receivedUs := by
  rw [nextSegment] at h ⊢
  split at h
  · exact absurd rfl h
  · rename_i hbyte
    rw [if_neg hbyte, List.getLast?_concat, List.getLast?_concat]
    rfl

/-- What the last byte of a segment adds to the calls is on time exactly if the sentence that it
ends was not interrupted. -/
theorem onTime_concat_iff (hdelay : 0 ≤ outputDelayUs) {done : List Mark} {segment : List Arrival}
    {a : Arrival}
    (h : Spans (started done (markOf D segment a)) ((segment ++ [a]).map Arrival.receivedUs))
    (hsorted : (segment ++ [a]).Pairwise fun a b => a.receivedUs ≤ b.receivedUs) :
    (∀ call ∈ ((started done (markOf D segment a)).bind fun first =>
        (markOf D segment a).ended.map fun ended => (first, ended)).toList,
      OnTime outputDelayUs call) ↔
      ∀ ended ∈ (markOf D segment a).ended, Unbroken outputDelayUs ended := by
  cases hended : (markOf D segment a).ended with
  | none =>
    have hnone : ((started done (markOf D segment a)).bind fun first =>
        (none : Option Ended).map fun ended => (first, ended)) = none := by
      cases started done (markOf D segment a) <;> rfl
    rw [hnone]
    simp
  | some ended =>
    have htimes : ended.timesUs = (segment ++ [a]).map Arrival.receivedUs :=
      timesUs_of_markOf hended
    have hordered : ended.timesUs.Pairwise (· ≤ ·) := by
      rw [htimes, List.pairwise_map]
      exact hsorted
    have hiff := onTime_iff_unbroken hdelay (htimes ▸ h) hordered
    cases hstarted : started done (markOf D segment a) with
    | none => simpa [hstarted] using hiff
    | some first => simpa [hstarted] using hiff

/-- The bytes that follow on a pending segment add no late observation exactly if they end no
interrupted sentence. -/
theorem onTime_calls_iff (hdelay : 0 ≤ outputDelayUs) {rest : List Arrival} {done : List Mark}
    {segment : List Arrival}
    (hspans : Spans (openStart done) (segment.map Arrival.receivedUs))
    (hlatest : segment ≠ [] → segment.getLast?.map Arrival.receivedUs =
      done.getLast?.map Mark.receivedUs)
    (hdone : ∀ m ∈ done, ∀ a ∈ rest, m.receivedUs ≤ a.receivedUs)
    (hsorted : (segment ++ rest).Pairwise fun a b => a.receivedUs ≤ b.receivedUs) :
    (∀ call ∈ calls (done ++ marksFrom D segment rest), OnTime outputDelayUs call) ↔
      (∀ call ∈ calls done, OnTime outputDelayUs call) ∧
        ∀ ended ∈ (marksFrom D segment rest).filterMap Mark.ended,
          Unbroken outputDelayUs ended := by
  induction rest generalizing done segment with
  | nil => simp [marksFrom]
  | cons a rest ih =>
    have hcalls := (calls_concat done (markOf D segment a)).1
    have hrest := (List.pairwise_append.mp hsorted).2.1
    have hnext : Spans (started done (markOf D segment a))
        ((segment ++ [a]).map Arrival.receivedUs) := by
      rw [List.map_append]
      refine spans_concat hspans ?_ (fun m hm => hdone m hm a List.mem_cons_self)
      intro hsegment
      rw [List.getLast?_map]
      exact hlatest (mt (congrArg (List.map Arrival.receivedUs)) hsegment)
    have hdone' : ∀ m ∈ done ++ [markOf D segment a], ∀ b ∈ rest,
        m.receivedUs ≤ b.receivedUs := by
      intro m hm b hb
      rcases List.mem_append.mp hm with hold | hnew
      · exact hdone m hold b (List.mem_cons_of_mem a hb)
      · obtain rfl := List.mem_singleton.mp hnew
        exact List.rel_of_pairwise_cons hrest hb
    have hsorted' : (nextSegment segment a ++ rest).Pairwise fun a b =>
        a.receivedUs ≤ b.receivedUs := by
      rw [nextSegment]
      split
      · exact hrest.of_cons
      · rwa [List.append_assoc]
    have hlast : (segment ++ [a]).Pairwise fun a b => a.receivedUs ≤ b.receivedUs := by
      rw [List.append_cons] at hsorted
      exact (List.pairwise_append.mp hsorted).1
    rw [marksFrom, List.append_cons,
      ih (spans_nextSegment hnext) getLast_nextSegment hdone' hsorted', hcalls,
      List.forall_mem_append, and_assoc, onTime_concat_iff hdelay hnext hlast, List.filterMap_cons]
    cases (markOf D segment a).ended with
    | none => simp
    | some ended => simp

end Runs

/-- The observations are those of the calls, and all of them are at or before the first byte of
their sentence exactly if no byte within an accepted sentence with valid UTC followed on a silence
and on more than the output delay since the first byte. -/
theorem pairings_onTime_iff (D : Type) [Doubles D] (outputDelayUs : ℤ) (hdelay : 0 ≤ outputDelayUs)
    (receptions : List Reception) (h : Timed receptions) :
    observedBy D outputDelayUs receptions =
      (calls (marks D receptions)).map (observation outputDelayUs) ∧
    ((∀ call ∈ calls (marks D receptions), ∀ beganUs ∈ call.2.timesUs.head?,
        (observation outputDelayUs call).2 ≤ beganUs) ↔
      ∀ ended ∈ (marks D receptions).filterMap Mark.ended, ∀ beganUs ∈ ended.timesUs.head?,
        ∀ restartUs ∈ restarts ended.timesUs, restartUs ≤ beganUs + outputDelayUs) := by
  refine ⟨observedBy_eq D outputDelayUs h, ?_⟩
  have hiff : (∀ call ∈ calls (marks D receptions), OnTime outputDelayUs call) ↔
      (∀ call ∈ calls [], OnTime outputDelayUs call) ∧
        ∀ ended ∈ (marks D receptions).filterMap Mark.ended, Unbroken outputDelayUs ended :=
    @onTime_calls_iff D _ outputDelayUs hdelay (arrivals receptions) [] [] (spans_nil _)
      (fun hnil => absurd rfl hnil) (fun m hm => absurd hm List.not_mem_nil) h.sorted
  exact hiff.trans (and_iff_right fun call hcall => absurd hcall List.not_mem_nil)

/-- A sentence read without an interruption. -/
theorem wholeSentence_onTime :
    observedBy ℚ 0 (readFrom 5000 utcSentence) = [(1789065723000, 5000)] ∧
    (calls (marks ℚ (readFrom 5000 utcSentence))).all
      (fun call => call.2.timesUs.head?.all fun beganUs => (observation 0 call).2 ≤ beganUs) =
      true := by
  have htimed : Timed (readFrom 5000 utcSentence) := ⟨by decide +kernel, by decide +kernel⟩
  obtain ⟨hobserved, honTime⟩ := pairings_onTime_iff ℚ 0 (Int.le_refl 0) _ htimed
  refine ⟨?_, List.all_eq_true.mpr fun call hcall => ?_⟩
  · rw [hobserved]
    decide +kernel
  · have hbegan := honTime.mpr (by decide +kernel) call hcall
    rw [Option.all_eq_true]
    exact fun beganUs h => decide_eq_true (hbegan beganUs h)

/-- A sentence whose first byte is read at 5 ms and which stalls for 60 ms after the tenth: it is
paired with 75 ms. -/
theorem stalledSentence_late :
    Timed (readFrom 5000 (utcSentence.take 10) ++ readFrom 75000 (utcSentence.drop 10)) ∧
    observedBy ℚ 0 (readFrom 5000 (utcSentence.take 10) ++
      readFrom 75000 (utcSentence.drop 10)) = [(1789065723000, 75000)] ∧
    (calls (marks ℚ (readFrom 5000 (utcSentence.take 10) ++
      readFrom 75000 (utcSentence.drop 10)))).map (fun call => call.2.timesUs.head?) =
      [some 5000] :=
  ⟨⟨by decide +kernel, by decide +kernel⟩, by decide +kernel, by decide +kernel⟩

end BajaDaq.LatePairings
