import BajaDaq.LineAssembly
import BajaDaq.ListBursts

/-!
# The observations of the clock, burst by burst

The reader keeps the start of the burst and a zero once it is used. The rule below is said over
the bytes of the stream: a burst gives one observation, of the first sentence that ends in it.
-/

namespace BajaDaq.BurstObservations
open CStrings GpsReceiver LineAssembly ListBursts RmcParser StreamSegments TransitionRuns

/-- A byte and the time at which it was read. -/
structure Arrival where
  byte : UInt8
  receivedUs : ℤ
  deriving DecidableEq

def arrivalOf : Reception → Option Arrival
  | .timeout => none
  | .received byte receivedUs _ => some ⟨byte, receivedUs⟩

def arrivals (receptions : List Reception) : List Arrival := receptions.filterMap arrivalOf

/-- The UTC of an accepted sentence and the times of its bytes, up to the line feed. -/
structure Ended where
  utcMs : ℤ
  timesUs : List ℤ
  deriving DecidableEq

/-- A byte that has been read, with the sentence that it ends. -/
structure Mark where
  receivedUs : ℤ
  ended : Option Ended
  deriving DecidableEq

def validUtc : Bool × Option GpsRmcFix → Option ℤ
  | (true, some fix) => if fix.hasUtc then some fix.utcMs else none
  | _ => none

section Marks
variable (D : Type) [Doubles D]

/-- The UTC of a segment that is an accepted sentence with valid UTC. -/
def utcOf (segment : Bytes) : Option ℤ :=
  (sentenceOf segment).bind fun line =>
    validUtc (gpsRmcParse D (some (CString.ofBuffer line)) (some clearedFix))

/-- The mark of a byte behind the pending segment. -/
def markOf (segment : List Arrival) (a : Arrival) : Mark where
  receivedUs := a.receivedUs
  ended := if a.byte = lineFeed then
      (utcOf D (segment.map Arrival.byte)).map fun utcMs =>
        ⟨utcMs, (segment ++ [a]).map Arrival.receivedUs⟩
    else none

def nextSegment (segment : List Arrival) (a : Arrival) : List Arrival :=
  if a.byte = lineFeed then [] else segment ++ [a]

/-- The marks of the bytes that follow on a pending segment. -/
def marksFrom (segment : List Arrival) : List Arrival → List Mark
  | [] => []
  | a :: rest => markOf D segment a :: marksFrom (nextSegment segment a) rest

def marks (receptions : List Reception) : List Mark := marksFrom D [] (arrivals receptions)

end Marks

/-- Less than 50 ms lie between two bytes. -/
def close (a b : Mark) : Bool := decide (b.receivedUs - a.receivedUs < gpsBurstGapUs)

def bursts (marks : List Mark) : List (List Mark) := marks.splitBy close

/-- The first byte of a burst and the first sentence that ends in it. -/
def callOf (burst : List Mark) : Option (Mark × Ended) :=
  burst.head?.bind fun first => (burst.findSome? Mark.ended).map fun ended => (first, ended)

def calls (marks : List Mark) : List (Mark × Ended) := (bursts marks).filterMap callOf

/-- The arguments of `absolute_clock_observe_utc`. -/
def observation (outputDelayUs : ℤ) (call : Mark × Ended) : ℤ × ℤ :=
  (call.2.utcMs, call.1.receivedUs - outputDelayUs)

def observedPair : Effect → Option (ℤ × ℤ)
  | .observeUtc utcMs measuredAtUs => some (utcMs, measuredAtUs)
  | _ => none

/-- The calls of `absolute_clock_observe_utc`, in order. -/
def observed (s : Reader) : List (ℤ × ℤ) := s.effects.filterMap observedPair

/-- The first byte of the last burst, as long as no sentence has ended in it. -/
def openStart (marks : List Mark) : Option Mark :=
  (bursts marks).getLast?.bind fun burst => if (callOf burst).isSome then none else burst.head?

/-- The same after a byte has been read, before the sentence that it ends. -/
def started (marks : List Mark) (m : Mark) : Option Mark :=
  if ∃ last ∈ marks.getLast?, close last m = true then openStart marks else some m

/-- Only the first sentence of a burst counts. -/
theorem callOf_concat {burst : List Mark} (h : burst ≠ []) (m : Mark) :
    callOf (burst ++ [m]) = if (callOf burst).isSome then callOf burst
      else burst.head?.bind fun first => m.ended.map fun ended => (first, ended) := by
  obtain ⟨first, rest, rfl⟩ := List.exists_cons_of_ne_nil h
  rw [callOf, callOf, List.head?_append_of_ne_nil _ h, List.findSome?_append]
  cases (first :: rest).findSome? Mark.ended with
  | none => simp
  | some ended => simp

theorem callOf_singleton (m : Mark) : callOf [m] = m.ended.map fun ended => (m, ended) := by
  cases hended : m.ended <;> simp [callOf, hended]

/-- What a byte adds to the calls, and the start of the burst after it. -/
theorem calls_concat (marks : List Mark) (m : Mark) :
    calls (marks ++ [m]) = calls marks ++
        ((started marks m).bind fun first => m.ended.map fun ended => (first, ended)).toList ∧
      openStart (marks ++ [m]) = if m.ended.isSome then none else started marks m := by
  by_cases hclose : ∃ last ∈ marks.getLast?, close last m = true
  · obtain ⟨latest, hlatest, hm⟩ := hclose
    have hmarks : marks ≠ [] := by
      rintro rfl
      simp at hlatest
    obtain ⟨front, last, hbursts, hlast, hend⟩ := exists_last_burst close hmarks
    have hnext : bursts (marks ++ [m]) = front ++ [last ++ [m]] := by
      refine splitBy_concat_of_close hlast hbursts ?_
      rw [← hend, List.getLast?_eq_some_getLast hlast, Option.mem_some] at hlatest
      rw [hlatest]
      exact hm
    have hopen : started marks m = if (callOf last).isSome then none else last.head? := by
      rw [started, if_pos ⟨latest, hlatest, hm⟩, openStart, bursts, hbursts]
      simp
    obtain ⟨first, hfirst⟩ : ∃ first, last.head? = some first := by
      rw [List.head?_eq_some_head hlast]
      exact ⟨_, rfl⟩
    rw [calls, calls, openStart, hnext, bursts, hbursts, hopen, List.filterMap_append,
      List.filterMap_append, List.append_assoc, List.getLast?_concat, Option.bind_some,
      List.filterMap_cons, List.filterMap_cons, callOf_concat hlast,
      List.head?_append_of_ne_nil _ hlast, hfirst]
    cases hcall : callOf last with
    | some call => simp
    | none => cases hended : m.ended <;> simp
  · have hfar : ∀ last ∈ marks.getLast?, close last m = false := by
      intro last hlast
      exact Bool.eq_false_iff.mpr fun hm => hclose ⟨last, hlast, hm⟩
    have hnext : bursts (marks ++ [m]) = bursts marks ++ [[m]] := splitBy_concat_of_far hfar
    rw [calls, calls, openStart, hnext, started, if_neg hclose, List.filterMap_append,
      List.getLast?_concat, Option.bind_some, List.filterMap_cons]
    cases hended : m.ended <;> simp [callOf_singleton, hended]

theorem mem_of_openStart {marks : List Mark} {first : Mark} (h : openStart marks = some first) :
    first ∈ marks := by
  obtain ⟨burst, hburst, hfirst⟩ := Option.bind_eq_some_iff.mp h
  have hhead : burst.head? = some first := by
    split at hfirst
    · cases hfirst
    · exact hfirst
  rw [← List.flatten_splitBy close marks]
  exact List.mem_flatten.mpr ⟨burst, List.mem_of_getLast? hburst, List.mem_of_head? hhead⟩

/-- The reader after some bytes, of which those behind the last line feed are `segment`. -/
structure Follows (outputDelayUs : ℤ) (stream : Bytes) (done : List Mark)
    (segment : List Arrival) (s : Reader) : Prop where
  lines : Assembles stream s
  segment : segment.map Arrival.byte = pending lineFeed stream
  positive : ∀ m ∈ done, 0 < m.receivedUs
  observed : observed s = (calls done).map (observation outputDelayUs)
  previous : s.previousByteUs = (done.getLast?.map Mark.receivedUs).getD 0
  burst : s.burstStartUs = ((openStart done).map Mark.receivedUs).getD 0

theorem follows_start (outputDelayUs : ℤ) : Follows outputDelayUs [] [] [] start :=
  ⟨assembles_start, rfl, by simp, rfl, rfl, rfl⟩

theorem storeByte_eq_some {line line' : Bytes} {i : ℕ} {byte : UInt8}
    (h : storeByte line i byte = some line') : i < line.length ∧ line' = line.set i byte := by
  unfold storeByte at h
  split at h
  · rename_i hi
    exact ⟨hi, (Option.some.inj h).symm⟩
  · cases h

theorem ofBuffer_eq {buffer text : Bytes} (h : cString buffer = text) :
    CString.ofBuffer buffer = CString.ofBuffer text := by
  have hnul : 0 ∉ text := h ▸ zero_notMem_cString buffer
  simp [CString.ofBuffer, h, cString_of_notMem hnul]

theorem observed_act (s : Reader) (effects : List Effect) :
    observed (s.act effects) = observed s ++ effects.filterMap observedPair := List.filterMap_append

/-- Samples and lines in the log are no observations. -/
theorem observed_emitFix (s : Reader) (fix : GpsRmcFix) (receivedUs sampledUs : ℤ) :
    observed (emitFix s fix receivedUs sampledUs) = observed s ∧
      (emitFix s fix receivedUs sampledUs).burstStartUs = s.burstStartUs ∧
      (emitFix s fix receivedUs sampledUs).previousByteUs = s.previousByteUs := by
  unfold emitFix
  split
  · dsimp only
    split
    · refine ⟨?_, rfl, rfl⟩
      refine (observed_act _ _).trans ((List.append_nil _).trans ?_)
      exact (observed_act s _).trans (List.append_nil _)
    · exact ⟨(observed_act s _).trans (List.append_nil _), rfl, rfl⟩
  · exact ⟨rfl, rfl, rfl⟩

theorem validUtc_of_rejected {result : Bool × Option GpsRmcFix}
    (h : ∀ fix, result = (true, some fix) → False) : validUtc result = none := by
  unfold validUtc
  split
  · rename_i fix
    exact (h fix rfl).elim
  · rfl

/-- A valid UTC in a burst that is not used up yet. -/
theorem observed_observeFix (outputDelayUs : ℤ) (s : Reader) (fix : GpsRmcFix) :
    observed (observeFix outputDelayUs s fix) = observed s ++
        (if fix.hasUtc = true ∧ s.burstStartUs ≠ 0 then
          [(fix.utcMs, s.burstStartUs - outputDelayUs)] else []) ∧
      (observeFix outputDelayUs s fix).burstStartUs =
        (if fix.hasUtc = true then 0 else s.burstStartUs) ∧
      (observeFix outputDelayUs s fix).previousByteUs = s.previousByteUs := by
  unfold observeFix
  by_cases hused : fix.hasUtc = true ∧ s.burstStartUs ≠ 0
  · rw [if_pos hused, if_pos hused, if_pos hused.1]
    exact ⟨observed_act s _, rfl, rfl⟩
  · rw [if_neg hused, if_neg hused, List.append_nil]
    refine ⟨rfl, ?_, rfl⟩
    split
    · rename_i hutc
      exact not_not.mp fun hzero => hused ⟨hutc, hzero⟩
    · rfl

section Reader
variable {D : Type} [Doubles D] {outputDelayUs : ℤ} {stream : Bytes} {s s' : Reader}

/-- The observation of a line feed: of the sentence that it ends, at the start of the burst. -/
theorem endLine_observed (h : Assembles stream s) {receivedUs sampledUs : ℤ}
    (hs : endLine D outputDelayUs s receivedUs sampledUs = some s') :
    observed s' = observed s ++ (if s.burstStartUs = 0 then [] else
        ((utcOf D (pending lineFeed stream)).map fun utcMs =>
          (utcMs, s.burstStartUs - outputDelayUs)).toList) ∧
      s'.burstStartUs = (if (utcOf D (pending lineFeed stream)).isSome then 0
        else s.burstStartUs) ∧
      s'.previousByteUs = s.previousByteUs := by
  obtain ⟨length, hlength⟩ : ∃ length, length = if s.length ≠ 0 ∧
    byteAt s.line (s.length - 1) = '\r'.toUInt8 then s.length - 1 else s.length := ⟨_, rfl⟩
  have hle : length ≤ s.length := by
    rw [hlength]
    split <;> omega
  have hroom : s.length < s.line.length := by
    have hfits := h.length_le
    rw [h.buffer, gpsNmeaLineMax]
    omega
  rw [endLine, ← hlength] at hs
  obtain ⟨line, hline, rfl⟩ := Option.map_eq_some_iff.mp hs
  obtain ⟨-, rfl⟩ := storeByte_eq_some hline
  by_cases hflag : s.overflow = true
  · have hnone : utcOf D (pending lineFeed stream) = none := by
      rw [utcOf, sentenceOf, if_pos (h.overflow.mp hflag), Option.bind_none]
    simp [hflag, hnone, observed]
  · have hstring := ofBuffer_eq
      (cString_stripped h (Bool.eq_false_iff.mpr hflag) hlength hle hroom)
    have hparsed : ∀ t : Reader, t.effects = s.effects → observed
        (t.act [.parse (CString.ofBuffer (s.line.set length 0))]) = observed s := by
      intro t ht
      rw [observed_act, observed, ht]
      exact List.append_nil _
    rw [utcOf, sentenceOf, if_neg (mt h.overflow.mpr hflag), Option.bind_some, ← hstring]
    dsimp only
    rw [if_neg hflag]
    split
    · rename_i fix hfix
      obtain ⟨hsame, hkept, hprevious⟩ := observed_emitFix (observeFix outputDelayUs
        (Reader.act { s with line := s.line.set length 0, length := length }
          [.parse (CString.ofBuffer (s.line.set length 0))]) fix) fix receivedUs sampledUs
      obtain ⟨hnew, hused, hlast⟩ := observed_observeFix outputDelayUs
        (Reader.act { s with line := s.line.set length 0, length := length }
          [.parse (CString.ofBuffer (s.line.set length 0))]) fix
      have hnew' := hnew.trans (congrArg (· ++ _) (hparsed _ rfl))
      refine ⟨hsame.trans (hnew'.trans ?_), hkept.trans (hused.trans ?_), hprevious.trans hlast⟩
      · change observed s ++ (if fix.hasUtc = true ∧ s.burstStartUs ≠ 0 then
          [(fix.utcMs, s.burstStartUs - outputDelayUs)] else []) = _
        rw [hfix, validUtc]
        by_cases hutc : fix.hasUtc = true <;> by_cases hzero : s.burstStartUs = 0 <;>
          simp [hutc, hzero]
      · change (if fix.hasUtc = true then 0 else s.burstStartUs) = _
        rw [hfix, validUtc]
        by_cases hutc : fix.hasUtc = true <;> simp [hutc]
    · rename_i hother
      rw [validUtc_of_rejected hother]
      exact ⟨(hparsed _ rfl).trans (by simp), rfl, rfl⟩

/-- Within a line nothing is observed. -/
theorem handleByte_observed {byte : UInt8} (hbyte : byte ≠ lineFeed) {receivedUs sampledUs : ℤ}
    (hs : handleByte D outputDelayUs s byte receivedUs sampledUs = some s') :
    observed s' = observed s ∧ s'.burstStartUs = s.burstStartUs ∧
      s'.previousByteUs = s.previousByteUs := by
  have hother : byte ≠ '\n'.toUInt8 := hbyte
  rw [handleByte, if_neg hother] at hs
  split_ifs at hs
  · obtain rfl := Option.some.inj hs
    exact ⟨rfl, rfl, rfl⟩
  · obtain ⟨line, -, rfl⟩ := Option.map_eq_some_iff.mp hs
    exact ⟨rfl, rfl, rfl⟩
  · obtain rfl := Option.some.inj hs
    exact ⟨rfl, rfl, rfl⟩

variable {done : List Mark} {segment : List Arrival}

/-- The start of the burst once a byte has been timed. -/
theorem burstStartUs_markByte (h : Follows outputDelayUs stream done segment s) (m : Mark) :
    (markByte s m.receivedUs).burstStartUs = ((started done m).map Mark.receivedUs).getD 0 := by
  have hnew : startsNewBurst m.receivedUs s.previousByteUs = true ↔
      ¬ ∃ last ∈ done.getLast?, close last m = true := by
    rw [startsNewBurst, h.previous]
    cases hlast : done.getLast? with
    | none => simp
    | some last =>
      have hpositive := h.positive last (List.mem_of_getLast? hlast)
      simp [close, hpositive.ne']
  rw [markByte, started]
  dsimp only
  by_cases hclose : ∃ last ∈ done.getLast?, close last m = true
  · rw [if_pos hclose, if_neg (fun hstart => hnew.mp hstart hclose), h.burst]
  · rw [if_neg hclose, if_pos (hnew.mpr hclose)]
    rfl

theorem mem_of_started {m first : Mark} (h : started done m = some first) :
    first ∈ done ++ [m] := by
  unfold started at h
  split at h
  · exact List.mem_append_left _ (mem_of_openStart h)
  · obtain rfl := Option.some.inj h
    simp

theorem follows_received (h : Follows outputDelayUs stream done segment s) (a : Arrival)
    (sampledUs : ℤ) (ha : 0 < a.receivedUs) :
    ∃ s', readSentences D outputDelayUs s (.received a.byte a.receivedUs sampledUs) = some s' ∧
      Follows outputDelayUs (stream ++ [a.byte]) (done ++ [markOf D segment a])
        (nextSegment segment a) s' := by
  have hmarked : Assembles stream (markByte s a.receivedUs) :=
    ⟨h.lines.buffer, h.lines.length_le, h.lines.overflow, h.lines.contents, h.lines.strings⟩
  obtain ⟨s', hs, hlines⟩ :=
    @assembles_handleByte D _ outputDelayUs _ _ hmarked a.byte a.receivedUs sampledUs
  refine ⟨s', hs, ?_⟩
  have hburst := burstStartUs_markByte h (markOf D segment a)
  have hpositive : ∀ m ∈ done ++ [markOf D segment a], 0 < m.receivedUs := by
    intro m hm
    rcases List.mem_append.mp hm with hold | hnew
    · exact h.positive m hold
    · obtain rfl := List.mem_singleton.mp hnew
      exact ha
  obtain ⟨hcalls, hopen⟩ := calls_concat done (markOf D segment a)
  have hsame : observed (markByte s a.receivedUs) = (calls done).map (observation outputDelayUs) :=
    h.observed
  have hlast : ((done ++ [markOf D segment a]).getLast?.map Mark.receivedUs).getD 0 =
      a.receivedUs := by
    rw [List.getLast?_concat]
    rfl
  by_cases hbyte : a.byte = lineFeed
  · have hended : (markOf D segment a).ended =
        (utcOf D (pending lineFeed stream)).map fun utcMs =>
          ⟨utcMs, (segment ++ [a]).map Arrival.receivedUs⟩ := by
      rw [← h.segment]
      exact if_pos hbyte
    have hline : endLine D outputDelayUs (markByte s a.receivedUs) a.receivedUs sampledUs =
        some s' := by
      rw [← hs, handleByte]
      exact (if_pos hbyte).symm
    obtain ⟨hobserved, hused, hprevious⟩ := endLine_observed hmarked hline
    have hstart : (markByte s a.receivedUs).burstStartUs =
        ((started done (markOf D segment a)).map Mark.receivedUs).getD 0 := hburst
    refine ⟨hlines, ?_, hpositive, ?_, ?_, ?_⟩
    · rw [nextSegment, if_pos hbyte, hbyte, pending_append_delimiter]
      rfl
    · rw [hobserved, hsame, hcalls, hended, hstart]
      cases hfirst : started done (markOf D segment a) with
      | none => simp
      | some first =>
        have hne : first.receivedUs ≠ 0 := (hpositive first (mem_of_started hfirst)).ne'
        cases utcOf D (pending lineFeed stream) <;> simp [hne, observation]
    · rw [hprevious, hlast]
      rfl
    · rw [hused, hopen, hended, hstart]
      cases utcOf D (pending lineFeed stream) <;> simp
  · obtain ⟨hobserved, hkept, hprevious⟩ := handleByte_observed hbyte hs
    have hended : (markOf D segment a).ended = none := if_neg hbyte
    refine ⟨hlines, ?_, hpositive, ?_, ?_, ?_⟩
    · rw [nextSegment, if_neg hbyte, pending_append_other hbyte, ← h.segment, List.map_append]
      rfl
    · rw [hobserved, hsame, hcalls, hended]
      cases started done (markOf D segment a) <;> simp
    · rw [hprevious, hlast]
      rfl
    · rw [hkept, hopen, hended]
      exact hburst

theorem follows_exec (D : Type) [Doubles D] (outputDelayUs : ℤ) (receptions : List Reception)
    (h : Follows outputDelayUs stream done segment s)
    (hpositive : ∀ a ∈ arrivals receptions, 0 < a.receivedUs) :
    ∃ s' segment', exec (readSentences D outputDelayUs) s receptions = some s' ∧
      Follows outputDelayUs (stream ++ streamOf receptions)
        (done ++ marksFrom D segment (arrivals receptions)) segment' s' := by
  induction receptions generalizing stream done segment s with
  | nil =>
    refine ⟨s, segment, rfl, ?_⟩
    rwa [show streamOf [] = [] from rfl, show arrivals [] = [] from rfl, marksFrom,
      List.append_nil, List.append_nil]
  | cons reception receptions ih =>
    cases reception with
    | timeout => exact ih h hpositive
    | received byte receivedUs sampledUs =>
      obtain ⟨hfirst, hrest⟩ := List.forall_mem_cons.mp hpositive
      obtain ⟨next, hstep, hnext⟩ :=
        @follows_received D _ outputDelayUs _ _ _ _ h ⟨byte, receivedUs⟩ sampledUs hfirst
      obtain ⟨s', segment', hexec, hlast⟩ := ih hnext hrest
      refine ⟨s', segment', by rw [exec, hstep, Option.bind_some, hexec], ?_⟩
      rw [List.append_assoc, List.append_assoc] at hlast
      exact hlast

end Reader

/-- The read times are positive and do not decrease. -/
structure Timed (receptions : List Reception) : Prop where
  positive : ∀ a ∈ arrivals receptions, 0 < a.receivedUs
  sorted : (arrivals receptions).Pairwise fun a b => a.receivedUs ≤ b.receivedUs

/-- The calls of `absolute_clock_observe_utc` that a run from the start makes. -/
def observedBy (D : Type) [Doubles D] (outputDelayUs : ℤ) (receptions : List Reception) :
    List (ℤ × ℤ) :=
  (exec (readSentences D outputDelayUs) start receptions).elim [] observed

theorem observedBy_eq (D : Type) [Doubles D] (outputDelayUs : ℤ) {receptions : List Reception}
    (h : Timed receptions) :
    observedBy D outputDelayUs receptions =
      (calls (marks D receptions)).map (observation outputDelayUs) := by
  obtain ⟨s, segment, hexec, hfollows⟩ :=
    follows_exec D outputDelayUs receptions (follows_start outputDelayUs) h.positive
  rw [observedBy, hexec]
  exact hfollows.observed

theorem map_receivedUs_marksFrom (D : Type) [Doubles D] (segment rest : List Arrival) :
    (marksFrom D segment rest).map Mark.receivedUs = rest.map Arrival.receivedUs := by
  induction rest generalizing segment with
  | nil => rfl
  | cons a rest ih => rw [marksFrom, List.map_cons, ih, List.map_cons, markOf]

theorem Timed.marks {D : Type} [Doubles D] {receptions : List Reception} (h : Timed receptions) :
    (marks D receptions).Pairwise fun a b => a.receivedUs ≤ b.receivedUs := by
  have hsorted : ((arrivals receptions).map Arrival.receivedUs).Pairwise (· ≤ ·) :=
    List.pairwise_map.mpr h.sorted
  rw [← map_receivedUs_marksFrom D []] at hsorted
  exact List.pairwise_map.mp hsorted

/-- Each burst in which an accepted sentence with valid UTC ends gives one observation, of the
first of them and at the start of the burst, and the uptimes of the observations increase. -/
theorem observations_of_bursts (D : Type) [Doubles D] (outputDelayUs : ℤ)
    (receptions : List Reception) (h : Timed receptions) :
    observedBy D outputDelayUs receptions =
      ((bursts (marks D receptions)).filterMap callOf).map (observation outputDelayUs) ∧
    ((observedBy D outputDelayUs receptions).map Prod.snd).Pairwise (· < ·) := by
  refine ⟨observedBy_eq D outputDelayUs h, ?_⟩
  have hfar : ∀ a b : Mark, close a b = false → a.receivedUs < b.receivedUs := by
    intro a b hab
    have hgap : ¬ b.receivedUs - a.receivedUs < gpsBurstGapUs := of_decide_eq_false hab
    rw [gpsBurstGapUs] at hgap
    omega
  have hheads := pairwise_heads (h.marks (D := D)) hfar
  rw [observedBy_eq D outputDelayUs h, List.map_map, List.pairwise_map]
  refine hheads.filterMap callOf ?_
  intro burst burst' hlt call hcall call' hcall'
  obtain ⟨first, hfirst, hended⟩ := Option.bind_eq_some_iff.mp hcall
  obtain ⟨first', hfirst', hended'⟩ := Option.bind_eq_some_iff.mp hcall'
  obtain ⟨-, -, rfl⟩ := Option.map_eq_some_iff.mp hended
  obtain ⟨-, -, rfl⟩ := Option.map_eq_some_iff.mp hended'
  exact Int.sub_lt_sub_right (hlt first hfirst first' hfirst') outputDelayUs

/-- 18:42:03 on 10 September 2026, without a position and a speed. -/
def utcSentence : Bytes :=
  ['$', 'G', 'P', 'R', 'M', 'C', ',', '1', '8', '4', '2', '0', '3', ',', 'A', ',', ',', ',', ',',
    ',', ',', ',', '1', '0', '0', '9', '2', '6', '*', '2', '6', '\r', '\n'].map Char.toUInt8

/-- Bytes that are read one after the other, 1 ms apart. -/
def readFrom (receivedUs : ℤ) (bytes : Bytes) : List Reception :=
  bytes.mapIdx fun i byte => .received byte (receivedUs + 1000 * i) 0

/-- Three sentences in two bursts. -/
theorem threeSentences_observed :
    observedBy ℚ 700 (readFrom 5000 (utcSentence ++ utcSentence) ++ readFrom 205000 utcSentence) =
      [(1789065723000, 4300), (1789065723000, 204300)] := by
  have htimed : Timed (readFrom 5000 (utcSentence ++ utcSentence) ++
      readFrom 205000 utcSentence) := ⟨by decide +kernel, by decide +kernel⟩
  rw [(observations_of_bursts ℚ 700 _ htimed).1]
  decide +kernel

end BajaDaq.BurstObservations
