import BajaDaq.GpsReceiver
import BajaDaq.StreamSegments
import BajaDaq.TransitionRuns
import Mathlib.Data.List.GetD

/-!
# The lines of the byte stream

The strings handed to the parser are the segments of the stream between line feeds that fit the
buffer and have no NUL. The reader's buffer, length and overflow flag describe the pending segment.
-/

namespace BajaDaq.LineAssembly
open CStrings GpsReceiver RmcParser StreamSegments TransitionRuns

def lineFeed : UInt8 := '\n'.toUInt8

/-- A segment without one carriage return at its end. -/
def stripReturn (segment : Bytes) : Bytes :=
  if segment.getLast? = some '\r'.toUInt8 then segment.dropLast else segment

/-- The string to be handed over for a segment: none for one with a NUL or of 128 bytes or more. -/
def sentenceOf (segment : Bytes) : Option Bytes :=
  if 0 ∈ segment ∨ 127 < segment.length then none else some (stripReturn segment)

/-- The strings to be handed over for a stream. -/
def sentences (stream : Bytes) : List Bytes := (ended lineFeed stream).filterMap sentenceOf

def receivedByte : Reception → Option UInt8
  | .timeout => none
  | .received byte _ _ => some byte

/-- The byte stream. -/
def streamOf (receptions : List Reception) : Bytes := receptions.filterMap receivedByte

def handedString : Effect → Option Bytes
  | .parse line => some line.bytes
  | _ => none

/-- The strings handed to `gps_rmc_parse`, in order. -/
def handed (s : Reader) : List Bytes := s.effects.filterMap handedString

/-- The reader after a stream. -/
structure Assembles (stream : Bytes) (s : Reader) : Prop where
  buffer : s.line.length = gpsNmeaLineMax
  length_le : s.length ≤ 127
  overflow : s.overflow = true ↔
    0 ∈ pending lineFeed stream ∨ 127 < (pending lineFeed stream).length
  contents : s.overflow = false → s.line.take s.length = pending lineFeed stream
  strings : handed s = sentences stream

theorem assembles_start : Assembles [] start := by
  have hpending : pending lineFeed [] = [] := rfl
  refine ⟨rfl, Nat.zero_le _, ?_, fun _ => rfl, rfl⟩
  rw [hpending]
  simp [start]

theorem sentences_append_lineFeed (stream : Bytes) : sentences (stream ++ [lineFeed]) =
    sentences stream ++ [pending lineFeed stream].filterMap sentenceOf := by
  rw [sentences, ended_append_delimiter, List.filterMap_append, ← sentences]

theorem sentences_append_other {byte : UInt8} (hbyte : byte ≠ lineFeed) (stream : Bytes) :
    sentences (stream ++ [byte]) = sentences stream := by
  rw [sentences, ended_append_other hbyte, ← sentences]

theorem handed_act (s : Reader) (effects : List Effect) :
    handed (s.act effects) = handed s ++ effects.filterMap handedString := List.filterMap_append

/-- The use of a fix hands nothing over and leaves the line alone. -/
theorem emitFix_observeFix (outputDelayUs : ℤ) (s : Reader) (fix : GpsRmcFix)
    (receivedUs sampledUs : ℤ) :
    handed (emitFix (observeFix outputDelayUs s fix) fix receivedUs sampledUs) = handed s ∧
      (emitFix (observeFix outputDelayUs s fix) fix receivedUs sampledUs).line = s.line ∧
      (emitFix (observeFix outputDelayUs s fix) fix receivedUs sampledUs).overflow =
        s.overflow := by
  have hobserve : handed (observeFix outputDelayUs s fix) = handed s ∧
      (observeFix outputDelayUs s fix).line = s.line ∧
      (observeFix outputDelayUs s fix).overflow = s.overflow := by
    unfold observeFix
    split
    · exact ⟨(handed_act s _).trans (List.append_nil _), rfl, rfl⟩
    · exact ⟨rfl, rfl, rfl⟩
  have hemit : ∀ s : Reader, handed (emitFix s fix receivedUs sampledUs) = handed s ∧
      (emitFix s fix receivedUs sampledUs).line = s.line ∧
      (emitFix s fix receivedUs sampledUs).overflow = s.overflow := by
    intro s
    unfold emitFix
    split
    · dsimp only
      split
      · refine ⟨?_, rfl, rfl⟩
        refine (handed_act _ _).trans ((List.append_nil _).trans ?_)
        exact (handed_act s _).trans (List.append_nil _)
      · exact ⟨(handed_act s _).trans (List.append_nil _), rfl, rfl⟩
    · exact ⟨rfl, rfl, rfl⟩
  obtain ⟨hhanded, hline, hoverflow⟩ := hemit (observeFix outputDelayUs s fix)
  exact ⟨hhanded.trans hobserve.1, hline.trans hobserve.2.1, hoverflow.trans hobserve.2.2⟩

theorem storeByte_of_lt {line : Bytes} {i : ℕ} (hi : i < line.length) (byte : UInt8) :
    storeByte line i byte = some (line.set i byte) := if_pos hi

/-- The bytes in front of a byte that is written keep their place. -/
theorem take_set_self {line : Bytes} {i : ℕ} (hi : i < line.length) (byte : UInt8) :
    (line.set i byte).take (i + 1) = line.take i ++ [byte] := by
  rw [List.take_add_one, List.take_set_of_le (Nat.le_refl i), List.getElem?_set_self hi]
  rfl

theorem cString_set_zero {line : Bytes} {i : ℕ} (hi : i < line.length) (h : 0 ∉ line.take i) :
    cString (line.set i 0) = line.take i := by
  rw [List.set_eq_take_append_cons_drop, if_pos hi]
  exact cString_append_zero h _

/-- The length after the carriage return is dropped. -/
theorem take_strippedLength {line : Bytes} {length : ℕ} (hlength : length ≤ line.length) :
    line.take (if length ≠ 0 ∧ byteAt line (length - 1) = '\r'.toUInt8 then length - 1
      else length) = stripReturn (line.take length) := by
  have hlength' := List.length_take_of_le hlength
  have hlast : length ≠ 0 ∧ byteAt line (length - 1) = '\r'.toUInt8 ↔
      (line.take length).getLast? = some '\r'.toUInt8 := by
    rw [List.getLast?_eq_getElem?, hlength']
    rcases Nat.eq_zero_or_pos length with rfl | hpos
    · simp
    · rw [List.getElem?_take_of_lt (by omega), List.getElem?_eq_getElem (by omega), Option.some_inj,
        byteAt, List.getD_eq_getElem _ _ (by omega), and_iff_right hpos.ne']
  rw [stripReturn]
  by_cases hreturn : (line.take length).getLast? = some '\r'.toUInt8
  · rw [if_pos hreturn, if_pos (hlast.mpr hreturn), List.dropLast_eq_take, hlength', List.take_take,
      Nat.min_eq_left (Nat.sub_le length 1)]
  · rw [if_neg hreturn, if_neg (mt hlast.mp hreturn)]

variable {D : Type} [Doubles D] {outputDelayUs : ℤ} {stream : Bytes} {s : Reader}

/-- After a line feed the buffer is empty and the flag is down. -/
theorem assembles_ended (hbuffer : s.line.length = gpsNmeaLineMax) (hlength : s.length = 0)
    (hoverflow : s.overflow = false) (hstrings : handed s = sentences (stream ++ [lineFeed])) :
    Assembles (stream ++ [lineFeed]) s := by
  have hpending := pending_append_delimiter lineFeed stream
  refine ⟨hbuffer, hlength.le.trans (Nat.zero_le 127), ?_, fun _ => ?_, hstrings⟩
  · rw [hoverflow, hpending]
    simp
  · rw [hlength, hpending, List.take_zero]

/-- The string in the buffer is the pending segment without its carriage return. -/
theorem cString_stripped (h : Assembles stream s) (hflag : s.overflow = false) {length : ℕ}
    (hlength : length = if s.length ≠ 0 ∧ byteAt s.line (s.length - 1) = '\r'.toUInt8 then
      s.length - 1 else s.length) (hle : length ≤ s.length) (hroom : s.length < s.line.length) :
    cString (s.line.set length 0) = stripReturn (pending lineFeed stream) := by
  have hwhole := h.contents hflag
  have htake : s.line.take length = stripReturn (pending lineFeed stream) := by
    rw [hlength, take_strippedLength hroom.le, hwhole]
  have hnul : 0 ∉ s.line.take length := by
    intro hzero
    have hlost : s.overflow = true := by
      refine h.overflow.mpr (.inl ?_)
      rw [← hwhole]
      exact List.take_subset_take_left s.line hle hzero
    rw [hflag] at hlost
    exact Bool.noConfusion hlost
  rw [cString_set_zero (Nat.lt_of_le_of_lt hle hroom) hnul, htake]

/-- The strings to be handed over when the line feed comes. -/
theorem sentences_ended (h : Assembles stream s) : sentences (stream ++ [lineFeed]) =
    handed s ++ if s.overflow = true then [] else [stripReturn (pending lineFeed stream)] := by
  rw [sentences_append_lineFeed, h.strings, List.filterMap_cons, sentenceOf]
  by_cases hflag : s.overflow = true
  · rw [if_pos (h.overflow.mp hflag), if_pos hflag]
    rfl
  · rw [if_neg (mt h.overflow.mpr hflag), if_neg hflag]
    rfl

theorem assembles_endLine (h : Assembles stream s) (receivedUs sampledUs : ℤ) :
    ∃ s', endLine D outputDelayUs s receivedUs sampledUs = some s' ∧
      Assembles (stream ++ [lineFeed]) s' := by
  have hsentences := sentences_ended h
  have hbuffer := h.buffer
  have hfits := h.length_le
  obtain ⟨length, hlength⟩ : ∃ length, length = if s.length ≠ 0 ∧
    byteAt s.line (s.length - 1) = '\r'.toUInt8 then s.length - 1 else s.length := ⟨_, rfl⟩
  have hle : length ≤ s.length := by
    rw [hlength]
    split <;> omega
  have hroom : s.length < s.line.length := by
    rw [hbuffer, gpsNmeaLineMax]
    omega
  have hbuffer' : (s.line.set length 0).length = gpsNmeaLineMax := List.length_set.trans hbuffer
  rw [endLine, ← hlength]
  dsimp only
  rw [storeByte_of_lt (Nat.lt_of_le_of_lt hle hroom), Option.map_some]
  refine ⟨_, rfl, ?_⟩
  by_cases hflag : s.overflow = true
  · rw [if_pos hflag]
    refine assembles_ended hbuffer' rfl rfl ?_
    rw [hsentences, if_pos hflag, List.append_nil]
    rfl
  · have hdown : s.overflow = false := Bool.eq_false_iff.mpr hflag
    have hhanded : ∀ s' : Reader, s'.effects = s.effects →
        handed (s'.act [.parse (CString.ofBuffer (s.line.set length 0))]) =
          sentences (stream ++ [lineFeed]) := by
      intro s' heffects
      rw [handed_act, handed, heffects, ← handed, hsentences, if_neg hflag,
        ← cString_stripped h hdown hlength hle hroom]
      rfl
    rw [if_neg hflag]
    split
    · rename_i fix _
      obtain ⟨hsame, hline, hkept⟩ := emitFix_observeFix outputDelayUs
        (Reader.act { s with line := s.line.set length 0, length := length }
          [.parse (CString.ofBuffer (s.line.set length 0))]) fix receivedUs sampledUs
      refine assembles_ended ?_ rfl ?_ ?_
      · exact (congrArg List.length hline).trans hbuffer'
      · exact hkept.trans hdown
      · exact hsame.trans (hhanded _ rfl)
    · exact assembles_ended hbuffer' rfl hdown (hhanded _ rfl)

/-- A flag that is up stays so until the line feed. -/
theorem assembles_overflow (h : Assembles stream s) {byte : UInt8} (hbyte : byte ≠ lineFeed)
    (hlost : s.overflow = true ∨ byte = 0 ∨ 127 ≤ (pending lineFeed stream).length) :
    Assembles (stream ++ [byte]) { s with overflow := true } := by
  have hpending := pending_append_other hbyte stream
  refine ⟨h.buffer, h.length_le, ?_, fun hdown => (Bool.noConfusion hdown), ?_⟩
  · rw [hpending, List.length_append, List.length_singleton]
    refine iff_of_true rfl ?_
    rcases hlost with hflag | rfl | hlong
    · rcases h.overflow.mp hflag with hzero | hlong
      · exact .inl (List.mem_append_left _ hzero)
      · exact .inr (Nat.lt_succ_of_lt hlong)
    · exact .inl (List.mem_append_right _ (List.mem_singleton.mpr rfl))
    · exact .inr (Nat.lt_succ_of_le hlong)
  · exact h.strings.trans (sentences_append_other hbyte stream).symm

theorem length_pending (h : Assembles stream s) (hflag : s.overflow = false) :
    (pending lineFeed stream).length = s.length := by
  have hroom : s.length ≤ s.line.length := by
    rw [h.buffer]
    exact h.length_le.trans (by decide)
  rw [← h.contents hflag, List.length_take_of_le hroom]

theorem assembles_stored (h : Assembles stream s) {byte : UInt8} (hbyte : byte ≠ lineFeed)
    (hzero : byte ≠ 0) (hroom : s.length < 127) : Assembles (stream ++ [byte])
      { s with line := s.line.set s.length byte, length := s.length + 1 } := by
  have hpending := pending_append_other hbyte stream
  have hstore : s.length < s.line.length := by
    rw [h.buffer]
    exact hroom.trans (by decide)
  refine ⟨List.length_set.trans h.buffer, hroom, ?_, ?_, ?_⟩
  · rw [hpending, List.mem_append, List.mem_singleton, List.length_append, List.length_singleton]
    constructor
    · intro hflag
      rcases h.overflow.mp hflag with hnul | hlong
      · exact .inl (.inl hnul)
      · exact .inr (Nat.lt_succ_of_lt hlong)
    · intro hlost
      by_contra hflag
      have hlength := length_pending h (Bool.eq_false_iff.mpr hflag)
      rcases hlost with (hnul | hnul) | hlong
      · exact hflag (h.overflow.mpr (.inl hnul))
      · exact hzero hnul.symm
      · omega
  · intro hflag
    rw [hpending, ← h.contents hflag]
    exact take_set_self hstore byte
  · exact h.strings.trans (sentences_append_other hbyte stream).symm

theorem assembles_handleByte (h : Assembles stream s) (byte : UInt8) (receivedUs sampledUs : ℤ) :
    ∃ s', handleByte D outputDelayUs s byte receivedUs sampledUs = some s' ∧
      Assembles (stream ++ [byte]) s' := by
  rw [handleByte]
  by_cases hbyte : byte = '\n'.toUInt8
  · rw [if_pos hbyte, hbyte]
    exact assembles_endLine h receivedUs sampledUs
  · rw [if_neg hbyte]
    by_cases hzero : byte = 0
    · rw [if_pos hzero]
      exact ⟨_, rfl, assembles_overflow h hbyte (.inr (.inl hzero))⟩
    · rw [if_neg hzero]
      by_cases hroom : s.length < gpsNmeaLineMax - 1
      · have hstore : s.length < s.line.length := by
          rw [h.buffer]
          exact hroom.trans (by decide)
        rw [if_pos hroom, storeByte_of_lt hstore]
        exact ⟨_, rfl, assembles_stored h hbyte hzero hroom⟩
      · rw [if_neg hroom]
        refine ⟨_, rfl, assembles_overflow h hbyte ?_⟩
        by_cases hflag : s.overflow = true
        · exact .inl hflag
        · refine .inr (.inr ?_)
          rw [length_pending h (Bool.eq_false_iff.mpr hflag)]
          exact Nat.not_lt.mp hroom

theorem assembles_readSentences (D : Type) [Doubles D] (outputDelayUs : ℤ)
    (h : Assembles stream s) (reception : Reception) :
    ∃ s', readSentences D outputDelayUs s reception = some s' ∧
      Assembles (stream ++ streamOf [reception]) s' := by
  cases reception with
  | timeout => exact ⟨s, rfl, by rwa [show streamOf [.timeout] = [] from rfl, List.append_nil]⟩
  | received byte receivedUs sampledUs =>
    have hmarked : Assembles stream (markByte s receivedUs) :=
      ⟨h.buffer, h.length_le, h.overflow, h.contents, h.strings⟩
    exact assembles_handleByte hmarked byte receivedUs sampledUs

/-- Every run of the loop has its next state, which is the one for the stream read so far. -/
theorem assembles_exec (D : Type) [Doubles D] (outputDelayUs : ℤ) (receptions : List Reception)
    (h : Assembles stream s) :
    ∃ s', exec (readSentences D outputDelayUs) s receptions = some s' ∧
      Assembles (stream ++ streamOf receptions) s' := by
  induction receptions generalizing stream s with
  | nil => exact ⟨s, rfl, by rwa [show streamOf [] = [] from rfl, List.append_nil]⟩
  | cons reception receptions ih =>
    obtain ⟨next, hstep, hnext⟩ := assembles_readSentences D outputDelayUs h reception
    obtain ⟨s', hexec, hlast⟩ := ih hnext
    refine ⟨s', by rw [exec, hstep, Option.bind_some, hexec], ?_⟩
    rw [List.append_assoc] at hlast
    rwa [show streamOf (reception :: receptions) = streamOf [reception] ++ streamOf receptions from
      List.filterMap_append (l := [reception])]

/-- The strings that a run from the start hands over. -/
def handedBy (D : Type) [Doubles D] (outputDelayUs : ℤ) (receptions : List Reception) :
    List Bytes :=
  (exec (readSentences D outputDelayUs) start receptions).elim [] handed

theorem handedBy_eq (receptions : List Reception) :
    handedBy D outputDelayUs receptions = sentences (streamOf receptions) := by
  obtain ⟨s, hexec, h⟩ := assembles_exec D outputDelayUs receptions assembles_start
  rw [handedBy, hexec]
  exact h.strings

/-- The reader never writes outside its buffer; it hands over exactly the strings of the segments
of the stream, and what it has read up to a line feed has no part in the later ones. -/
theorem readSentences_lines (D : Type) [Doubles D] (outputDelayUs : ℤ)
    (receptions : List Reception) :
    (∃ s, exec (readSentences D outputDelayUs) start receptions = some s ∧
      s.length < s.line.length ∧ s.line.length = 128) ∧
    handedBy D outputDelayUs receptions =
      (ended lineFeed (streamOf receptions)).filterMap sentenceOf ∧
    ∀ earlier, (streamOf earlier).getLast? = some lineFeed →
      handedBy D outputDelayUs (earlier ++ receptions) =
        handedBy D outputDelayUs earlier ++ handedBy D outputDelayUs receptions := by
  refine ⟨?_, handedBy_eq receptions, ?_⟩
  · obtain ⟨s, hexec, h⟩ := assembles_exec D outputDelayUs receptions assembles_start
    have hlength := h.length_le
    have hbuffer : s.line.length = 128 := h.buffer
    exact ⟨s, hexec, by omega, hbuffer⟩
  · intro earlier hlast
    obtain ⟨stream, hstream⟩ := List.getLast?_eq_some_iff.mp hlast
    have hsum : streamOf (earlier ++ receptions) = streamOf earlier ++ streamOf receptions :=
      List.filterMap_append
    rw [handedBy_eq, handedBy_eq, handedBy_eq, hsum, hstream, List.append_assoc,
      List.singleton_append, sentences, ended_append_of_delimiter, List.filterMap_append]
    rfl

end BajaDaq.LineAssembly
