import BajaDaq.BurstObservations
import BajaDaq.ExactTelemetry
import BajaDaq.RmcCorruption
import BajaDaq.SamplePipeline

/-!
# From the bytes of the GPS receiver to the export

The samples that the reader makes of a byte stream, said over the lines of the stream: what a line
reports is read off its text, and what becomes of it is the text of three cells in the export.
-/

namespace BajaDaq.GpsSamples
open AppProtocol BurstObservations CStrings ExactTelemetry GpsReceiver LineAssembly RmcGrammar
open RmcParser SamplePipeline StreamSegments TransitionRuns
open CsvText (fields)
open DecimalText (Text unsignedText signedText scaledText)

def sampleOf : Effect → Option CanMessage
  | .sample message => some message
  | _ => none

/-- The messages handed to the handler, in order. -/
def samples (s : Reader) : List CanMessage := s.effects.filterMap sampleOf

/-- The time at which the samples of a line are stamped. -/
def endOf : Reception → Option ℤ
  | .timeout => none
  | .received byte _ sampledUs => if byte = lineFeed then some sampledUs else none

/-- The lines of the stream, each with the time for its samples. -/
def endedLines (receptions : List Reception) : List (Bytes × ℤ) :=
  (ended lineFeed (streamOf receptions)).zip (receptions.filterMap endOf)

/-- `(uint32_t)(esp_timer_get_time() / 1000)`. -/
def stampMs (sampledUs : ℤ) : UInt32 := UInt32.ofInt (sampledUs.tdiv 1000)

/-- The fix of a line that makes samples. -/
def locatedFix : Bool × Option GpsRmcFix → Option GpsRmcFix
  | (true, some fix) => if fix.hasLocation ∧ fix.hasSpeed then some fix else none
  | _ => none

section Reader
variable (D : Type) [Doubles D]

def fixOf (segment : Bytes) : Option GpsRmcFix :=
  (sentenceOf segment).bind fun line =>
    locatedFix (gpsRmcParse D (some (CString.ofBuffer line)) (some clearedFix))

/-- `emit_sample` without the handler. -/
def message (id : UInt32) (value : ℤ) (timestampMs : UInt32) : CanMessage :=
  ⟨id, 8, timestampMs.toUInt64 <<< 32 ||| (UInt32.ofInt value).toUInt64⟩

def messagesOf (timestampMs : UInt32) (fix : GpsRmcFix) : List CanMessage :=
  [message canIdGpsSpeed fix.speedKphX100 timestampMs,
    message canIdGpsLatitude fix.latitudeE7 timestampMs,
    message canIdGpsLongitude fix.longitudeE7 timestampMs]

def batchOf (line : Bytes × ℤ) : List CanMessage :=
  (fixOf D line.1).elim [] (messagesOf (stampMs line.2))

end Reader

structure Report where
  speedKphX100 : ℤ
  latitudeE7 : ℤ
  longitudeE7 : ℤ
  deriving DecidableEq

def Report.ofFix (fix : GpsRmcFix) : Report := ⟨fix.speedKphX100, fix.latitudeE7, fix.longitudeE7⟩

def partOf (body : Bytes) (i : ℕ) : Bytes := (segments body).getD i []

/-- The line is a sentence with a position and a speed, and these are they. -/
structure Reports (segment : Bytes) (report : Report) : Prop where
  sentence : ∃ line body, sentenceOf segment = some line ∧ RmcSentence line body ∧
    IsCoordinate true (partOf body 3) (partOf body 4) report.latitudeE7 ∧
    IsCoordinate false (partOf body 5) (partOf body 6) report.longitudeE7 ∧
    IsSpeed (partOf body 7) report.speedKphX100

/-- Any row that the export makes of the message has these cells. -/
structure Shows (message : CanMessage) (id timestampMs : UInt32) (value : Text) : Prop where
  dlc : message.dlc = 8
  row : ∀ queuedUtcMs index utcMs,
    (fields (exportedRow ⟨message, queuedUtcMs⟩ index utcMs))[1]? = some (unsignedText id.toNat) ∧
    (fields (exportedRow ⟨message, queuedUtcMs⟩ index utcMs))[5]? =
      some (unsignedText timestampMs.toNat) ∧
    (fields (exportedRow ⟨message, queuedUtcMs⟩ index utcMs))[7]? = some value

/-- The three samples of a report. -/
inductive ShownAs (report : Report) (timestampMs : UInt32) : List CanMessage → Prop where
  | intro {speed latitude longitude : CanMessage}
      (hspeed : Shows speed canIdGpsSpeed timestampMs (scaledText 2 report.speedKphX100))
      (hlatitude : Shows latitude canIdGpsLatitude timestampMs (signedText report.latitudeE7))
      (hlongitude : Shows longitude canIdGpsLongitude timestampMs
        (signedText report.longitudeE7)) :
      ShownAs report timestampMs [speed, latitude, longitude]

/-- What becomes of a line. -/
inductive Yields (line : Bytes × ℤ) : List CanMessage → Prop where
  | samples {report : Report} {batch : List CanMessage} (h : Reports line.1 report)
      (hbatch : ShownAs report (stampMs line.2) batch) : Yields line batch
  | nothing (h : ¬ ∃ report, Reports line.1 report) : Yields line []

theorem samples_act (s : Reader) (effects : List Effect) :
    samples (s.act effects) = samples s ++ effects.filterMap sampleOf := List.filterMap_append

theorem samples_observeFix (outputDelayUs : ℤ) (s : Reader) (fix : GpsRmcFix) :
    samples (observeFix outputDelayUs s fix) = samples s := by
  unfold observeFix
  split
  · exact (samples_act s _).trans (List.append_nil _)
  · rfl

theorem samples_emitFix (s : Reader) (fix : GpsRmcFix) (receivedUs sampledUs : ℤ) :
    samples (emitFix s fix receivedUs sampledUs) = samples s ++
      if fix.hasLocation = true ∧ fix.hasSpeed = true then messagesOf (stampMs sampledUs) fix
      else [] := by
  unfold emitFix
  split
  · dsimp only
    split
    · refine (samples_act _ _).trans ((List.append_nil _).trans ?_)
      exact samples_act s _
    · exact samples_act s _
  · exact (List.append_nil _).symm

theorem locatedFix_of_rejected {result : Bool × Option GpsRmcFix}
    (h : ∀ fix, result = (true, some fix) → False) : locatedFix result = none := by
  unfold locatedFix
  split
  next fix => exact (h fix rfl).elim
  next => rfl

section Reader
variable {D : Type} [Doubles D] {outputDelayUs : ℤ} {stream : Bytes} {s s' : Reader}

/-- The samples of a line feed are those of the line that it ends. -/
theorem samples_endLine (h : Assembles stream s) {receivedUs sampledUs : ℤ}
    (hs : endLine D outputDelayUs s receivedUs sampledUs = some s') :
    samples s' = samples s ++ batchOf D (pending lineFeed stream, sampledUs) := by
  obtain ⟨length, hlength⟩ : ∃ length, length = if s.length ≠ 0 ∧
    byteAt s.line (s.length - 1) = '\r'.toUInt8 then s.length - 1 else s.length := ⟨_, rfl⟩
  have hle : length ≤ s.length := by
    rw [hlength]
    split <;> omega
  have hroom : s.length < s.line.length := by
    have hfits := h.length_le
    rw [h.buffer, gpsNmeaLineMax]
    omega
  rw [endLine, ← hlength] at hs
  obtain ⟨line, hline, rfl⟩ := Option.map_eq_some_iff.mp hs
  obtain ⟨-, rfl⟩ := storeByte_eq_some hline
  by_cases hflag : s.overflow = true
  · have hnone : fixOf D (pending lineFeed stream) = none := by
      rw [fixOf, sentenceOf, if_pos (h.overflow.mp hflag), Option.bind_none]
    simp [hflag, hnone, batchOf, samples]
  · have hstring := ofBuffer_eq
      (cString_stripped h (Bool.eq_false_iff.mpr hflag) hlength hle hroom)
    have hparsed : ∀ t : Reader, t.effects = s.effects → samples
        (t.act [.parse (CString.ofBuffer (s.line.set length 0))]) = samples s := by
      intro t ht
      rw [samples_act, samples, ht]
      exact List.append_nil _
    have hfix : fixOf D (pending lineFeed stream) = locatedFix (gpsRmcParse D
        (some (CString.ofBuffer (s.line.set length 0))) (some clearedFix)) := by
      rw [fixOf, sentenceOf, if_neg (mt h.overflow.mpr hflag), Option.bind_some, ← hstring]
    rw [batchOf, hfix]
    dsimp only
    rw [if_neg hflag]
    split
    next fix hresult =>
      have hemitted := samples_emitFix (observeFix outputDelayUs
        (Reader.act { s with line := s.line.set length 0, length := length }
          [.parse (CString.ofBuffer (s.line.set length 0))]) fix) fix receivedUs sampledUs
      rw [samples_observeFix] at hemitted
      refine hemitted.trans ((congrArg (· ++ _) (hparsed _ rfl)).trans (congrArg _ ?_))
      rw [hresult, locatedFix]
      split <;> rfl
    next hother =>
      rw [locatedFix_of_rejected hother]
      exact (hparsed _ rfl).trans (List.append_nil _).symm

theorem samples_handleByte {byte : UInt8} (hbyte : byte ≠ lineFeed) {receivedUs sampledUs : ℤ}
    (hs : handleByte D outputDelayUs s byte receivedUs sampledUs = some s') :
    samples s' = samples s := by
  have hother : byte ≠ '\n'.toUInt8 := hbyte
  rw [handleByte, if_neg hother] at hs
  split_ifs at hs
  · obtain rfl := Option.some.inj hs
    rfl
  · obtain ⟨line, -, rfl⟩ := Option.map_eq_some_iff.mp hs
    rfl
  · obtain rfl := Option.some.inj hs
    rfl

/-- Every line has one time. -/
theorem length_ends (receptions : List Reception) :
    (receptions.filterMap endOf).length = (ended lineFeed (streamOf receptions)).length := by
  induction receptions using List.reverseRecOn with
  | nil => rfl
  | append_singleton receptions reception ih =>
    have hstream : streamOf (receptions ++ [reception]) = streamOf receptions ++
        streamOf [reception] := List.filterMap_append
    rw [List.filterMap_append, List.length_append, ih, hstream]
    cases reception with
    | timeout =>
      rw [show streamOf [.timeout] = [] from rfl, List.append_nil]
      rfl
    | received byte receivedUs sampledUs =>
      rw [show streamOf [.received byte receivedUs sampledUs] = [byte] from rfl]
      by_cases hbyte : byte = lineFeed
      · have hend : [Reception.received byte receivedUs sampledUs].filterMap endOf =
            [sampledUs] := by
          simp [endOf, hbyte]
        rw [hend, hbyte, ended_append_delimiter, List.length_append]
        rfl
      · have hend : [Reception.received byte receivedUs sampledUs].filterMap endOf = [] := by
          simp [endOf, hbyte]
        rw [hend, ended_append_other hbyte]
        rfl

theorem endedLines_lineFeed (receptions : List Reception) (receivedUs sampledUs : ℤ) :
    endedLines (receptions ++ [.received lineFeed receivedUs sampledUs]) =
      endedLines receptions ++ [(pending lineFeed (streamOf receptions), sampledUs)] := by
  have hstream : streamOf (receptions ++ [.received lineFeed receivedUs sampledUs]) =
      streamOf receptions ++ [lineFeed] := List.filterMap_append
  have hends : (receptions ++ [Reception.received lineFeed receivedUs sampledUs]).filterMap endOf =
      receptions.filterMap endOf ++ [sampledUs] := List.filterMap_append
  rw [endedLines, hstream, hends, ended_append_delimiter,
    List.zip_append (length_ends receptions).symm]
  rfl

theorem endedLines_other (receptions : List Reception) {reception : Reception}
    (h : ∀ receivedUs sampledUs, reception ≠ .received lineFeed receivedUs sampledUs) :
    endedLines (receptions ++ [reception]) = endedLines receptions := by
  have hstream : streamOf (receptions ++ [reception]) = streamOf receptions ++
      streamOf [reception] := List.filterMap_append
  rw [endedLines, hstream, List.filterMap_append, endedLines]
  cases reception with
  | timeout =>
    rw [show streamOf [.timeout] = [] from rfl, List.append_nil,
      show [Reception.timeout].filterMap endOf = [] from rfl, List.append_nil]
  | received byte receivedUs sampledUs =>
    have hbyte : byte ≠ lineFeed := by
      rintro rfl
      exact h receivedUs sampledUs rfl
    rw [show streamOf [.received byte receivedUs sampledUs] = [byte] from rfl,
      ended_append_other hbyte]
    simp [endOf, hbyte]

/-- The samples after some bytes. -/
structure Sampled (D : Type) [Doubles D] (receptions : List Reception) (s : Reader) : Prop where
  lines : Assembles (streamOf receptions) s
  samples : samples s = (endedLines receptions).flatMap (batchOf D)

theorem sampled_readSentences {receptions : List Reception} (h : Sampled D receptions s)
    (outputDelayUs : ℤ) (reception : Reception) :
    ∃ s', readSentences D outputDelayUs s reception = some s' ∧
      Sampled D (receptions ++ [reception]) s' := by
  have hstream : streamOf (receptions ++ [reception]) = streamOf receptions ++
      streamOf [reception] := List.filterMap_append
  obtain ⟨s', hs, hlines⟩ := assembles_readSentences D outputDelayUs h.lines reception
  rw [← hstream] at hlines
  refine ⟨s', hs, hlines, ?_⟩
  cases reception with
  | timeout =>
    obtain rfl := Option.some.inj hs
    rw [endedLines_other receptions (by simp), h.samples]
  | received byte receivedUs sampledUs =>
    have hmarked : Assembles (streamOf receptions) (markByte s receivedUs) :=
      ⟨h.lines.buffer, h.lines.length_le, h.lines.overflow, h.lines.contents, h.lines.strings⟩
    have hsame : GpsSamples.samples (markByte s receivedUs) =
        (endedLines receptions).flatMap (batchOf D) := h.samples
    by_cases hbyte : byte = lineFeed
    · obtain rfl := hbyte
      have hnew := samples_endLine hmarked hs
      rw [hnew, hsame, endedLines_lineFeed, List.flatMap_append, List.flatMap_singleton]
    · rw [samples_handleByte hbyte hs, hsame, endedLines_other receptions]
      rintro _ _ ⟨⟩
      exact hbyte rfl

theorem sampled_exec (D : Type) [Doubles D] (outputDelayUs : ℤ) (receptions : List Reception) :
    ∃ s, exec (readSentences D outputDelayUs) start receptions = some s ∧
      Sampled D receptions s := by
  have hfrom : ∀ (later earlier : List Reception) (s : Reader), Sampled D earlier s →
      ∃ s', exec (readSentences D outputDelayUs) s later = some s' ∧
        Sampled D (earlier ++ later) s' := by
    intro later
    induction later with
    | nil => exact fun earlier s h => ⟨s, rfl, by rwa [List.append_nil]⟩
    | cons reception later ih =>
      intro earlier s h
      obtain ⟨next, hstep, hnext⟩ := sampled_readSentences h outputDelayUs reception
      obtain ⟨s', hexec, hlast⟩ := ih _ next hnext
      refine ⟨s', by rw [exec, hstep, Option.bind_some, hexec], ?_⟩
      rwa [List.append_assoc] at hlast
  exact hfrom receptions [] start ⟨assembles_start, rfl⟩

end Reader

theorem fields_storeAll {line body : Bytes} (h : RmcSentence line body) {i : ℕ} (hi : i < 10) :
    fieldAt (storeAll (segments body) 0 emptyFields) i = partOf body i :=
  fieldAt_storeAll (fun _ => zero_notMem_segment h.printable) h.short
    (Nat.lt_of_lt_of_le hi h.enough) hi

/-- A coordinate or a speed has at least one digit. -/
theorem ne_nil_of_isDecimal {text whole fraction : Bytes}
    (h : DecimalNumbers.IsDecimal text whole fraction) : text ≠ [] := by
  rw [h.text_eq]
  exact List.append_ne_nil_of_left_ne_nil h.nonempty _

theorem ne_nil_of_isCoordinate {latitude : Bool} {text hemisphere : Bytes} {e7 : ℤ}
    (h : IsCoordinate latitude text hemisphere e7) : text ≠ [] := by
  obtain ⟨whole, fraction, hdecimal, -⟩ := h
  exact ne_nil_of_isDecimal hdecimal

theorem ne_nil_of_isSpeed {text : Bytes} {v : ℤ} (h : IsSpeed text v) : text ≠ [] := by
  obtain ⟨whole, fraction, hdecimal, -⟩ := h
  exact ne_nil_of_isDecimal hdecimal

theorem locatedFix_eq_some_iff {result : Bool × Option GpsRmcFix} {fix : GpsRmcFix} :
    locatedFix result = some fix ↔
      result = (true, some fix) ∧ fix.hasLocation = true ∧ fix.hasSpeed = true := by
  constructor
  · intro h
    unfold locatedFix at h
    split at h
    next other =>
      split at h
      next hfix =>
        obtain rfl := Option.some.inj h
        exact ⟨rfl, hfix⟩
      next => cases h
    next => cases h
  · rintro ⟨rfl, hfix⟩
    exact if_pos hfix

theorem bytes_of_sentenceOf {segment line : Bytes} (h : sentenceOf segment = some line) :
    (CString.ofBuffer line).bytes = line := by
  unfold sentenceOf at h
  split at h
  next => cases h
  next hkept =>
    obtain rfl := Option.some.inj h
    refine cString_of_notMem fun hnul => hkept (.inl ?_)
    rw [stripReturn] at hnul
    split at hnul
    · exact (List.dropLast_subset segment) hnul
    · exact hnul

/-- Whatever the UTC fields hold, the others alone make a fix with a position and a speed. -/
theorem exists_isFix_iff {fields : Fields} {report : Report} :
    (∃ fix, IsFix fields fix ∧ fix.hasLocation = true ∧ fix.hasSpeed = true ∧
      Report.ofFix fix = report) ↔
    IsCoordinate true (fieldAt fields 3) (fieldAt fields 4) report.latitudeE7 ∧
      IsCoordinate false (fieldAt fields 5) (fieldAt fields 6) report.longitudeE7 ∧
      IsSpeed (fieldAt fields 7) report.speedKphX100 := by
  constructor
  · rintro ⟨fix, ⟨hlocated, hmoving, -⟩, hlocation, hspeed, rfl⟩
    rw [hlocation] at hlocated
    rw [hspeed] at hmoving
    split at hlocated
    next =>
      split at hmoving
      next => exact ⟨hlocated.1, hlocated.2.1, hmoving.1⟩
      next => exact Bool.noConfusion hmoving.2
    next => exact Bool.noConfusion hlocated.2.2
  · rintro ⟨hlatitude, hlongitude, hspeed⟩
    obtain ⟨utcMs, hutcMs⟩ : ∃ utcMs, utcMs = parseUtc (fieldAt fields 1) (fieldAt fields 9) :=
      ⟨_, rfl⟩
    refine ⟨⟨utcMs.getD 0, report.latitudeE7, report.longitudeE7, report.speedKphX100, true,
      true, utcMs.isSome⟩, ⟨?_, ?_, ?_⟩, rfl, rfl, rfl⟩
    · rw [if_pos (.inl (ne_nil_of_isCoordinate hlatitude))]
      exact ⟨hlatitude, hlongitude, rfl⟩
    · rw [if_pos (ne_nil_of_isSpeed hspeed)]
      exact ⟨hspeed, rfl⟩
    · rw [← hutcMs]
      cases utcMs with
      | none => exact ⟨rfl, rfl⟩
      | some ms => exact ⟨rfl, rfl⟩

theorem exists_isFix_stored {line body : Bytes} (h : RmcSentence line body) {report : Report} :
    (∃ fix, IsFix (storeAll (segments body) 0 emptyFields) fix ∧ fix.hasLocation = true ∧
      fix.hasSpeed = true ∧ Report.ofFix fix = report) ↔
    IsCoordinate true (partOf body 3) (partOf body 4) report.latitudeE7 ∧
      IsCoordinate false (partOf body 5) (partOf body 6) report.longitudeE7 ∧
      IsSpeed (partOf body 7) report.speedKphX100 := by
  rw [exists_isFix_iff, fields_storeAll h (show 3 < 10 by decide),
    fields_storeAll h (show 4 < 10 by decide), fields_storeAll h (show 5 < 10 by decide),
    fields_storeAll h (show 6 < 10 by decide), fields_storeAll h (show 7 < 10 by decide)]

/-- In exact arithmetic the fix of a line is what its text reports. -/
theorem fixOf_iff {segment : Bytes} {report : Report} :
    (∃ fix, fixOf ℚ segment = some fix ∧ Report.ofFix fix = report) ↔ Reports segment report := by
  constructor
  · rintro ⟨fix, hfix, hreport⟩
    obtain ⟨line, hline, hlocated⟩ := Option.bind_eq_some_iff.mp hfix
    obtain ⟨hresult, hlocation, hspeed⟩ := locatedFix_eq_some_iff.mp hlocated
    obtain ⟨body, hsentence⟩ := RmcCorruption.sentence_of_accepted hresult
    have hfields := fieldsFromRmc_eq_some_iff.mpr ⟨body, hsentence, rfl⟩
    rw [gpsRmcParse_fields hfields] at hresult
    rw [bytes_of_sentenceOf hline] at hsentence
    have hread := (exists_isFix_stored hsentence).mp ⟨fix, hresult, hlocation, hspeed, hreport⟩
    exact ⟨line, body, hline, hsentence, hread⟩
  · rintro ⟨line, body, hline, hsentence, hread⟩
    obtain ⟨fix, hfix, hlocation, hspeed, hreport⟩ := (exists_isFix_stored hsentence).mpr hread
    rw [← bytes_of_sentenceOf hline] at hsentence
    have hfields := fieldsFromRmc_eq_some_iff.mpr ⟨body, hsentence, rfl⟩
    have hresult := (gpsRmcParse_fields hfields clearedFix fix).mpr hfix
    exact ⟨fix, Option.bind_eq_some_iff.mpr ⟨line, hline,
      locatedFix_eq_some_iff.mpr ⟨hresult, hlocation, hspeed⟩⟩, hreport⟩

theorem natAbs_lt_of_isCoordinate {latitude : Bool} {text hemisphere : Bytes} {e7 : ℤ}
    (h : IsCoordinate latitude text hemisphere e7) : e7.natAbs < 2 ^ 31 := by
  have hbound := abs_le_of_isCoordinate h
  have hmaximum : axisMaximum latitude ≤ 180 := by cases latitude <;> decide
  rw [Int.abs_eq_natAbs] at hbound
  omega

theorem natAbs_lt_of_isSpeed {text : Bytes} {v : ℤ} (h : IsSpeed text v) : v.natAbs < 2 ^ 31 := by
  have hbounds := bounds_of_isSpeed h
  omega

/-- The message as the node of a sensor would have packed it. -/
theorem message_eq (id : UInt32) (value : ℤ) (timestampMs : UInt32) :
    message id value timestampMs =
      ⟨id, 8, packed ⟨id, timestampMs.toInt32, Int32.ofInt value⟩⟩ := by
  rw [message, packed, UInt32.toUInt32_toInt32, toUInt32_int32_ofInt]

theorem shows_message {id : UInt32} (hid : id.toNat < 2 ^ 11) {value : ℤ}
    (hvalue : value.natAbs < 2 ^ 31) (timestampMs : UInt32) :
    Shows (message id value timestampMs) id timestampMs
      (if id = canIdGpsSpeed then scaledText 2 value else signedText value) := by
  obtain ⟨sample, hsample⟩ : ∃ sample : Sample,
    sample = ⟨id, timestampMs.toInt32, Int32.ofInt value⟩ := ⟨_, rfl⟩
  have hmessage : message id value timestampMs = receiveCallback (sendTask sample) := by
    rw [receiveCallback_sendTask, hsample]
    exact message_eq id value timestampMs
  refine ⟨rfl, ?_⟩
  intro queuedUtcMs index utcMs
  have hsignal : (record sample).signal = id.toNat := by
    rw [hsample]
    exact Nat.mod_eq_of_lt hid
  have htime : (record sample).time = timestampMs.toNat := by
    rw [time_record, hsample, UInt32.toUInt32_toInt32]
  have hshown : (record sample).value = value := by
    rw [value_record, hsample]
    exact Int32.toInt_ofInt_of_le (by simp; omega) (by simp; omega)
  have hrow := DecoderParity.rowText_eq index.toNat index.toNat_lt utcMs (record sample)
  have hfields := DecoderParity.fields_row index.toNat utcMs (record sample)
  rw [UInt64.ofNat_toNat] at hrow
  rw [hmessage, exportedRow, recordWords_sendTask, hrow, hfields]
  refine ⟨?_, ?_, ?_⟩
  · rw [← hsignal]
    rfl
  · rw [← htime]
    rfl
  · change some (if (record sample).signal = canIdGpsSpeed.toNat then
      scaledText 2 (record sample).value else signedText (record sample).value) = _
    simp only [hsignal, hshown, UInt32.toNat_inj]

theorem shownAs_messagesOf {segment : Bytes} {fix : GpsRmcFix}
    (h : Reports segment (Report.ofFix fix)) (timestampMs : UInt32) :
    ShownAs (Report.ofFix fix) timestampMs (messagesOf timestampMs fix) := by
  obtain ⟨line, body, -, -, hlatitude, hlongitude, hspeed⟩ := h
  refine ⟨?_, ?_, ?_⟩
  · have hshows := @shows_message canIdGpsSpeed (by decide) _ (natAbs_lt_of_isSpeed hspeed)
      timestampMs
    rwa [if_pos rfl] at hshows
  · have hshows := @shows_message canIdGpsLatitude (by decide) _
      (natAbs_lt_of_isCoordinate hlatitude) timestampMs
    rwa [if_neg (by decide)] at hshows
  · have hshows := @shows_message canIdGpsLongitude (by decide) _
      (natAbs_lt_of_isCoordinate hlongitude) timestampMs
    rwa [if_neg (by decide)] at hshows

theorem yields_batchOf (line : Bytes × ℤ) : Yields line (batchOf ℚ line) := by
  rw [batchOf]
  cases hfix : fixOf ℚ line.1 with
  | none =>
    refine .nothing ?_
    rintro ⟨report, hreport⟩
    obtain ⟨fix, hsome, -⟩ := fixOf_iff.mpr hreport
    rw [hfix] at hsome
    cases hsome
  | some fix =>
    have hreports := fixOf_iff.mp ⟨fix, hfix, rfl⟩
    exact .samples hreports (shownAs_messagesOf hreports _)

/-- For any bytes at any times the reader goes on, and its samples are, line by line, the three
of what the line reports: in the export their cells are its time and the printed numbers. -/
theorem samples_of_stream (outputDelayUs : ℤ) (receptions : List Reception) :
    ∃ s batches, exec (readSentences ℚ outputDelayUs) start receptions = some s ∧
      samples s = batches.flatten ∧ List.Forall₂ Yields (endedLines receptions) batches := by
  obtain ⟨s, hexec, h⟩ := sampled_exec ℚ outputDelayUs receptions
  refine ⟨s, (endedLines receptions).map (batchOf ℚ), hexec, ?_, ?_⟩
  · rw [h.samples, List.flatMap_def]
  · rw [List.forall₂_map_right_iff, List.forall₂_same]
    exact fun line _ => yields_batchOf line

/-- 48.1173° N, 11.5166667° W and 18.52 km/h, two seconds after the start. -/
example : (exec (readSentences ℚ 0) start ((positionSentence.bytes ++
    ['\r'.toUInt8, lineFeed]).map (.received · 1 2000000))).map samples =
      some [message canIdGpsSpeed 1852 2000, message canIdGpsLatitude 481173000 2000,
        message canIdGpsLongitude (-115166667) 2000] := by
  decide +kernel

end BajaDaq.GpsSamples
