import BajaDaq.DecoderParity
import BajaDaq.TracedBuffers

/-!
# The buffers of the two exports

`stream_paired_csv` and `stream_csv` with a trace of the texts that they format. The values are
those of `PairedCsv` and `FullCsv`; here it is shown that nothing is cut in a buffer, whatever the
records and the companion hold.
-/

namespace BajaDaq.ExportBuffers
open AppProtocol CivilDates DecimalText FixedItems TracedBuffers
open LogFiles (recordSize)
open PairedCsv (EspErr Request RecordFile Held httpdRespSendChunk recordWords readUtcMs
  sampleAtOrBefore dateFormat)

def formatAbsoluteTime (utcMs : ℤ) (size : ℕ) : Traced Text :=
  if utcMs ≤ 0 then pure []
  else ((gmtimeR (utcMs / 1000).toNat).bind (strftime 24 dateFormat)).elim (pure []) (fun date =>
    printed size (date ++ '.' :: paddedText 3 (utcMs % 1000).toNat ++ ['Z']))

/-- The text of a held value in its buffer, which is empty without one. -/
def heldText (shown : Prop) [Decidable shown] (size : ℕ) (text : Text) : Traced Text :=
  if shown then printed size text else pure []

def pairedRow (held : Held) (utcMs : ℤ) (timestamp : UInt32) (value : Int32) :
    Traced (Text × ℕ) := do
  let brakeText ← heldText (held.haveBrake ∧ sampleAtOrBefore timestamp held.brakeTimestamp ∧
    timestamp - held.brakeTimestamp ≤ 100) 16 (signedText held.brakePressure.toInt)
  let speedText ← heldText (held.haveSpeed ∧ sampleAtOrBefore timestamp held.speedTimestamp)
    16 (scaledText 2 held.speedX100.toInt)
  let latitudeText ← heldText
    (held.haveLatitude ∧ sampleAtOrBefore timestamp held.latitudeTimestamp)
    24 (scaledText 7 held.latitudeE7.toInt)
  let longitudeText ← heldText
    (held.haveLongitude ∧ sampleAtOrBefore timestamp held.longitudeTimestamp)
    24 (scaledText 7 held.longitudeE7.toInt)
  let absoluteTime ← formatAbsoluteTime utcMs 32
  snprintf 256 (unsignedText timestamp.toNat ++ ',' :: absoluteTime ++ ',' :: brakeText ++
    ',' :: signedText held.bearingRpm.toInt ++ ',' :: signedText value.toInt ++
    ',' :: latitudeText ++ ',' :: longitudeText ++ ',' :: speedText ++ ['\r', '\n'])

def exportPairedRecord (e : PairedCsv.Export) (record : UInt64 × UInt64) :
    Traced (PairedCsv.Export × EspErr) :=
  let utc := readUtcMs e.utcFile
  let e := { e with utcFile := utc.2 }
  let canId := record.1.toUInt32 &&& 0x7ff
  let timestamp := (record.2 >>> 32).toUInt32
  let value := record.2.toUInt32.toInt32
  if canId = canIdFrontBrake then
    pure ({ e with held := { e.held with
        brakeTimestamp := timestamp, brakePressure := value, haveBrake := true } }, .ok)
  else if canId = canIdBearingEncoder then
    pure ({ e with held := { e.held with
        bearingTimestamp := timestamp, bearingRpm := value, haveBearing := true } }, .ok)
  else if canId = canIdGpsSpeed then
    pure ({ e with held := { e.held with
        speedTimestamp := timestamp, speedX100 := value, haveSpeed := true } }, .ok)
  else if canId = canIdGpsLatitude then
    pure ({ e with held := { e.held with
        latitudeTimestamp := timestamp, latitudeE7 := value, haveLatitude := true } }, .ok)
  else if canId = canIdGpsLongitude then
    pure ({ e with held := { e.held with
        longitudeTimestamp := timestamp, longitudeE7 := value, haveLongitude := true } }, .ok)
  else if canId ≠ canIdEngineRpm ∨ !e.held.haveBearing ∨
      !sampleAtOrBefore timestamp e.held.bearingTimestamp ∨
      timestamp - e.held.bearingTimestamp > 100 then pure (e, .ok)
  else do
    let row ← pairedRow e.held utc.1 timestamp value
    if 256 ≤ row.2 then return (e, .fail)
    else
      let sent := httpdRespSendChunk e.request row.1
      return ({ e with request := sent.1 }, sent.2)

def exportPairedRecords (e : PairedCsv.Export) : List (List UInt8) →
    Traced (PairedCsv.Export × EspErr)
  | [] => pure (e, .ok)
  | record :: records => do
    let next ← exportPairedRecord e (recordWords record)
    if next.2 = .ok then exportPairedRecords next.1 records else return next

def streamPairedCsv (request : Request) (file : RecordFile) (utcFile : Option (List UInt8)) :
    Traced (Request × EspErr) :=
  let start := httpdRespSendChunk request PairedCsv.header
  if start.2 ≠ .ok then pure (start.1, .fail)
  else do
    let loop ← exportPairedRecords ⟨start.1, utcFile, .start⟩ (items recordSize file.bytes)
    if loop.2 ≠ .ok then return (loop.1.request, .fail)
    else if file.readError then return (loop.1.request, .fail)
    else return httpdRespSendChunk loop.1.request []

theorem value_formatAbsoluteTime (utcMs : ℤ) (size : ℕ) :
    value (formatAbsoluteTime utcMs size) = PairedCsv.formatAbsoluteTime utcMs size := by
  unfold formatAbsoluteTime PairedCsv.formatAbsoluteTime
  rw [value_ite]
  cases (gmtimeR (utcMs / 1000).toNat).bind (strftime 24 dateFormat) with
  | none => rfl
  | some date => rfl

theorem value_heldText (shown : Prop) [Decidable shown] (size : ℕ) (text : Text) :
    value (heldText shown size text) =
      if shown then (DecimalText.snprintf size text).1 else [] :=
  value_ite _ _ _

theorem value_pairedRow (held : Held) (utcMs : ℤ) (timestamp : UInt32) (value : Int32) :
    TracedBuffers.value (pairedRow held utcMs timestamp value) =
      DecimalText.snprintf 256 (PairedCsv.rowText held utcMs timestamp value) := by
  simp only [pairedRow, value_bind, value_snprintf, value_heldText, value_formatAbsoluteTime]
  rfl

/-- The trace does not change what the export does. -/
theorem value_exportPairedRecord (e : PairedCsv.Export) (record : UInt64 × UInt64) :
    value (exportPairedRecord e record) = PairedCsv.exportRecord e record := by
  simp only [exportPairedRecord, PairedCsv.exportRecord, value_ite, value_pure, value_bind,
    value_pairedRow]

theorem value_exportPairedRecords (records : List (List UInt8)) (e : PairedCsv.Export) :
    value (exportPairedRecords e records) = PairedCsv.exportRecords e records := by
  induction records generalizing e with
  | nil => rfl
  | cons record records ih =>
    simp only [exportPairedRecords, PairedCsv.exportRecords, value_bind, value_ite, value_pure,
      value_exportPairedRecord, ih]

theorem value_streamPairedCsv (request : Request) (file : RecordFile)
    (utcFile : Option (List UInt8)) :
    value (streamPairedCsv request file utcFile) =
      PairedCsv.streamPairedCsv request file utcFile := by
  simp only [streamPairedCsv, PairedCsv.streamPairedCsv, value_ite, value_pure, value_bind,
    value_exportPairedRecords]

theorem whole_formatAbsoluteTime (utcMs : ℤ) : Whole (formatAbsoluteTime utcMs 32) := by
  unfold formatAbsoluteTime
  refine whole_ite (fun _ => whole_pure _) fun _ => ?_
  cases h : (gmtimeR (utcMs / 1000).toNat).bind (strftime 24 dateFormat) with
  | none => exact whole_pure _
  | some date =>
    obtain ⟨tm, -, hdate⟩ := Option.bind_eq_some_iff.mp h
    obtain ⟨hshort, hsome⟩ := Option.ite_none_right_eq_some.mp hdate
    obtain rfl := Option.some.inj hsome
    have hms : (paddedText 3 (utcMs % 1000).toNat).length = 3 :=
      length_paddedText (by omega) (by omega)
    refine (whole_printed _ _).mpr ?_
    rw [List.length_append, List.length_append, List.length_cons, hms, List.length_singleton]
    omega

theorem natAbs_toInt_lt (v : Int32) : v.toInt.natAbs < 10 ^ 10 := by
  have hlow := v.le_toInt
  have hhigh := v.toInt_lt
  omega

theorem whole_heldText {shown : Prop} [Decidable shown] {size : ℕ} {text : Text}
    (h : text.length < size) : Whole (heldText shown size text) :=
  whole_ite (fun _ => (whole_printed _ _).mpr h) fun _ => whole_pure _

/-- Whatever is held, the buffer bounds what it shows. -/
theorem length_cell_le (shown : Prop) [Decidable shown] (size : ℕ) (text : Text) :
    (if shown then (DecimalText.snprintf size text).1 else []).length ≤ size - 1 := by
  split
  · exact List.length_take_le _ _
  · exact Nat.zero_le _

/-- A row fits in its buffer with any values, also such that no log holds. -/
theorem length_pairedText_lt (held : Held) (utcMs : ℤ) (timestamp : UInt32) (value : Int32) :
    (PairedCsv.rowText held utcMs timestamp value).length < 256 := by
  have htimestamp := timestamp.toNat_lt
  have htime := (length_unsignedText_le (n := timestamp.toNat) (k := 10) (by omega)).mpr (by omega)
  have habsolute := DecoderParity.length_formatAbsoluteTime_le utcMs
  have hbearing := length_signedText_lt (natAbs_toInt_lt held.bearingRpm)
  have hvalue := length_signedText_lt (natAbs_toInt_lt value)
  have hbrake := length_cell_le (held.haveBrake ∧ sampleAtOrBefore timestamp held.brakeTimestamp ∧
    timestamp - held.brakeTimestamp ≤ 100) 16 (signedText held.brakePressure.toInt)
  have hspeed := length_cell_le
    (held.haveSpeed ∧ sampleAtOrBefore timestamp held.speedTimestamp)
    16 (scaledText 2 held.speedX100.toInt)
  have hlatitude := length_cell_le
    (held.haveLatitude ∧ sampleAtOrBefore timestamp held.latitudeTimestamp)
    24 (scaledText 7 held.latitudeE7.toInt)
  have hlongitude := length_cell_le
    (held.haveLongitude ∧ sampleAtOrBefore timestamp held.longitudeTimestamp)
    24 (scaledText 7 held.longitudeE7.toInt)
  simp only [PairedCsv.rowText, List.length_append, List.length_cons, List.length_nil]
  omega

theorem whole_pairedRow (held : Held) (utcMs : ℤ) (timestamp : UInt32) (value : Int32) :
    Whole (pairedRow held utcMs timestamp value) := by
  have hbrake := length_signedText_lt (natAbs_toInt_lt held.brakePressure)
  have hspeed := length_scaledText_lt (p := 2) (by omega) (by omega)
    (natAbs_toInt_lt held.speedX100)
  have hlatitude := length_scaledText_lt (p := 7) (by omega) (by omega)
    (natAbs_toInt_lt held.latitudeE7)
  have hlongitude := length_scaledText_lt (p := 7) (by omega) (by omega)
    (natAbs_toInt_lt held.longitudeE7)
  simp only [pairedRow, whole_bind, whole_snprintf, value_heldText, value_formatAbsoluteTime]
  refine ⟨whole_heldText (by omega), whole_heldText (by omega), whole_heldText (by omega),
    whole_heldText (by omega), whole_formatAbsoluteTime utcMs, ?_⟩
  exact length_pairedText_lt held utcMs timestamp value

theorem whole_exportPairedRecord (e : PairedCsv.Export) (record : UInt64 × UInt64) :
    Whole (exportPairedRecord e record) := by
  unfold exportPairedRecord
  refine whole_ite (fun _ => whole_pure _) fun _ => whole_ite (fun _ => whole_pure _) fun _ =>
    whole_ite (fun _ => whole_pure _) fun _ => whole_ite (fun _ => whole_pure _) fun _ =>
    whole_ite (fun _ => whole_pure _) fun _ => whole_ite (fun _ => whole_pure _) fun _ => ?_
  refine (whole_bind _ _).mpr ⟨whole_pairedRow _ _ _ _, ?_⟩
  exact whole_ite (fun _ => whole_pure _) fun _ => whole_pure _

theorem whole_exportPairedRecords (records : List (List UInt8)) (e : PairedCsv.Export) :
    Whole (exportPairedRecords e records) := by
  induction records generalizing e with
  | nil => exact whole_pure _
  | cons record records ih =>
    refine (whole_bind _ _).mpr ⟨whole_exportPairedRecord _ _, ?_⟩
    exact whole_ite (fun _ => ih _) fun _ => whole_pure _

/-- The powertrain export cuts nothing, for any files. -/
theorem whole_streamPairedCsv (request : Request) (file : RecordFile)
    (utcFile : Option (List UInt8)) : Whole (streamPairedCsv request file utcFile) := by
  refine whole_ite (fun _ => whole_pure _) fun _ => ?_
  refine (whole_bind _ _).mpr ⟨whole_exportPairedRecords _ _, ?_⟩
  exact whole_ite (fun _ => whole_pure _) fun _ =>
    whole_ite (fun _ => whole_pure _) fun _ => whole_pure _

def valueText (canId : UInt32) (value : Int32) : Traced Text :=
  if canId = canIdGpsSpeed then printed 32 (scaledText 2 value.toInt)
  else printed 32 (signedText value.toInt)

def fullRow (sampleIndex : UInt64) (utcMs : ℤ) (record : UInt64 × UInt64) :
    Traced (Text × ℕ) := do
  let absoluteTime ← formatAbsoluteTime utcMs 32
  let canId := record.1.toUInt32 &&& 0x7ff
  let packed := record.2
  let value := (packed &&& 0xffffffff).toUInt32.toInt32
  let timestamp := (packed >>> 32).toUInt32
  let metadata := FullCsv.metadataFor canId
  let signal := metadata.elim [] FullCsv.SignalMetadata.signal
  let node := metadata.elim [] FullCsv.SignalMetadata.node
  let units := metadata.elim "raw".toList FullCsv.SignalMetadata.units
  let valueText ← valueText canId value
  let units := if canId = canIdGpsSpeed then "km/h".toList else units
  snprintf 256 (unsignedText sampleIndex.toNat ++ ',' :: unsignedText canId.toNat ++
    ',' :: '0' :: 'x' :: hexText 3 canId.toNat ++ ',' :: signal ++ ',' :: node ++
    ',' :: unsignedText timestamp.toNat ++ ',' :: absoluteTime ++ ',' :: valueText ++
    ',' :: units ++ ',' :: unsignedText packed.toNat ++ ['\r', '\n'])

def exportFullRecord (e : FullCsv.Export) (record : UInt64 × UInt64) :
    Traced (FullCsv.Export × EspErr) := do
  let utc := readUtcMs e.utcFile
  let row ← fullRow e.sampleIndex utc.1 record
  let e := { e with utcFile := utc.2, sampleIndex := e.sampleIndex + 1 }
  if 256 ≤ row.2 then return (e, .fail)
  else
    let sent := httpdRespSendChunk e.request row.1
    return ({ e with request := sent.1 }, sent.2)

def exportFullRecords (e : FullCsv.Export) : List (List UInt8) → Traced (FullCsv.Export × EspErr)
  | [] => pure (e, .ok)
  | record :: records => do
    let next ← exportFullRecord e (recordWords record)
    if next.2 = .ok then exportFullRecords next.1 records else return next

def streamCsv (request : Request) (file : RecordFile) (utcFile : Option (List UInt8)) :
    Traced (Request × EspErr) :=
  let start := httpdRespSendChunk request FullCsv.header
  if start.2 ≠ .ok then pure (start.1, .fail)
  else do
    let loop ← exportFullRecords ⟨start.1, utcFile, 0⟩ (items recordSize file.bytes)
    if loop.2 ≠ .ok then return (loop.1.request, .fail)
    else if file.readError then return (loop.1.request, .fail)
    else return httpdRespSendChunk loop.1.request []

theorem value_fullRow (sampleIndex : UInt64) (utcMs : ℤ) (record : UInt64 × UInt64) :
    value (fullRow sampleIndex utcMs record) =
      DecimalText.snprintf 256 (FullCsv.rowText sampleIndex utcMs record) := by
  simp only [fullRow, valueText, value_bind, value_snprintf, value_ite, value_printed,
    value_formatAbsoluteTime]
  rfl

theorem value_exportFullRecord (e : FullCsv.Export) (record : UInt64 × UInt64) :
    value (exportFullRecord e record) = FullCsv.exportRecord e record := by
  simp only [exportFullRecord, FullCsv.exportRecord, value_ite, value_pure, value_bind,
    value_fullRow]

theorem value_exportFullRecords (records : List (List UInt8)) (e : FullCsv.Export) :
    value (exportFullRecords e records) = FullCsv.exportRecords e records := by
  induction records generalizing e with
  | nil => rfl
  | cons record records ih =>
    simp only [exportFullRecords, FullCsv.exportRecords, value_bind, value_ite, value_pure,
      value_exportFullRecord, ih]

theorem value_streamCsv (request : Request) (file : RecordFile) (utcFile : Option (List UInt8)) :
    value (streamCsv request file utcFile) = FullCsv.streamCsv request file utcFile := by
  simp only [streamCsv, FullCsv.streamCsv, value_ite, value_pure, value_bind,
    value_exportFullRecords]

theorem length_fullText_lt (sampleIndex : UInt64) (utcMs : ℤ) (record : UInt64 × UInt64) :
    (FullCsv.rowText sampleIndex utcMs record).length < 256 := by
  have hindex := sampleIndex.toNat_lt
  have hcells := DecoderParity.length_exportCells_lt sampleIndex.toNat hindex utcMs
    ⟨record.1, record.2⟩
  rwa [← DecoderParity.rowText_eq sampleIndex.toNat hindex, UInt64.ofNat_toNat] at hcells

theorem whole_valueText (canId : UInt32) (value : Int32) : Whole (valueText canId value) := by
  have hscaled := length_scaledText_lt (p := 2) (by omega) (by omega) (natAbs_toInt_lt value)
  have hsigned := length_signedText_lt (natAbs_toInt_lt value)
  refine whole_ite (fun _ => ?_) (fun _ => ?_)
  · exact (whole_printed _ _).mpr (by omega)
  · exact (whole_printed _ _).mpr (by omega)

theorem whole_fullRow (sampleIndex : UInt64) (utcMs : ℤ) (record : UInt64 × UInt64) :
    Whole (fullRow sampleIndex utcMs record) := by
  have hrow := length_fullText_lt sampleIndex utcMs record
  refine (whole_bind _ _).mpr ⟨whole_formatAbsoluteTime utcMs, ?_⟩
  refine (whole_bind _ _).mpr ⟨whole_valueText _ _, ?_⟩
  simp only [valueText, value_ite, value_printed, value_formatAbsoluteTime]
  exact (whole_snprintf _ _).mpr hrow

theorem whole_exportFullRecord (e : FullCsv.Export) (record : UInt64 × UInt64) :
    Whole (exportFullRecord e record) := by
  refine (whole_bind _ _).mpr ⟨whole_fullRow _ _ _, ?_⟩
  exact whole_ite (fun _ => whole_pure _) fun _ => whole_pure _

theorem whole_exportFullRecords (records : List (List UInt8)) (e : FullCsv.Export) :
    Whole (exportFullRecords e records) := by
  induction records generalizing e with
  | nil => exact whole_pure _
  | cons record records ih =>
    refine (whole_bind _ _).mpr ⟨whole_exportFullRecord _ _, ?_⟩
    exact whole_ite (fun _ => ih _) fun _ => whole_pure _

/-- The full export cuts nothing, for any files. -/
theorem whole_streamCsv (request : Request) (file : RecordFile) (utcFile : Option (List UInt8)) :
    Whole (streamCsv request file utcFile) := by
  refine whole_ite (fun _ => whole_pure _) fun _ => ?_
  refine (whole_bind _ _).mpr ⟨whole_exportFullRecords _ _, ?_⟩
  exact whole_ite (fun _ => whole_pure _) fun _ =>
    whole_ite (fun _ => whole_pure _) fun _ => whole_pure _

end BajaDaq.ExportBuffers
