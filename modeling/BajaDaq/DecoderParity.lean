import BajaDaq.FullCsv
import BajaDaq.OfflineDecoder
import BajaDaq.PairedExport
import Mathlib.Data.List.InsertIdx

/-!
# The full export and the offline decoder agree

Both write, for every complete record, the same cells, of which the firmware has one more: the
absolute time from the companion.
-/

namespace BajaDaq.DecoderParity
open AppProtocol CivilDates CsvText DecimalText FixedItems LittleEndian
open FullCsv OfflineDecoder
open LogFiles (recordSize)
open PairedCsv (EspErr Request RecordFile httpdRespSendChunk recordWords readUtcMs
  formatAbsoluteTime)
open PairedRows (LogRecord canId_eq_iff timestamp_toNat sample_toInt time_lt value_natAbs_lt)
open PairedExport (length_signedText_value length_scaledText_value)

/-- Signal, node and units of an identifier in both tables. -/
def metadataCells (canId : UInt32) : Text × Text × Text :=
  ((metadataFor canId).map (fun metadata => (metadata.signal, metadata.node,
    if canId = canIdGpsSpeed then "km/h".toList else metadata.units))).getD ([], [], "raw".toList)

/-- The cells of a record, without the absolute time. -/
def recordCells (index : ℕ) (r : LogRecord) : List Text :=
  [unsignedText index, unsignedText r.signal, '0' :: 'x' :: hexText 3 r.signal,
    (metadataCells (UInt32.ofNat r.signal)).1, (metadataCells (UInt32.ofNat r.signal)).2.1,
    unsignedText r.time,
    if r.signal = canIdGpsSpeed.toNat then scaledText 2 r.value else signedText r.value,
    (metadataCells (UInt32.ofNat r.signal)).2.2, unsignedText r.payload.toNat]

/-- The record in sixteen bytes. -/
def recordOf (item : List UInt8) : LogRecord := ⟨(recordWords item).1, (recordWords item).2⟩

theorem signalMetadata_eq : signalMetadata = signals.map (fun metadata =>
    ((metadata.canId.toNat : ℤ), metadata.signal, metadata.node,
      if metadata.canId = canIdGpsSpeed then "km/h".toList else metadata.units)) := by
  decide +kernel

theorem lookup_map {α β γ : Type} [BEq β] (key : α → β) (value : α → γ) (b : β) (entries : List α) :
    (entries.map (fun a => (key a, value a))).lookup b =
      (entries.find? (fun a => b == key a)).map value := by
  induction entries with
  | nil => rfl
  | cons a entries ih =>
    rw [List.map_cons, List.lookup_cons, List.find?_cons, ih]
    cases b == key a with
    | true => rfl
    | false => rfl

theorem lookup_signalMetadata (canId : UInt32) :
    (signalMetadata.lookup (canId.toNat : ℤ)).getD ([], [], "raw".toList) =
      metadataCells canId := by
  have hkey : ∀ metadata : SignalMetadata,
      ((canId.toNat : ℤ) == (metadata.canId.toNat : ℤ)) = decide (metadata.canId = canId) := by
    intro metadata
    rw [Bool.eq_iff_iff, beq_iff_eq, decide_eq_true_iff, Nat.cast_inj, UInt32.toNat_inj, eq_comm]
  rw [signalMetadata_eq, lookup_map, metadataCells, metadataFor]
  simp only [hkey]
  congr 1
  cases hfind : signals.find? (fun metadata => decide (metadata.canId = canId)) with
  | none => rfl
  | some metadata =>
    have hid := List.find?_some hfind
    rw [Option.map_some, Option.map_some, of_decide_eq_true hid]

/-- What both exports rely on in every line of the table. -/
theorem metadataCells_eq (canId : UInt32) : metadataCells canId =
    ((metadataFor canId).elim [] SignalMetadata.signal,
      (metadataFor canId).elim [] SignalMetadata.node,
      if canId = canIdGpsSpeed then "km/h".toList
      else (metadataFor canId).elim "raw".toList SignalMetadata.units) := by
  rw [metadataCells]
  cases hfind : metadataFor canId with
  | none =>
    have hspeed : canId ≠ canIdGpsSpeed := by
      rintro rfl
      exact absurd hfind (by decide)
    rw [Option.map_none, Option.getD_none, if_neg hspeed]
    rfl
  | some metadata => rfl

theorem metadataCells_plain (canId : UInt32) :
    (Plain (metadataCells canId).1 ∧ Plain (metadataCells canId).2.1 ∧
      Plain (metadataCells canId).2.2) ∧
    (metadataCells canId).1.length ≤ 20 ∧ (metadataCells canId).2.1.length ≤ 14 ∧
      (metadataCells canId).2.2.length ≤ 9 := by
  have htable : ∀ metadata ∈ signals,
      (Plain metadata.signal ∧ Plain metadata.node ∧ Plain metadata.units) ∧
      metadata.signal.length ≤ 20 ∧ metadata.node.length ≤ 14 ∧ metadata.units.length ≤ 9 := by
    decide +kernel
  have hunits' : Plain "km/h".toList ∧ "km/h".toList.length ≤ 9 := by decide
  rw [metadataCells, metadataFor]
  cases hfind : signals.find? (fun metadata => decide (metadata.canId = canId)) with
  | none =>
    rw [Option.map_none, Option.getD_none]
    decide
  | some metadata =>
    obtain ⟨⟨hsignal, hnode, hunits⟩, hlengths⟩ :=
      htable metadata (List.mem_of_find?_eq_some hfind)
    rw [Option.map_some, Option.getD_some]
    by_cases hspeed : canId = canIdGpsSpeed
    · rw [if_pos hspeed]
      exact ⟨⟨hsignal, hnode, hunits'.1⟩, hlengths.1, hlengths.2.1, hunits'.2⟩
    · rw [if_neg hspeed]
      exact ⟨⟨hsignal, hnode, hunits⟩, hlengths⟩

theorem recordCells_plain (index : ℕ) (r : LogRecord) :
    ∀ cell ∈ recordCells index r, Plain cell := by
  obtain ⟨⟨hsignal, hnode, hunits⟩, -⟩ := metadataCells_plain (UInt32.ofNat r.signal)
  have hhex : Plain ('0' :: 'x' :: hexText 3 r.signal) :=
    plain_cons rfl (plain_cons rfl (plain_hexText 3 r.signal))
  have hvalue : Plain (if r.signal = canIdGpsSpeed.toNat then scaledText 2 r.value
      else signedText r.value) := by
    split
    · exact plain_scaledText 2 r.value
    · exact plain_signedText r.value
  simp only [recordCells, List.forall_mem_cons, List.not_mem_nil, false_implies, implies_true,
    and_true]
  exact ⟨plain_unsignedText _, plain_unsignedText _, hhex, hsignal, hnode, plain_unsignedText _,
    hvalue, hunits, plain_unsignedText _⟩

theorem plain_dateFormat (tm : Tm) : Plain (PairedCsv.dateFormat.flatMap (Conversion.text tm)) := by
  have hchars : ∀ conversion ∈ PairedCsv.dateFormat, ∀ x, conversion = .char x →
      isPlain x = true := by
    simp [PairedCsv.dateFormat, isPlain]
  intro c hc
  obtain ⟨conversion, hconversion, hc⟩ := List.mem_flatMap.mp hc
  cases conversion with
  | year => exact plain_unsignedText _ c hc
  | char x =>
    obtain rfl := List.mem_singleton.mp hc
    exact hchars _ hconversion c rfl
  | _ => exact plain_paddedText 2 _ c hc

theorem plain_formatAbsoluteTime (utcMs : ℤ) : Plain (formatAbsoluteTime utcMs 32) := by
  have hnil : Plain [] := by decide
  have hend : Plain ['Z'] := by decide
  unfold formatAbsoluteTime
  split
  · exact hnil
  · cases h : (gmtimeR (utcMs / 1000).toNat).bind (strftime 24 PairedCsv.dateFormat) with
    | none => exact hnil
    | some date =>
      obtain ⟨tm, -, hdate⟩ := Option.bind_eq_some_iff.mp h
      obtain ⟨-, hsome⟩ := Option.ite_none_right_eq_some.mp hdate
      obtain rfl := Option.some.inj hsome
      exact ((plain_append (plain_append (plain_dateFormat tm)
        (plain_cons (by decide) (plain_paddedText 3 _))) hend).take 31)

theorem length_formatAbsoluteTime_le (utcMs : ℤ) : (formatAbsoluteTime utcMs 32).length ≤ 31 := by
  unfold formatAbsoluteTime
  split
  · exact Nat.zero_le _
  · cases (gmtimeR (utcMs / 1000).toNat).bind (strftime 24 PairedCsv.dateFormat) with
    | none => exact Nat.zero_le _
    | some date => exact List.length_take_le _ _

/-- The cells of the export: the absolute time is the seventh. -/
def exportCells (index : ℕ) (utcMs : ℤ) (r : LogRecord) : List Text :=
  (recordCells index r).insertIdx 6 (formatAbsoluteTime utcMs 32)

theorem sample_mask (r : LogRecord) : (r.payload &&& 0xffffffff).toUInt32.toInt32 = r.sample := by
  have hlow : (r.payload &&& 0xffffffff).toUInt32 = r.payload.toUInt32 := by
    rw [← UInt32.toNat_inj, UInt64.toNat_toUInt32, UInt64.toNat_and, UInt64.toNat_toUInt32]
    change (r.payload.toNat &&& (2 ^ 32 - 1)) % 2 ^ 32 = _
    rw [Nat.and_two_pow_sub_one_eq_mod, Nat.mod_mod]
  rw [hlow, LogRecord.sample]

/-- Both texts of a value fit in their buffer. -/
theorem valueText_eq (r : LogRecord) : (if r.idWord.toUInt32 &&& 0x7ff = canIdGpsSpeed then
      (snprintf 32 (scaledText 2 r.value)).1 else (snprintf 32 (signedText r.value)).1) =
    if r.signal = canIdGpsSpeed.toNat then scaledText 2 r.value else signedText r.value := by
  have hscaled := length_scaledText_value (p := 2) (by omega) (by omega) r
  have hsigned := length_signedText_value r
  rw [snprintf_of_lt (by omega), snprintf_of_lt (by omega)]
  simp only [canId_eq_iff]

theorem rowText_eq (index : ℕ) (hindex : index < 2 ^ 64) (utcMs : ℤ) (r : LogRecord) :
    rowText (UInt64.ofNat index) utcMs (r.idWord, r.payload) =
      csvLine (exportCells index utcMs r) := by
  have hid := (canId_eq_iff r (r.idWord.toUInt32 &&& 0x7ff)).mp rfl
  have hmetadata := metadataCells_eq (r.idWord.toUInt32 &&& 0x7ff)
  have hcells : exportCells index utcMs r = [unsignedText index, unsignedText r.signal,
      '0' :: 'x' :: hexText 3 r.signal, (metadataCells (UInt32.ofNat r.signal)).1,
      (metadataCells (UInt32.ofNat r.signal)).2.1, unsignedText r.time,
      formatAbsoluteTime utcMs 32,
      if r.signal = canIdGpsSpeed.toNat then scaledText 2 r.value else signedText r.value,
      (metadataCells (UInt32.ofNat r.signal)).2.2, unsignedText r.payload.toNat] := rfl
  have htime : (r.payload >>> 32).toUInt32.toNat = r.time := timestamp_toNat r
  rw [hcells, ← valueText_eq, hid, UInt32.ofNat_toNat, hmetadata]
  simp only [rowText, UInt64.toNat_ofNat_of_lt' hindex, sample_mask, sample_toInt, csvLine, htime,
    List.intercalate, List.intersperse, List.flatten_cons, List.flatten_nil, List.append_assoc,
    List.cons_append, List.nil_append, List.append_nil]

/-- Every row fits in its buffer. -/
theorem length_exportCells_lt (index : ℕ) (hindex : index < 2 ^ 64) (utcMs : ℤ) (r : LogRecord) :
    (csvLine (exportCells index utcMs r)).length < 256 := by
  have hpayload := r.payload.toNat_lt
  have hsignal : r.signal < 2 ^ 11 := Nat.mod_lt _ (by decide)
  have hindexText := (length_unsignedText_le (n := index) (k := 20) (by omega)).mpr (by omega)
  have hid := (length_unsignedText_le (n := r.signal) (k := 4) (by omega)).mpr (by omega)
  have hhex := length_hexText (w := 3) (n := r.signal) (by omega) (by omega)
  have htime := (length_unsignedText_le (k := 10) (by omega)).mpr (time_lt r)
  have habsolute := length_formatAbsoluteTime_le utcMs
  have hraw := (length_unsignedText_le (n := r.payload.toNat) (k := 20) (by omega)).mpr (by omega)
  have hscaled := length_scaledText_value (p := 2) (by omega) (by omega) r
  have hsigned := length_signedText_value r
  have hvalue : (if r.signal = canIdGpsSpeed.toNat then scaledText 2 r.value
      else signedText r.value).length < 13 := by
    split
    · exact hscaled
    · omega
  obtain ⟨-, hname, hnode, hunits⟩ := metadataCells_plain (UInt32.ofNat r.signal)
  simp only [exportCells, recordCells, List.insertIdx_succ_cons, List.insertIdx_zero, csvLine,
    List.intercalate, List.intersperse, List.flatten_cons, List.flatten_nil, List.length_append,
    List.length_cons, List.length_nil]
  omega

theorem fields_row (index : ℕ) (utcMs : ℤ) (r : LogRecord) :
    fields (csvLine (exportCells index utcMs r)) = exportCells index utcMs r := by
  apply fields_csvLine
  · rw [exportCells, recordCells]
    exact List.cons_ne_nil _ _
  · intro cell hcell
    rcases List.eq_or_mem_of_mem_insertIdx hcell with rfl | hcell
    · exact plain_formatAbsoluteTime utcMs
    · exact recordCells_plain index r cell hcell

/-- The cells of all records from number `index` on. -/
def allCells (index : ℕ) (records : List (List UInt8)) : List (List Text) :=
  (records.zipIdx index).map (fun entry => recordCells entry.2 (recordOf entry.1))

/-- One record: its row is sent, one entry of the companion is consumed. -/
theorem exportRecord_eq (record : List UInt8) {index : ℕ} (hindex : index < 2 ^ 64)
    (sent : List Text) (utcFile : Option (List UInt8)) :
    exportRecord ⟨⟨sent, fun _ => true⟩, utcFile, UInt64.ofNat index⟩ (recordWords record) =
      (⟨⟨sent ++ [csvLine (exportCells index (readUtcMs utcFile).1 (recordOf record))],
        fun _ => true⟩, (readUtcMs utcFile).2, UInt64.ofNat (index + 1)⟩, .ok) := by
  have hwords : recordWords record = ((recordOf record).idWord, (recordOf record).payload) := rfl
  have htext := rowText_eq index hindex (readUtcMs utcFile).1 (recordOf record)
  have hfits := length_exportCells_lt index hindex (readUtcMs utcFile).1 (recordOf record)
  rw [exportRecord, hwords, htext, snprintf, List.take_of_length_le (by omega)]
  dsimp only
  rw [if_neg (by omega), httpdRespSendChunk, if_pos rfl, UInt64.ofNat_add]
  rfl

theorem exportRecords_rows (records : List (List UInt8)) (index : ℕ)
    (hindex : index + records.length ≤ 2 ^ 64) (sent : List Text) (utcFile : Option (List UInt8)) :
    ∃ lines,
      (exportRecords ⟨⟨sent, fun _ => true⟩, utcFile, UInt64.ofNat index⟩ records).1.request =
        ⟨sent ++ lines, fun _ => true⟩ ∧
      (exportRecords ⟨⟨sent, fun _ => true⟩, utcFile, UInt64.ofNat index⟩ records).2 = .ok ∧
      lines.map (fun line => (fields line).eraseIdx 6) = allCells index records := by
  induction records generalizing index sent utcFile with
  | nil => exact ⟨[], by rw [List.append_nil]; rfl, rfl, rfl⟩
  | cons record records ih =>
    rw [List.length_cons] at hindex
    have hlt : index < 2 ^ 64 := by omega
    have hrecord := exportRecord_eq record hlt sent utcFile
    generalize hline : csvLine (exportCells index (readUtcMs utcFile).1 (recordOf record)) = line
      at hrecord
    obtain ⟨lines, hrequest, hok, hcells⟩ :=
      ih (index + 1) (by omega) (sent ++ [line]) (readUtcMs utcFile).2
    refine ⟨line :: lines, ?_, ?_, ?_⟩
    · rw [exportRecords, hrecord, if_pos rfl, hrequest, List.append_assoc]
      rfl
    · rw [exportRecords, hrecord, if_pos rfl, hok]
    · rw [List.map_cons, ← hline, fields_row, exportCells, List.eraseIdx_insertIdx_self, hcells]
      rfl

theorem unpackQ_emod (data : List UInt8) (offset k : ℕ) (hk : k ≤ 64) :
    unpackQ data offset % 2 ^ k = ((valueOf ((data.drop offset).take 8) % 2 ^ k : ℕ) : ℤ) := by
  obtain ⟨c, hc⟩ : (2 : ℤ) ^ k ∣ 2 ^ 64 := pow_dvd_pow 2 hk
  simp only [unpackQ]
  split
  · norm_cast
  · rw [hc, Int.sub_mul_emod_self_left]
    norm_cast

theorem signedU32_eq (r : LogRecord) : signedU32 r.payload.toNat = r.value := by
  have hlow : (r.payload.toNat : ℤ).land 0xFFFFFFFF = ((r.payload.toNat % 2 ^ 32 : ℕ) : ℤ) :=
    land_two_pow_sub_one _ 32
  have hsign := land_0x80000000 (n := r.payload.toNat % 2 ^ 32) (Nat.mod_lt _ (by decide))
  rw [signedU32, hlow, LogRecord.value]
  by_cases hneg : 2 ^ 31 ≤ r.payload.toNat % 2 ^ 32
  · rw [if_pos (hsign.mpr hneg), if_neg (by omega)]
    norm_cast
  · rw [if_neg (fun h => hneg (hsign.mp h)), if_pos (by omega)]
    norm_cast

theorem valueOf_take_lt (bytes : List UInt8) : valueOf (bytes.take 8) < 2 ^ 64 := by
  have hle : 256 ^ (bytes.take 8).length ≤ 256 ^ 8 :=
    Nat.pow_le_pow_right (by decide) (List.length_take_le _ _)
  exact Nat.lt_of_lt_of_le (valueOf_lt _) hle

theorem idWord_recordOf (data : List UInt8) (offset : ℕ) :
    (recordOf ((data.drop offset).take 16)).idWord.toNat =
      valueOf ((data.drop offset).take 8) := by
  have hlow : ((data.drop offset).take 16).take 8 = (data.drop offset).take 8 := by
    rw [List.take_take]
    rfl
  rw [recordOf, recordWords, hlow, UInt64.toNat_ofNat_of_lt' (valueOf_take_lt _)]

theorem payload_recordOf (data : List UInt8) (offset : ℕ) :
    (recordOf ((data.drop offset).take 16)).payload.toNat =
      valueOf ((data.drop (offset + 8)).take 8) := by
  have hhigh : ((data.drop offset).take 16).drop 8 = (data.drop (offset + 8)).take 8 := by
    rw [List.drop_take, List.drop_drop]
  rw [recordOf, recordWords, hhigh, UInt64.toNat_ofNat_of_lt' (valueOf_take_lt _)]

theorem timestamp_land (r : LogRecord) :
    ((r.payload.toNat : ℤ) >>> (32 : ℕ)).land 0xFFFFFFFF = (r.time : ℤ) := by
  have hlt := r.payload.toNat_lt
  have hshift : ((r.payload.toNat : ℤ) >>> (32 : ℕ)) = (r.time : ℤ) := by
    rw [Int.shiftRight_eq_div_pow, LogRecord.time]
    norm_cast
  rw [hshift, LogRecord.time]
  refine (land_two_pow_sub_one _ 32).trans ?_
  norm_cast
  exact Nat.mod_eq_of_lt (by omega)

theorem decodeRecord_eq (data : List UInt8) (index : ℕ) :
    (decodeRecord data index).2 =
      recordCells index (recordOf ((data.drop (index * 16)).take 16)) := by
  have hidWord := idWord_recordOf data (index * 16)
  have hpayload := payload_recordOf data (index * 16)
  generalize recordOf ((data.drop (index * 16)).take 16) = r at hidWord hpayload ⊢
  have hid : (unpackQ data (index * 16)).land 0x7FF = (r.signal : ℤ) := by
    rw [LogRecord.signal, hidWord, ← unpackQ_emod data _ 11 (by decide)]
    exact land_two_pow_sub_one _ 11
  have hpacked : (unpackQ data (index * 16 + 8)).land 0xFFFFFFFFFFFFFFFF =
      (r.payload.toNat : ℤ) := by
    rw [← Nat.mod_eq_of_lt r.payload.toNat_lt, hpayload, ← unpackQ_emod data _ 64 (by decide)]
    exact land_two_pow_sub_one _ 64
  have hspeed : (r.signal : ℤ) = 0x700 ↔ r.signal = canIdGpsSpeed.toNat := by
    change (r.signal : ℤ) = 0x700 ↔ r.signal = 0x700
    omega
  have hsignal : (UInt32.ofNat r.signal).toNat = r.signal :=
    UInt32.toNat_ofNat_of_lt' (Nat.lt_trans (Nat.mod_lt _ (by decide)) (by decide))
  have hmetadata := lookup_signalMetadata (UInt32.ofNat r.signal)
  rw [hsignal] at hmetadata
  simp only [decodeRecord, recordSizeBytes, hid, hpacked, timestamp_land, hmetadata,
    signedText_natCast, signedU32_eq, hspeed, Int.natAbs_natCast, recordCells]

theorem allCells_items (bytes : List UInt8) : allCells 0 (items recordSize bytes) =
    (List.range (bytes.length / recordSizeBytes)).map (fun k => (decodeRecord bytes k).2) := by
  apply List.ext_getElem
  · simp only [allCells, List.length_map, List.length_zipIdx, length_items, List.length_range]
    rfl
  · intro k hk hk'
    rw [List.getElem_map, List.getElem_range, decodeRecord_eq]
    simp only [allCells, items, List.getElem_map, List.getElem_zipIdx, List.getElem_range,
      Nat.zero_add]

theorem decodeLog_fields (bytes : List UInt8) : (decodeLog bytes).1.map fields =
    fields (writeRow OfflineDecoder.header) :: allCells 0 (items recordSize bytes) := by
  simp only [decodeLog, List.map_cons, List.map_map, allCells_items]
  apply congrArg (List.cons _)
  apply List.map_congr_left
  intro k _
  have hplain := recordCells_plain k (recordOf ((bytes.drop (k * 16)).take 16))
  have hne : recordCells k (recordOf ((bytes.drop (k * 16)).take 16)) ≠ [] := List.cons_ne_nil _ _
  simp only [Function.comp_apply, decodeRecord_eq]
  rw [writeRow_of_plain hplain, fields_csvLine hne hplain]

/-- With all sends succeeding, the lines of the response without their seventh field are the lines
of the decoder, for every file whose records `sample_index` can number. -/
theorem streamCsv_decodeLog (bytes : List UInt8) (companion : Option (List UInt8))
    (hsize : bytes.length / recordSize ≤ 2 ^ 64) :
    (streamCsv ⟨[], fun _ => true⟩ ⟨bytes, false⟩ companion).2 = .ok ∧
      ∃ lines, (streamCsv ⟨[], fun _ => true⟩ ⟨bytes, false⟩ companion).1.sent = lines ++ [[]] ∧
        lines.map (fun line => (fields line).eraseIdx 6) = (decodeLog bytes).1.map fields := by
  have hstart : httpdRespSendChunk ⟨[], fun _ => true⟩ FullCsv.header =
      (⟨[FullCsv.header], fun _ => true⟩, .ok) := rfl
  have hheader : (fields FullCsv.header).eraseIdx 6 = fields (writeRow OfflineDecoder.header) := by
    decide +kernel
  obtain ⟨lines, hrequest, hok, hcells⟩ := exportRecords_rows (items recordSize bytes) 0
    (by rw [length_items]; omega) [FullCsv.header] companion
  have hzero : UInt64.ofNat 0 = 0 := rfl
  rw [hzero] at hrequest hok
  have hstream : streamCsv ⟨[], fun _ => true⟩ ⟨bytes, false⟩ companion =
      (⟨[FullCsv.header] ++ lines ++ [[]], fun _ => true⟩, .ok) := by
    rw [streamCsv, hstart]
    dsimp only
    rw [if_neg (fun h => h rfl), if_neg (fun h => h hok), hrequest]
    rfl
  rw [hstream]
  refine ⟨rfl, FullCsv.header :: lines, rfl, ?_⟩
  rw [List.map_cons, hcells, hheader, decodeLog_fields]

/-- A negative GPS speed, an unknown identifier and five bytes of a third record. -/
theorem speedAndUnknown_decodeLog :
    (streamCsv ⟨[], fun _ => true⟩ ⟨bytesOf 8 0x700 ++ bytesOf 8 0x5FFFFFF85 ++
        bytesOf 8 (2 ^ 63 + 1) ++ bytesOf 8 7 ++ [1, 2, 3, 4, 5], false⟩ none).2 = .ok ∧
      ∃ lines, (streamCsv ⟨[], fun _ => true⟩ ⟨bytesOf 8 0x700 ++ bytesOf 8 0x5FFFFFF85 ++
          bytesOf 8 (2 ^ 63 + 1) ++ bytesOf 8 7 ++ [1, 2, 3, 4, 5], false⟩ none).1.sent =
          lines ++ [[]] ∧
        lines.map (fun line => (fields line).eraseIdx 6) =
          (decodeLog (bytesOf 8 0x700 ++ bytesOf 8 0x5FFFFFF85 ++ bytesOf 8 (2 ^ 63 + 1) ++
            bytesOf 8 7 ++ [1, 2, 3, 4, 5])).1.map fields :=
  streamCsv_decodeLog _ none (by decide)

end BajaDaq.DecoderParity
