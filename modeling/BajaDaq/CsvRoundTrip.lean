import BajaDaq.GregorianDays
import BajaDaq.StreamedDownloads

/-!
# The full export read back

A reader for the text of the full export. However much of an export arrives, it reads as the first
records of the file: their identifiers, their payloads and the times that were paired with them.
-/

namespace BajaDaq.CsvRoundTrip
open CivilDates CsvText DecimalText FixedItems GregorianDays RefusingSinks
open DecoderParity (exportCells fields_row recordCells_plain plain_formatAbsoluteTime recordOf)
open LogFiles (recordSize)
open PairedCsv (RecordFile formatAbsoluteTime)
open PairedExport (absoluteCell_eq entryAt_lt entryMs)
open PairedRows (LogRecord absoluteCell entryAt isoText isoTime shortIsoTime)
open StreamedDownloads

def number (cell : Text) : ℕ := Nat.ofDigitChars 10 cell 0

/-- The milliseconds since 1970 of an ISO time; 0 for a blank cell. -/
def readUtc (cell : Text) : ℕ :=
  match (cell.splitOnP (fun c => !c.isDigit)).map number with
  | [year, month, day, hour, minute, second, millisecond, _] =>
    (((dayNumber ⟨year, month, day⟩ * 24 + hour) * 60 + minute) * 60 + second) * 1000 + millisecond
  | _ => 0

structure ReadRow where
  index : ℕ
  signal : ℕ
  payload : ℕ
  utcMs : ℕ
  deriving DecidableEq, Repr

/-- The columns of the index, the identifier, the absolute time and the raw data. -/
def readRow : List Text → Option ReadRow
  | [index, canId, _, _, _, _, absoluteTime, _, _, rawData] =>
    some ⟨number index, number canId, number rawData, readUtc absoluteTime⟩
  | _ => none

/-- The rows below the header. -/
def readExport (text : Text) : List ReadRow :=
  ((lines text).drop 1).filterMap (fun line => readRow (fields line))

theorem number_unsignedText (n : ℕ) : number (unsignedText n) = n := Nat.ofDigitChars_ten_toDigits

/-- A number in front of a separator is one part. -/
theorem splitOnP_digits {digits : Text} (h : ∀ c ∈ digits, c.isDigit = true) {c : Char}
    (hc : c.isDigit = false) (rest : Text) :
    (digits ++ c :: rest).splitOnP (fun c => !c.isDigit) =
      digits :: rest.splitOnP (fun c => !c.isDigit) := by
  refine List.splitOnP_append_cons_of_forall_mem (fun x hx => ?_) c ?_ rest
  · rw [h x hx]
    rfl
  · rw [hc]
    rfl

theorem isDigit_of_mem_unsignedText {n : ℕ} {c : Char} (h : c ∈ unsignedText n) :
    c.isDigit = true :=
  Nat.isDigit_of_mem_toDigits (by decide) (by decide) h

theorem splitOnP_isoText (date : CivilDate) (hour minute second millisecond : ℕ) :
    (isoText date hour minute second ++ '.' :: paddedText 3 millisecond ++ ['Z']).splitOnP
        (fun c => !c.isDigit) =
      [unsignedText date.year, paddedText 2 date.month, paddedText 2 date.day, paddedText 2 hour,
        paddedText 2 minute, paddedText 2 second, paddedText 3 millisecond, []] := by
  have hpadded : ∀ w n, ∀ c ∈ paddedText w n, c.isDigit = true :=
    fun _ _ _ => isDigit_of_mem_paddedText
  simp only [isoText, List.append_assoc, List.cons_append]
  rw [splitOnP_digits (fun _ => isDigit_of_mem_unsignedText) (by decide),
    splitOnP_digits (hpadded _ _) (by decide), splitOnP_digits (hpadded _ _) (by decide),
    splitOnP_digits (hpadded _ _) (by decide), splitOnP_digits (hpadded _ _) (by decide),
    splitOnP_digits (hpadded _ _) (by decide), splitOnP_digits (hpadded _ _) (by decide),
    List.splitOnP_nil]

theorem readUtc_isoText (date : CivilDate) (hour minute second millisecond : ℕ) :
    readUtc (isoText date hour minute second ++ '.' :: paddedText 3 millisecond ++ ['Z']) =
      (((dayNumber date * 24 + hour) * 60 + minute) * 60 + second) * 1000 + millisecond := by
  have hnumber : ∀ w n, number (paddedText w n) = n := ofDigitChars_paddedText
  rw [readUtc, splitOnP_isoText]
  simp only [List.map_cons, List.map_nil, number_unsignedText, hnumber]

theorem readUtc_isoTime (utcMs : ℕ) : readUtc (isoTime utcMs) = utcMs := by
  have hdays := dayNumber_civilOfDays (utcMs / 86400000)
  have hread := readUtc_isoText (civilOfDays (utcMs / 86400000)) (utcMs / 3600000 % 24)
    (utcMs / 60000 % 60) (utcMs / 1000 % 60) (utcMs % 1000)
  rw [isoTime, hread, hdays]
  omega

/-- The time of an entry that the export shows; 0 for a blank. -/
def shownUtc (entry : Option ℤ) : ℕ :=
  match entry with
  | none => 0
  | some utcMs =>
    if 0 < utcMs ∧ (civilOfDays (utcMs.toNat / 86400000)).year < 10 ^ 8 then utcMs.toNat else 0

theorem readUtc_absoluteCell (entry : Option ℤ) :
    readUtc (absoluteCell shortIsoTime entry) = shownUtc entry := by
  cases entry with
  | none => rfl
  | some utcMs =>
    rw [absoluteCell, shownUtc]
    by_cases hpos : 0 < utcMs
    · rw [if_pos hpos, shortIsoTime]
      by_cases hyear : (civilOfDays (utcMs.toNat / 86400000)).year < 10 ^ 8
      · rw [if_pos hyear, if_pos ⟨hpos, hyear⟩, readUtc_isoTime]
      · rw [if_neg hyear, if_neg fun h => hyear h.2]
        rfl
    · rw [if_neg hpos, if_neg fun h => hpos h.1]
      rfl

theorem readRow_exportCells (index : ℕ) (utcMs : ℤ) (r : LogRecord) :
    readRow (exportCells index utcMs r) =
      some ⟨index, r.signal, r.payload.toNat, readUtc (formatAbsoluteTime utcMs 32)⟩ := by
  simp only [exportCells, DecoderParity.recordCells, List.insertIdx_succ_cons,
    List.insertIdx_zero, readRow, number_unsignedText]

/-- What row `k` of the export says about its record. -/
def shown (companion : Option (List UInt8)) (entry : List UInt8 × ℕ) : ReadRow :=
  ⟨entry.2 % 2 ^ 64, (recordOf entry.1).signal, (recordOf entry.1).payload.toNat,
    shownUtc (entryAt companion entry.2)⟩

theorem readRow_fullRow (companion : Option (List UInt8)) (entry : List UInt8 × ℕ) :
    readRow (fields (fullRow companion entry)) = some (shown companion entry) := by
  rw [fullRow, fields_row, readRow_exportCells, absoluteCell_eq, readUtc_absoluteCell, shown]

theorem fullRow_eq_line (companion : Option (List UInt8)) (entry : List UInt8 × ℕ) :
    ∃ line, '\n' ∉ line ∧ fullRow companion entry = line ++ ['\n'] := by
  apply csvLine_eq_line
  intro cell hcell
  rcases List.eq_or_mem_of_mem_insertIdx hcell with rfl | hcell
  · exact plain_formatAbsoluteTime _
  · exact recordCells_plain _ _ cell hcell

theorem header_eq_line : ∃ line, '\n' ∉ line ∧ FullCsv.header = line ++ ['\n'] :=
  ⟨FullCsv.header.dropLast, by decide +kernel, by decide +kernel⟩

/-- The first chunks of an export read as its first rows. -/
theorem readExport_take (bytes : List UInt8) (companion : Option (List UInt8)) (k : ℕ) :
    readExport ((csvChunks bytes companion).take k).flatten =
      ((items recordSize bytes).zipIdx.map (shown companion)).take (k - 1) := by
  have hlines : ∀ text ∈ csvChunks bytes companion,
      ∃ line, '\n' ∉ line ∧ text = line ++ ['\n'] := by
    intro text htext
    rcases List.mem_cons.mp htext with rfl | htext
    · exact header_eq_line
    · obtain ⟨entry, -, rfl⟩ := List.mem_map.mp htext
      exact fullRow_eq_line companion entry
  rw [readExport, lines_flatten fun text htext => hlines text (List.mem_of_mem_take htext)]
  cases k with
  | zero => rfl
  | succ k =>
    rw [csvChunks, List.take_succ_cons, List.drop_succ_cons, List.drop_zero, Nat.add_sub_cancel,
      ← List.map_take, ← List.map_take, List.filterMap_map, ← List.filterMap_eq_map]
    exact List.filterMap_congr fun entry _ => readRow_fullRow companion entry

/-- The sixteen bytes of a record with this identifier and payload. -/
def ReadRow.bytes (row : ReadRow) : List UInt8 :=
  LittleEndian.bytesOf 8 row.signal ++ LittleEndian.bytesOf 8 row.payload

/-- The item is found again if its identifier is one of a standard frame. -/
theorem bytes_shown (companion : Option (List UInt8)) {entry : List UInt8 × ℕ}
    (hlength : entry.1.length = recordSize) (hid : (recordOf entry.1).idWord.toNat < 2 ^ 11) :
    (shown companion entry).bytes = entry.1 := by
  have hsignal : (recordOf entry.1).signal = (recordOf entry.1).idWord.toNat := Nat.mod_eq_of_lt hid
  rw [ReadRow.bytes, shown, hsignal]
  exact bytes_recordOf hlength

theorem flatMap_bytes_shown (bytes : List UInt8) (companion : Option (List UInt8)) (k : ℕ)
    (hid : ∀ item ∈ items recordSize bytes, (recordOf item).idWord.toNat < 2 ^ 11) :
    (((items recordSize bytes).zipIdx.map (shown companion)).take k).flatMap ReadRow.bytes =
      bytes.take
        (recordSize * (((items recordSize bytes).zipIdx.map (shown companion)).take k).length) := by
  have hlength : (((items recordSize bytes).zipIdx.map (shown companion)).take k).length =
      ((items recordSize bytes).take k).length := by
    simp only [List.length_take, List.length_map, List.length_zipIdx]
  have hback : ((items recordSize bytes).zipIdx.map (shown companion)).map ReadRow.bytes =
      items recordSize bytes := by
    rw [List.map_map]
    refine (List.map_congr_left fun entry hentry => ?_).trans (List.zipIdx_map_fst 0 _)
    have hitem := List.fst_mem_of_mem_zipIdx hentry
    exact bytes_shown companion (length_of_mem_items hitem) (hid _ hitem)
  rw [hlength, ← flatten_take_items (by decide), List.flatMap_def, List.map_take, hback]

/-- Whatever the connection and the card do, the text of a full export that has arrived reads as
the records of the file in order, up to the last row that was sent, each with its number, its
identifier, its payload and the UTC time beside it; all of them if the response is ended. Where the
identifiers are those of standard frames, the bytes of the file are found again. -/
theorem export_reads_back (accepts : ℕ → Bool) (file : RecordFile)
    (companion : Option (List UInt8)) :
    let sent := FullCsv.streamCsv ⟨[], accepts⟩ file companion
    let rows := (items recordSize file.bytes).zipIdx.map (shown companion)
    readExport sent.1.sent.flatten = rows.take (sent.1.sent.length - 1) ∧
      ([] ∈ sent.1.sent → readExport sent.1.sent.flatten = rows) ∧
      ((∀ item ∈ items recordSize file.bytes, (recordOf item).idWord.toNat < 2 ^ 11) →
        (readExport sent.1.sent.flatten).flatMap ReadRow.bytes =
          file.bytes.take (recordSize * (readExport sent.1.sent.flatten).length)) := by
  intro sent rows
  have h := wholeOrUnfinished_streamCsv accepts file companion
  have hchunks : (csvChunks file.bytes companion).length = rows.length + 1 := by
    simp only [csvChunks, rows, List.length_cons, List.length_map]
  have hread : readExport sent.1.sent.flatten = rows.take (sent.1.sent.length - 1) := by
    by_cases hok : sent.2 = .ok
    · have hsent : sent.1.sent = csvChunks file.bytes companion ++ [[]] := h.finished hok
      have hall := readExport_take file.bytes companion (csvChunks file.bytes companion).length
      rw [List.take_length] at hall
      rw [hsent, List.flatten_append, List.flatten_singleton, List.append_nil, hall,
        List.length_append, List.length_singleton, Nat.add_sub_cancel,
        List.take_of_length_le (by rw [hchunks]; exact Nat.le_refl _),
        List.take_of_length_le (by rw [hchunks]; exact Nat.le_succ _)]
    · obtain ⟨k, hk, hsent⟩ := h.unfinished hok
      have hsent : sent.1.sent = (csvChunks file.bytes companion).take k := hsent
      rw [hsent, readExport_take, List.length_take, Nat.min_eq_left hk]
  refine ⟨hread, fun hended => ?_, fun hid => ?_⟩
  · have hsent : sent.1.sent = csvChunks file.bytes companion ++ [[]] :=
      h.finished (h.ended_iff.mp hended)
    rw [hread, List.take_of_length_le]
    rw [hsent, List.length_append, List.length_singleton]
    omega
  · rw [hread]
    exact flatMap_bytes_shown file.bytes companion _ hid

/-- Three rows arrive of an export that breaks off. -/
example : (readExport (FullCsv.streamCsv ⟨[], fun n => n < 4⟩
    ⟨LittleEndian.bytesOf 16 (0xB9 + 2 ^ 64 * 0x3E8000005DC) ++ List.replicate 48 1, false⟩
    (some (LittleEndian.bytesOf 8 1700000000123))).1.sent.flatten).map ReadRow.utcMs =
      [1700000000123, 0, 0] := by
  decide +kernel

end BajaDaq.CsvRoundTrip
