import BajaDaq.DecoderParity
import BajaDaq.RefusingSinks

/-!
# What a download that breaks off leaves

The three streams of `download_handler` on a connection that may refuse any chunk and a file that
may end in a read error. Each sends chunks that only the files decide, in order, up to the first
refusal, and ends the response with the empty chunk only after all of them.
-/

namespace BajaDaq.StreamedDownloads
open CsvText DecimalText FixedItems RefusingSinks
open DecoderParity (exportCells fields_row length_exportCells_lt recordOf)
open LogFiles (recordSize)
open PairedCsv (EspErr Request RecordFile httpdRespSendChunk recordWords readUtcMs)
open PairedExport (entryMs length_signedText_value progress_records readUtcMs_unread
  recordWords_bytes unread)
open PairedRows (LogRecord entryAt pairedRows shortIsoTime)

def downloadChunkSize : ℕ := 4096

inductive BinaryErr where
  | ok
  | fail
  | noMem
  deriving DecidableEq, Repr

/-- `stream_binary`; `allocated` tells whether `malloc` returned a buffer. -/
def streamBinary (request : Sink (List UInt8)) (allocated : Bool) (file : RecordFile) :
    Sink (List UInt8) × BinaryErr :=
  if !allocated then (request, .noMem)
  else
    let loop := request.putAll (pieces downloadChunkSize file.bytes)
    if !loop.2 || file.readError then (loop.1, .fail)
    else
      let last := loop.1.put []
      (last.1, if last.2 then .ok else .fail)

variable {β : Type*}

/-- The chunks of a response: the last is empty, and missing after a read error. -/
def response (whole : List (List β)) (readError : Bool) : List (List β) :=
  whole ++ if readError then [] else [[]]

/-- The response is ended exactly if the handler succeeds, and then all of `whole` has been sent;
otherwise only a leading part of it. The handler fails only where the card or the connection
does. -/
structure WholeOrUnfinished (whole : List (List β)) (accepts : ℕ → Bool)
    (allocated readError : Bool) (sent : List (List β)) (succeeded : Prop) : Prop where
  succeeded_iff : succeeded ↔
    allocated = true ∧ readError = false ∧ ∀ n ≤ whole.length, accepts n = true
  ended_iff : [] ∈ sent ↔ succeeded
  finished : succeeded → sent = whole ++ [[]]
  unfinished : ¬ succeeded → ∃ k ≤ whole.length, sent = whole.take k

theorem wholeOrUnfinished_putAll {whole : List (List β)} (hwhole : [] ∉ whole)
    (accepts : ℕ → Bool) (readError : Bool) :
    WholeOrUnfinished whole accepts true readError
      ((Sink.mk [] accepts).putAll (response whole readError)).1.taken
      (((Sink.mk [] accepts).putAll (response whole readError)).2 = true ∧ readError = false) := by
  cases readError with
  | true =>
    obtain ⟨k, hk, hrun, -⟩ := (Sink.mk [] accepts).putAll_take whole
    have hsent : ((Sink.mk [] accepts).putAll (response whole true)).1.taken = whole.take k := by
      rw [response, if_pos rfl, List.append_nil, hrun, List.nil_append]
    have hfails : ¬ (((Sink.mk [] accepts).putAll (response whole true)).2 = true ∧
        true = false) := fun h => absurd h.2 (by decide)
    refine ⟨iff_of_false hfails fun h => absurd h.2.1 (by decide), ?_, fun h => absurd h hfails,
      fun _ => ⟨k, hk, hsent⟩⟩
    rw [hsent]
    exact iff_of_false (fun h => hwhole (List.mem_of_mem_take h)) hfails
  | false =>
    obtain ⟨hmark, hall, hpart⟩ :=
      Sink.putAll_mark (s := ⟨[], accepts⟩) (List.not_mem_nil) hwhole
    simp only [response, Bool.false_eq_true, if_false, and_true]
    refine ⟨?_, hmark, hall, hpart⟩
    simp only [Sink.putAll_iff, List.length_append, List.length_singleton, List.length_nil,
      Nat.zero_add, Nat.lt_succ_iff, true_and]

/-- The connection of a text format as a sink. -/
def requestOf (s : Sink Text) : Request := ⟨s.taken, s.accepts⟩

theorem httpdRespSendChunk_requestOf (s : Sink Text) (chunk : Text) :
    httpdRespSendChunk (requestOf s) chunk =
      (requestOf (s.put chunk).1, if (s.put chunk).2 then .ok else .fail) := by
  unfold httpdRespSendChunk Sink.put requestOf
  split
  · rfl
  · rfl

/-- Row `k` of the full export. -/
def fullRow (companion : Option (List UInt8)) (entry : List UInt8 × ℕ) : Text :=
  csvLine (exportCells (entry.2 % 2 ^ 64) (entryMs (entryAt companion entry.2)) (recordOf entry.1))

def csvChunks (bytes : List UInt8) (companion : Option (List UInt8)) : List Text :=
  FullCsv.header :: (items recordSize bytes).zipIdx.map (fullRow companion)

def pairedChunks (bytes : List UInt8) (companion : Option (List UInt8)) : List Text :=
  PairedCsv.header :: pairedRows shortIsoTime ((items recordSize bytes).map recordOf) companion

section FullCsv
open FullCsv

variable {companion : Option (List UInt8)}

/-- One record: its row is put, one entry of the companion is consumed. -/
theorem exportRecord_put (s : Sink Text) (record : List UInt8) (k : ℕ) :
    exportRecord ⟨requestOf s, unread companion k, .ofNat k⟩ (recordWords record) =
      (⟨requestOf (s.put (fullRow companion (record, k))).1, unread companion (k + 1),
          .ofNat (k + 1)⟩,
        if (s.put (fullRow companion (record, k))).2 then .ok else .fail) := by
  have hwords : recordWords record = ((recordOf record).idWord, (recordOf record).payload) := rfl
  have hlt : k % 2 ^ 64 < 2 ^ 64 := Nat.mod_lt _ (by decide)
  have hindex : UInt64.ofNat k = .ofNat (k % 2 ^ 64) := by
    rw [← UInt64.toNat_inj, UInt64.toNat_ofNat', UInt64.toNat_ofNat', Nat.mod_mod]
  have htext := DecoderParity.rowText_eq (k % 2 ^ 64) hlt (entryMs (entryAt companion k))
    (recordOf record)
  have hfits := length_exportCells_lt (k % 2 ^ 64) hlt (entryMs (entryAt companion k))
    (recordOf record)
  have hrow : (csvLine (exportCells (k % 2 ^ 64) (entryMs (entryAt companion k))
      (recordOf record))) = fullRow companion (record, k) := rfl
  rw [← hindex] at htext
  rw [exportRecord, readUtcMs_unread, hwords, htext, snprintf, List.take_of_length_le (by omega),
    hrow, UInt64.ofNat_add]
  dsimp only
  rw [if_neg (by rw [← hrow]; omega), httpdRespSendChunk_requestOf]
  rfl

theorem exportRecords_putAll (records : List (List UInt8)) (s : Sink Text) (k : ℕ) :
    (exportRecords ⟨requestOf s, unread companion k, .ofNat k⟩ records).1.request =
        requestOf (s.putAll ((records.zipIdx k).map (fullRow companion))).1 ∧
      (exportRecords ⟨requestOf s, unread companion k, .ofNat k⟩ records).2 =
        if (s.putAll ((records.zipIdx k).map (fullRow companion))).2 then .ok else .fail := by
  induction records generalizing s k with
  | nil => exact ⟨rfl, rfl⟩
  | cons record records ih =>
    have hrecord := @exportRecord_put companion s record k
    rw [List.zipIdx_cons, List.map_cons, Sink.putAll, exportRecords]
    simp only [hrecord]
    cases hput : (s.put (fullRow companion (record, k))).2 with
    | true =>
      simp only [if_true]
      exact ih _ (k + 1)
    | false =>
      simp only [Bool.false_eq_true, if_false, hput, reduceCtorEq, and_self]

end FullCsv

section PairedCsv
open PairedCsv

/-- What a record makes of the chunks does not depend on which of them are refused. -/
theorem exportRecord_refused {e e' : Export} {record : UInt64 × UInt64}
    (h : exportRecord { e with request := ⟨e.request.sent, fun _ => true⟩ } record = (e', .ok)) :
    exportRecord e record = ({ e' with request := e.request }, .ok) ∧
        e'.request = ⟨e.request.sent, fun _ => true⟩ ∨
      ∃ row, exportRecord e record =
          ({ e' with request := (httpdRespSendChunk e.request row).1 },
            (httpdRespSendChunk e.request row).2) ∧
        e'.request = ⟨e.request.sent ++ [row], fun _ => true⟩ := by
  unfold exportRecord at h ⊢
  dsimp only at h ⊢
  -- the five held signals, and a record without a row
  iterate 6
    split at h
    · cases h
      rw [if_pos ‹_›]
      exact .inl ⟨rfl, rfl⟩
    rw [if_neg ‹_›]
  split at h
  · cases h
  · rw [if_neg ‹_›]
    cases h
    exact .inr ⟨_, rfl, rfl⟩

theorem exportRecords_refused (records : List (List UInt8)) {e e' : Export} {s : Sink Text}
    (hs : e.request = requestOf s)
    (h : exportRecords { e with request := ⟨s.taken, fun _ => true⟩ } records = (e', .ok)) :
    ∃ rows, e'.request.sent = s.taken ++ rows ∧
      (exportRecords e records).1.request = requestOf (s.putAll rows).1 ∧
      (exportRecords e records).2 = if (s.putAll rows).2 then .ok else .fail := by
  induction records generalizing e s with
  | nil =>
    obtain rfl := (Prod.mk.inj h).1
    exact ⟨[], (List.append_nil _).symm, hs, rfl⟩
  | cons record records ih =>
    obtain ⟨request, utcFile, held⟩ := e
    obtain rfl : request = requestOf s := hs
    rw [exportRecords] at h
    split at h
    · next hok =>
      generalize hone : exportRecord ⟨⟨s.taken, fun _ => true⟩, utcFile, held⟩
        (recordWords record) = next at h hok
      obtain ⟨⟨request, utcFile', held'⟩, result⟩ := next
      obtain rfl : result = .ok := hok
      rcases exportRecord_refused (e := ⟨requestOf s, utcFile, held⟩) hone with
        ⟨hstep, hsame⟩ | ⟨row, hstep, hrow⟩
      · obtain rfl : request = ⟨s.taken, fun _ => true⟩ := hsame
        rw [exportRecords, hstep, if_pos rfl]
        exact ih rfl h
      · obtain rfl : request = ⟨s.taken ++ [row], fun _ => true⟩ := hrow
        rw [httpdRespSendChunk_requestOf] at hstep
        rcases s.put_cases row with hput | hput
        · rw [hput] at hstep
          obtain ⟨rows, hsent, hrest⟩ :=
            ih (e := ⟨requestOf { s with taken := s.taken ++ [row] }, utcFile', held'⟩) rfl h
          refine ⟨row :: rows, by rw [hsent, List.append_assoc]; rfl, ?_⟩
          rw [exportRecords, hstep, if_pos rfl, Sink.putAll, hput]
          exact hrest
        · rw [hput] at hstep
          obtain ⟨rows, hsent, -⟩ :=
            ih (e := ⟨requestOf ⟨s.taken ++ [row], fun _ => true⟩, utcFile', held'⟩)
              (s := ⟨s.taken ++ [row], fun _ => true⟩) rfl h
          refine ⟨row :: rows, by rw [hsent, List.append_assoc]; rfl, ?_⟩
          rw [exportRecords, hstep, if_neg (fun hok => by cases hok), Sink.putAll, hput]
          exact ⟨rfl, rfl⟩
    · next hbad => exact absurd (congrArg Prod.snd h) hbad

theorem bytes_recordOf {item : List UInt8} (h : item.length = recordSize) :
    (recordOf item).bytes = item := by
  have hlength : item.length = 16 := h
  have hword : ∀ part : List UInt8, part.length = 8 →
      LittleEndian.bytesOf 8 (UInt64.ofNat (LittleEndian.valueOf part)).toNat = part := by
    intro part hpart
    have hlt := LittleEndian.valueOf_lt part
    rw [hpart] at hlt
    rw [UInt64.toNat_ofNat_of_lt' hlt, ← hpart, LittleEndian.bytesOf_valueOf]
  have hid := hword (item.take 8) (by rw [List.length_take]; omega)
  have hpayload := hword (item.drop 8) (by rw [List.length_drop]; omega)
  rw [LogRecord.bytes, recordOf, recordWords, hid, hpayload, List.take_append_drop]

theorem items_recordOf (bytes : List UInt8) :
    ((items recordSize bytes).map recordOf).map LogRecord.bytes = items recordSize bytes := by
  rw [List.map_map]
  refine (List.map_congr_left fun item hitem => ?_).trans (List.map_id _)
  exact bytes_recordOf (length_of_mem_items hitem)

end PairedCsv

/-- The frame of both text formats around their loop over the records. -/
theorem framed_putAll (s : Sink Text) (header : Text) (rows : List Text) (readError : Bool)
    {request : Request} {result : EspErr}
    (hrequest : request = requestOf ((s.put header).1.putAll rows).1)
    (hresult : result = if ((s.put header).1.putAll rows).2 then .ok else .fail) :
    let start := httpdRespSendChunk (requestOf s) header
    let stream : Request × EspErr :=
      if start.2 ≠ .ok then (start.1, .fail)
      else if result ≠ .ok then (request, .fail)
      else if readError then (request, .fail)
      else httpdRespSendChunk request []
    stream.1 = requestOf (s.putAll (response (header :: rows) readError)).1 ∧
      (stream.2 = .ok ↔
        (s.putAll (response (header :: rows) readError)).2 = true ∧ readError = false) := by
  rw [httpdRespSendChunk_requestOf, response, List.cons_append, Sink.putAll, Sink.putAll_append]
  dsimp only
  cases hstart : (s.put header).2 with
  | false => simp [hstart]
  | true =>
    cases hrows : ((s.put header).1.putAll rows).2 with
    | false => simp [hrequest, hresult, hrows]
    | true =>
      cases readError with
      | true => simp [hrequest, hresult, hrows, Sink.putAll]
      | false =>
        simp only [hrequest, hresult, hrows, if_true, ne_eq, not_true_eq_false, if_false,
          Bool.false_eq_true, httpdRespSendChunk_requestOf, Sink.putAll_singleton, true_and,
          and_true]
        cases (((s.put header).1.putAll rows).1.put []).2 with
        | true => exact iff_of_true rfl rfl
        | false => exact iff_of_false (by decide) (by decide)

section Streams
variable (s : Sink Text) (file : RecordFile) (companion : Option (List UInt8))

theorem streamCsv_putAll :
    (FullCsv.streamCsv (requestOf s) file companion).1 =
        requestOf (s.putAll (response (csvChunks file.bytes companion) file.readError)).1 ∧
      ((FullCsv.streamCsv (requestOf s) file companion).2 = .ok ↔
        (s.putAll (response (csvChunks file.bytes companion) file.readError)).2 = true ∧
          file.readError = false) := by
  have hunread : unread companion 0 = companion := by cases companion <;> rfl
  have hloop := @exportRecords_putAll companion (items recordSize file.bytes)
    (s.put FullCsv.header).1 0
  have hstart : (httpdRespSendChunk (requestOf s) FullCsv.header).1 =
      requestOf (s.put FullCsv.header).1 :=
    congrArg Prod.fst (httpdRespSendChunk_requestOf s FullCsv.header)
  rw [hunread, ← hstart] at hloop
  exact framed_putAll s FullCsv.header _ file.readError hloop.1 hloop.2

theorem streamPairedCsv_putAll :
    (PairedCsv.streamPairedCsv (requestOf s) file companion).1 =
        requestOf (s.putAll (response (pairedChunks file.bytes companion) file.readError)).1 ∧
      ((PairedCsv.streamPairedCsv (requestOf s) file companion).2 = .ok ↔
        (s.putAll (response (pairedChunks file.bytes companion) file.readError)).2 = true ∧
          file.readError = false) := by
  have hprogress : PairedExport.Progress ⟨(s.put PairedCsv.header).1.taken, fun _ => true⟩
      companion [] ⟨⟨(s.put PairedCsv.header).1.taken, fun _ => true⟩, companion, .start⟩ :=
    ⟨PairedExport.follows_start, by cases companion <;> rfl, by simp [pairedRows]⟩
  obtain ⟨e, hloop, he⟩ :=
    progress_records hprogress ((items recordSize file.bytes).map recordOf) (fun _ => rfl)
  rw [items_recordOf] at hloop
  obtain ⟨rows, hrows, hresult⟩ := exportRecords_refused (items recordSize file.bytes)
    (e := ⟨requestOf (s.put PairedCsv.header).1, companion, .start⟩) rfl hloop
  have hsent : (s.put PairedCsv.header).1.taken ++ rows = (s.put PairedCsv.header).1.taken ++
      pairedRows shortIsoTime ((items recordSize file.bytes).map recordOf) companion :=
    hrows.symm.trans (congrArg Request.sent he.request)
  have hstart : (httpdRespSendChunk (requestOf s) PairedCsv.header).1 =
      requestOf (s.put PairedCsv.header).1 :=
    congrArg Prod.fst (httpdRespSendChunk_requestOf s PairedCsv.header)
  rw [List.append_cancel_left hsent, ← hstart] at hresult
  exact framed_putAll s PairedCsv.header _ file.readError hresult.1 hresult.2

end Streams

theorem header_ne_nil : FullCsv.header ≠ [] ∧ PairedCsv.header ≠ [] := by
  decide

theorem csvLine_ne_nil (cells : List Text) : csvLine cells ≠ [] :=
  List.append_ne_nil_of_right_ne_nil _ (List.cons_ne_nil _ _)

theorem nil_not_mem_csvChunks (bytes : List UInt8) (companion : Option (List UInt8)) :
    [] ∉ csvChunks bytes companion := by
  intro h
  rcases List.mem_cons.mp h with h | h
  · exact header_ne_nil.1 h.symm
  · obtain ⟨entry, -, hrow⟩ := List.mem_map.mp h
    exact csvLine_ne_nil _ hrow

theorem nil_not_mem_pairedChunks (bytes : List UInt8) (companion : Option (List UInt8)) :
    [] ∉ pairedChunks bytes companion := by
  intro h
  rcases List.mem_cons.mp h with h | h
  · exact header_ne_nil.2 h.symm
  · obtain ⟨k, -, hrow⟩ := List.mem_filterMap.mp h
    obtain ⟨r, -, hrow⟩ := Option.bind_eq_some_iff.mp hrow
    unfold PairedRows.rowOf at hrow
    split at hrow
    · split at hrow
      · cases hrow
      · obtain ⟨-, hrow⟩ := Option.ite_none_right_eq_some.mp hrow
        exact csvLine_ne_nil _ (Option.some.inj hrow)
    · cases hrow

theorem nil_not_mem_pieces (bytes : List UInt8) : [] ∉ pieces downloadChunkSize bytes :=
  fun h => pieces_ne_nil h rfl

theorem streamBinary_putAll (s : Sink (List UInt8)) (file : RecordFile) :
    (streamBinary s true file).1 =
        (s.putAll (response (pieces downloadChunkSize file.bytes) file.readError)).1 ∧
      ((streamBinary s true file).2 = .ok ↔
        (s.putAll (response (pieces downloadChunkSize file.bytes) file.readError)).2 = true ∧
          file.readError = false) := by
  rw [streamBinary, response, Sink.putAll_append]
  dsimp only
  cases hloop : (s.putAll (pieces downloadChunkSize file.bytes)).2 with
  | false => simp [hloop]
  | true =>
    cases file.readError with
    | true => simp [Sink.putAll]
    | false =>
      cases hlast : ((s.putAll (pieces downloadChunkSize file.bytes)).1.put []).2 with
      | true => simp [Sink.putAll, hlast]
      | false => simp [Sink.putAll, hlast]

theorem wholeOrUnfinished_streamBinary (accepts : ℕ → Bool) (allocated : Bool)
    (file : RecordFile) :
    WholeOrUnfinished (pieces downloadChunkSize file.bytes) accepts allocated file.readError
      (streamBinary ⟨[], accepts⟩ allocated file).1.taken
      ((streamBinary ⟨[], accepts⟩ allocated file).2 = .ok) := by
  cases allocated with
  | false =>
    have hfails : ¬ (streamBinary ⟨[], accepts⟩ false file).2 = .ok := fun h => by cases h
    exact ⟨iff_of_false hfails fun h => absurd h.1 (by decide),
      iff_of_false List.not_mem_nil hfails, fun h => absurd h hfails,
      fun _ => ⟨0, Nat.zero_le _, rfl⟩⟩
  | true =>
    obtain ⟨hsent, hok⟩ := streamBinary_putAll ⟨[], accepts⟩ file
    rw [hsent, hok]
    exact wholeOrUnfinished_putAll (nil_not_mem_pieces file.bytes) accepts file.readError

theorem wholeOrUnfinished_streamCsv (accepts : ℕ → Bool) (file : RecordFile)
    (companion : Option (List UInt8)) :
    WholeOrUnfinished (csvChunks file.bytes companion) accepts true file.readError
      (FullCsv.streamCsv ⟨[], accepts⟩ file companion).1.sent
      ((FullCsv.streamCsv ⟨[], accepts⟩ file companion).2 = .ok) := by
  obtain ⟨hrequest, hok⟩ := streamCsv_putAll ⟨[], accepts⟩ file companion
  have hsent := congrArg Request.sent hrequest
  have h := wholeOrUnfinished_putAll (nil_not_mem_csvChunks file.bytes companion) accepts
    file.readError
  rw [← hok] at h
  rw [requestOf] at hsent h
  rw [hsent]
  exact h

theorem wholeOrUnfinished_streamPairedCsv (accepts : ℕ → Bool) (file : RecordFile)
    (companion : Option (List UInt8)) :
    WholeOrUnfinished (pairedChunks file.bytes companion) accepts true file.readError
      (PairedCsv.streamPairedCsv ⟨[], accepts⟩ file companion).1.sent
      ((PairedCsv.streamPairedCsv ⟨[], accepts⟩ file companion).2 = .ok) := by
  obtain ⟨hrequest, hok⟩ := streamPairedCsv_putAll ⟨[], accepts⟩ file companion
  have hsent := congrArg Request.sent hrequest
  have h := wholeOrUnfinished_putAll (nil_not_mem_pairedChunks file.bytes companion) accepts
    file.readError
  rw [← hok] at h
  rw [requestOf] at hsent h
  rw [hsent]
  exact h

/-- Whatever the connection and the card do, a client that sees the end of a download has received
all of it: the bytes of the file in blocks of at most 4096, or the header and the rows of all
complete records. Otherwise it has received a leading part without an end, and the handler has
failed. -/
theorem download_whole_or_unfinished (accepts : ℕ → Bool) (allocated : Bool) (file : RecordFile)
    (companion : Option (List UInt8)) :
    (let sent := streamBinary ⟨[], accepts⟩ allocated file
     WholeOrUnfinished (pieces downloadChunkSize file.bytes) accepts allocated file.readError
        sent.1.taken (sent.2 = .ok) ∧
      (pieces downloadChunkSize file.bytes).flatten = file.bytes) ∧
    (let sent := FullCsv.streamCsv ⟨[], accepts⟩ file companion
     WholeOrUnfinished (csvChunks file.bytes companion) accepts true file.readError sent.1.sent
        (sent.2 = .ok)) ∧
    (let sent := PairedCsv.streamPairedCsv ⟨[], accepts⟩ file companion
     WholeOrUnfinished (pairedChunks file.bytes companion) accepts true file.readError sent.1.sent
        (sent.2 = .ok)) := by
  exact ⟨⟨wholeOrUnfinished_streamBinary accepts allocated file,
      flatten_pieces (by decide) file.bytes⟩,
    wholeOrUnfinished_streamCsv accepts file companion,
    wholeOrUnfinished_streamPairedCsv accepts file companion⟩

end BajaDaq.StreamedDownloads
