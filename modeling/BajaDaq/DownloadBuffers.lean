import BajaDaq.CompletedLogs
import BajaDaq.ExportBuffers

/-!
# The buffers of a listing and a download

`load_completed_logs`, `logs_handler`, `send_json_error` and `download_handler` with a trace of
the texts that they format, on the directory of the card. What a download streams is that of the
two exports; the binary is sent as it is read, with no text.
-/

namespace BajaDaq.DownloadBuffers
open DecimalText hiding snprintf
open SessionFiles hiding Request downloadHandler
open Directories TracedBuffers
open CompletedLogs (LogEntry Listing activeName alphabeticalDescending)
open ExportBuffers (streamPairedCsv streamCsv)
open PairedCsv (EspErr Request RecordFile httpdRespSendChunk)

def errorOpening : Text := "\x7b\"error\":\"".toList
def errorClosing : Text := "\"\x7d".toList
def itemOpening : Text := "\x7b\"name\":\"".toList
def itemSize : Text := "\",\"size_bytes\":".toList
def attachmentOpening : Text := "attachment; filename=\"".toList
def powertrainSuffix : Text := "_powertrain".toList
def csvSuffix : Text := ".csv".toList

/-- What `send_json_error` sends. -/
structure JsonError where
  status : Text
  body : Text
  deriving DecidableEq, Repr

def sendJsonError (status message : Text) : Traced JsonError := do
  let body ← printed 160 (errorOpening ++ message ++ errorClosing)
  return ⟨status, body⟩

variable {κ β : Type*} [DecidableEq κ] (resolve : Text → κ) (size : β → ℕ) (grown : ℕ → Bool)
variable (d : Directory κ β) (s : Logger)

/-- One pass of the loop; the name is written once there is room for it. -/
def listItem (listing : Listing) (item : Text) : Traced (Option Listing) :=
  if !dataLoggerValidFilename item || activeName s == some item then pure (some listing)
  else do
    let path ← printed 96 (sdRoot ++ item)
    match stat resolve d path with
    | none => return some listing
    | some .other => return some listing
    | some (.file contents) =>
      if (listing.push grown ⟨[], size contents⟩).isNone then return none
      else
        let name ← printed (dataLoggerFilenameMax + 1) item
        return listing.push grown ⟨name, size contents⟩

def listItems (listing : Listing) : List Text → Traced (Option Listing)
  | [] => pure (some listing)
  | item :: items => do
    match ← listItem resolve size grown d s listing item with
    | none => return none
    | some next => listItems next items

def loadCompletedLogs (items : Option (List Text)) : Traced (Option (List LogEntry)) :=
  match items with
  | none => pure none
  | some items => do
    let listing ← listItems resolve size grown d s ⟨[], 0⟩ items
    return listing.map fun listing => listing.entries.mergeSort alphabeticalDescending

/-- The text of an entry; the size is printed as a `uint64_t`. -/
def itemText (first : Bool) (entry : LogEntry) : Text :=
  (if first then [] else [',']) ++ itemOpening ++ entry.name ++ itemSize ++
    unsignedText (UInt64.ofNat entry.size).toNat ++ ['\x7d']

/-- The loop of `logs_handler`, up to a chunk that cannot be sent. -/
def sendItems (request : Request) (first : Bool) : List LogEntry → Traced Request
  | [] => pure request
  | entry :: entries => do
    let item ← snprintf 128 (itemText first entry)
    let sent := httpdRespSendChunk request item.1
    if sent.2 ≠ .ok then return sent.1 else sendItems sent.1 false entries

def cardStatus : Text := "500 Internal Server Error".toList
def cardMessage : Text := "Unable to read the SD card".toList

def logsHandler (request : Request) (items : Option (List Text)) :
    Traced (Except JsonError (Request × EspErr)) := do
  match ← loadCompletedLogs resolve size grown d s items with
  | none => return .error (← sendJsonError cardStatus cardMessage)
  | some entries =>
    let listed ← sendItems (httpdRespSendChunk request ['[']).1 true entries
    return .ok (httpdRespSendChunk (httpdRespSendChunk listed [']']).1 [])

/-- The status and the message of a refusal. -/
def refusal : DownloadAnswer → Text × Text
  | .badRequest => ("400 Bad Request".toList,
      "Expected a valid log filename and bin, csv or paired format".toList)
  | .conflict => ("409 Conflict".toList,
      "The active log is not available until Stop completes".toList)
  | .busy => ("503 Service Unavailable".toList, "Another download is already active".toList)
  | .notFound => ("404 Not Found".toList, "Log file not found".toList)
  | .streamed _ => ([], [])

/-- The bytes of the two files and the connection, as the streams find them. -/
structure Streams where
  request : Request
  file : RecordFile
  utcFile : Option (List UInt8)

structure DownloadResponse where
  answer : DownloadAnswer
  path : Option Text
  error : Option JsonError
  disposition : Option Text
  utcPath : Option Text
  streamed : Option (Request × EspErr)

def refuse (answer : DownloadAnswer) (path : Option Text) : Traced DownloadResponse := do
  let error ← sendJsonError (refusal answer).1 (refusal answer).2
  return ⟨answer, path, some error, none, none, none⟩

/-- The name without its last four characters, and what follows it. -/
def csvName (name : Text) (paired : Bool) : Text :=
  name.take (name.length - 4) ++ (if paired then powertrainSuffix else []) ++ csvSuffix

/-- The value of `Content-Disposition` for the two text formats. -/
def csvAttachment (name : Text) (paired : Bool) : Traced Text := do
  let csvName ← printed 48 (csvName name paired)
  printed 80 (attachmentOpening ++ csvName ++ ['"'])

/-- The value of `Content-Disposition`. -/
def attachment (name : Text) : Format → Traced Text
  | .bin => printed 80 (attachmentOpening ++ name ++ ['"'])
  | .csv => csvAttachment name false
  | .paired => csvAttachment name true

/-- The path of the companion, and the result of a stream that reads it. -/
def streamText (path : Text) (streams : Streams)
    (stream : Request → RecordFile → Option (List UInt8) → Traced (Request × EspErr)) :
    Traced (Option Text × Option (Request × EspErr)) := do
  let utcPath ← printed 104 (path ++ utcSuffix)
  let result ← stream streams.request streams.file streams.utcFile
  return (some utcPath, some result)

def streamFile (path : Text) (streams : Streams) :
    Format → Traced (Option Text × Option (Request × EspErr))
  | .bin => pure (none, none)
  | .csv => streamText path streams streamCsv
  | .paired => streamText path streams streamPairedCsv

def downloadHandler (query : Option DownloadQuery) (locked allowed : Bool) (streams : Streams) :
    Traced DownloadResponse :=
  match query.bind fun q => (formatOf q.format).map fun format => (q.name, format) with
  | none => refuse .badRequest none
  | some (name, format) =>
    if !dataLoggerValidFilename name then refuse .badRequest none
    else if s.state ≠ .idle ∧ name = baseName (dataLoggerPath s) then refuse .conflict none
    else if !locked then refuse .busy none
    else do
      let path ← printed 96 (sdRoot ++ name)
      if pathExists resolve d path && allowed then
        let disposition ← attachment name format
        let (utcPath, streamed) ← streamFile path streams format
        return ⟨.streamed format, some path, none, some disposition, utcPath, streamed⟩
      else refuse .notFound (some path)

theorem push_isNone (listing : Listing) (a b : LogEntry) :
    (listing.push grown a).isNone = (listing.push grown b).isNone := by
  unfold Listing.push
  dsimp only
  split
  · rw [apply_ite Option.isNone, apply_ite Option.isNone]
    rfl
  · rfl

variable {resolve size grown d s}

omit [DecidableEq κ] in
theorem value_listItem (listing : Listing) (item : Text) :
    value (listItem resolve size grown d s listing item) =
      CompletedLogs.listItem resolve size grown d s listing item := by
  unfold listItem CompletedLogs.listItem
  rw [value_ite]
  by_cases hskip : (!dataLoggerValidFilename item || activeName s == some item) = true
  · rw [if_pos hskip, if_pos hskip]
    rfl
  · rw [if_neg hskip, if_neg hskip, value_bind, value_printed]
    cases hstat : stat resolve d (DecimalText.snprintf 96 (sdRoot ++ item)).1 with
    | none => rfl
    | some entry =>
      cases entry with
      | other => rfl
      | file contents =>
        dsimp only
        rw [value_ite, push_isNone grown listing ⟨[], size contents⟩
          ⟨(DecimalText.snprintf (dataLoggerFilenameMax + 1) item).1, size contents⟩]
        split
        · next hnone => exact (Option.isNone_iff_eq_none.mp hnone).symm
        · rfl

omit [DecidableEq κ] in
theorem value_listItems (items : List Text) (listing : Listing) :
    value (listItems resolve size grown d s listing items) =
      items.foldlM (CompletedLogs.listItem resolve size grown d s) listing := by
  induction items generalizing listing with
  | nil => rfl
  | cons item items ih =>
    rw [listItems, value_bind, value_listItem, List.foldlM_cons]
    cases CompletedLogs.listItem resolve size grown d s listing item with
    | none => rfl
    | some next => exact ih next

omit [DecidableEq κ] in
theorem value_loadCompletedLogs (items : Option (List Text)) :
    value (loadCompletedLogs resolve size grown d s items) =
      CompletedLogs.loadCompletedLogs resolve size grown d s items := by
  cases items with
  | none => rfl
  | some items =>
    rw [loadCompletedLogs, value_bind, value_listItems]
    rfl

omit [DecidableEq κ] in
/-- The answer and the path are those of `download_handler` without its texts. -/
theorem value_downloadHandler (query : Option DownloadQuery) (locked allowed : Bool)
    (streams : Streams) :
    ((value (downloadHandler resolve d s query locked allowed streams)).answer,
      (value (downloadHandler resolve d s query locked allowed streams)).path) =
    SessionFiles.downloadHandler resolve d s query locked allowed := by
  unfold downloadHandler SessionFiles.downloadHandler
  cases query.bind fun q => (formatOf q.format).map fun format => (q.name, format) with
  | none => rfl
  | some found =>
    obtain ⟨name, format⟩ := found
    dsimp only
    split
    · rfl
    split
    · rfl
    split
    · rfl
    rw [value_bind, value_printed, value_ite]
    split
    · rfl
    · rfl

theorem whole_sendJsonError {status message : Text} (h : message.length < 140) :
    Whole (sendJsonError status message) := by
  have hopening : errorOpening.length = 10 := by decide
  have hclosing : errorClosing.length = 2 := by decide
  refine (whole_bind _ _).mpr ⟨(whole_printed _ _).mpr ?_, whole_pure _⟩
  rw [List.length_append, List.length_append, hopening, hclosing]
  omega

theorem length_path_lt {name : Text} (h : dataLoggerValidFilename name = true) {n : ℕ}
    (hn : 52 < n) : (sdRoot ++ name).length < n := by
  obtain ⟨-, hlength, -⟩ := validFilename_bounds h
  have hroot : sdRoot.length = 8 := rfl
  rw [dataLoggerFilenameMax] at hlength
  rw [List.length_append, hroot]
  omega

omit [DecidableEq κ] in
theorem whole_listItem (listing : Listing) (item : Text) :
    Whole (listItem resolve size grown d s listing item) := by
  refine whole_ite (fun _ => whole_pure _) fun hkeep => ?_
  have hvalid := CompletedLogs.valid_of_kept hkeep
  refine (whole_bind _ _).mpr ⟨(whole_printed _ _).mpr (length_path_lt hvalid (by omega)), ?_⟩
  cases stat resolve d (value (printed 96 (sdRoot ++ item))) with
  | none => exact whole_pure _
  | some entry =>
    cases entry with
    | other => exact whole_pure _
    | file contents =>
      refine whole_ite (fun _ => whole_pure _) fun _ => ?_
      refine (whole_bind _ _).mpr ⟨(whole_printed _ _).mpr ?_, whole_pure _⟩
      exact Nat.lt_succ_of_le (validFilename_bounds hvalid).2.1

omit [DecidableEq κ] in
theorem whole_listItems (items : List Text) (listing : Listing) :
    Whole (listItems resolve size grown d s listing items) := by
  induction items generalizing listing with
  | nil => exact whole_pure _
  | cons item items ih =>
    refine (whole_bind _ _).mpr ⟨whole_listItem _ _, ?_⟩
    cases value (listItem resolve size grown d s listing item) with
    | none => exact whole_pure _
    | some next => exact ih next

omit [DecidableEq κ] in
theorem whole_loadCompletedLogs (items : Option (List Text)) :
    Whole (loadCompletedLogs resolve size grown d s items) := by
  cases items with
  | none => exact whole_pure _
  | some items => exact (whole_bind _ _).mpr ⟨whole_listItems _ _, whole_pure _⟩

/-- An item with the longest name and the largest size takes 90 characters. -/
theorem length_itemText_le (first : Bool) {entry : LogEntry}
    (h : entry.name.length ≤ dataLoggerFilenameMax) : (itemText first entry).length ≤ 90 := by
  have hopening : itemOpening.length = 9 := by decide
  have hsize : itemSize.length = 15 := by decide
  have hcomma : (if first then ([] : Text) else [',']).length ≤ 1 := by
    cases first <;> decide
  have hnumber := (UInt64.ofNat entry.size).toNat_lt
  have hdigits := (length_unsignedText_le (n := (UInt64.ofNat entry.size).toNat) (k := 20)
    (by omega)).mpr (by omega)
  rw [dataLoggerFilenameMax] at h
  simp only [itemText, List.length_append, hopening, hsize, List.length_singleton]
  omega

theorem whole_sendItems (entries : List LogEntry)
    (h : ∀ entry ∈ entries, entry.name.length ≤ dataLoggerFilenameMax) (request : Request)
    (first : Bool) : Whole (sendItems request first entries) := by
  induction entries generalizing request first with
  | nil => exact whole_pure _
  | cons entry entries ih =>
    have hitem := length_itemText_le first (h entry List.mem_cons_self)
    refine (whole_bind _ _).mpr ⟨(whole_snprintf _ _).mpr (by omega), ?_⟩
    refine whole_ite (fun _ => whole_pure _) fun _ => ?_
    exact ih (fun other hother => h other (List.mem_cons_of_mem entry hother)) _ _

omit [DecidableEq κ] in
/-- The array holds names that fit their field. -/
theorem length_name_le {items : Option (List Text)} {entries : List LogEntry}
    (h : CompletedLogs.loadCompletedLogs resolve size grown d s items = some entries) :
    ∀ entry ∈ entries, entry.name.length ≤ dataLoggerFilenameMax := by
  cases items with
  | none => cases h
  | some items =>
    intro entry hentry
    have hperm := CompletedLogs.loadCompletedLogs_perm h
    obtain ⟨item, -, hitem⟩ := List.mem_filterMap.mp (hperm.mem_iff.mp hentry)
    unfold CompletedLogs.entryOf at hitem
    split at hitem
    · cases hitem
    · next hkeep =>
      split at hitem
      · obtain rfl := Option.some.inj hitem
        exact (validFilename_bounds (CompletedLogs.valid_of_kept hkeep)).2.1
      · cases hitem

omit [DecidableEq κ] in
/-- The listing cuts nothing, for any directory. -/
theorem whole_logsHandler (request : Request) (items : Option (List Text)) :
    Whole (logsHandler resolve size grown d s request items) := by
  refine (whole_bind _ _).mpr ⟨whole_loadCompletedLogs _, ?_⟩
  rw [value_loadCompletedLogs]
  cases h : CompletedLogs.loadCompletedLogs resolve size grown d s items with
  | none =>
    have hmessage : cardMessage.length < 140 := by decide
    exact (whole_bind _ _).mpr ⟨whole_sendJsonError hmessage, whole_pure _⟩
  | some entries =>
    exact (whole_bind _ _).mpr ⟨whole_sendItems _ (length_name_le h) _ _, whole_pure _⟩

theorem whole_refuse (answer : DownloadAnswer) (path : Option Text) :
    Whole (refuse answer path) := by
  have hmessage : (refusal answer).2.length < 140 := by
    cases answer with
    | streamed format => exact Nat.zero_lt_succ _
    | _ => decide
  exact (whole_bind _ _).mpr ⟨whole_sendJsonError hmessage, whole_pure _⟩

/-- The name of the download for a recording with this stem. -/
def offeredName (stem : Text) : Format → Text
  | .bin => stem ++ binSuffix
  | .csv => stem ++ csvSuffix
  | .paired => stem ++ powertrainSuffix ++ csvSuffix

/-- The name without its extension. -/
def stemOf (name : Text) : Text := name.take (name.length - 4)

theorem stemOf_append {name : Text} (h : dataLoggerValidFilename name = true) :
    stemOf name ++ binSuffix = name := by
  obtain ⟨-, -, hsuffix⟩ := validFilename_bounds h
  rw [stemOf, ← hsuffix]
  exact List.take_append_drop _ _

theorem length_csvName {name : Text} (h : dataLoggerValidFilename name = true) :
    (csvName name false).length = name.length ∧ (csvName name true).length = name.length + 11 := by
  obtain ⟨hlow, -, -⟩ := validFilename_bounds h
  have hcsv : csvSuffix.length = 4 := by decide
  have hpowertrain : powertrainSuffix.length = 11 := by decide
  simp only [csvName, List.length_append, List.length_take, hcsv, if_true, hpowertrain,
    Bool.false_eq_true, if_false, List.length_nil]
  omega

/-- The header value is whole around any name that fits its buffer, so that only the name itself
can be cut. -/
theorem whole_csvAttachment (name : Text) (paired : Bool) :
    Whole (csvAttachment name paired) ↔ (csvName name paired).length < 48 := by
  have hopening : attachmentOpening.length = 22 := by decide
  have hname : (value (printed 48 (csvName name paired))).length ≤ 47 := List.length_take_le _ _
  have hheader : Whole (printed 80
      (attachmentOpening ++ value (printed 48 (csvName name paired)) ++ ['"'])) := by
    refine (whole_printed _ _).mpr ?_
    rw [List.length_append, List.length_append, hopening, List.length_singleton]
    omega
  rw [csvAttachment, whole_bind, whole_printed]
  exact and_iff_left hheader

theorem value_csvAttachment {name : Text} {paired : Bool}
    (h : (csvName name paired).length < 48) :
    value (csvAttachment name paired) = attachmentOpening ++ csvName name paired ++ ['"'] := by
  obtain ⟨hname, hheader⟩ := (whole_bind _ _).mp ((whole_csvAttachment name paired).mpr h)
  rw [value_of_whole hname] at hheader
  rw [csvAttachment, value_bind, value_of_whole hname, value_of_whole hheader]

/-- The buffer of the name is made for the longest name with another extension, and is too small
for the longest names with the suffix of the powertrain export. -/
theorem whole_attachment {name : Text} (h : dataLoggerValidFilename name = true)
    (format : Format) :
    Whole (attachment name format) ↔ (format = .paired → name.length ≤ 36) := by
  obtain ⟨-, hlength, -⟩ := validFilename_bounds h
  obtain ⟨hcsv, hpaired⟩ := length_csvName h
  rw [dataLoggerFilenameMax] at hlength
  cases format with
  | bin =>
    have hopening : attachmentOpening.length = 22 := by decide
    refine iff_of_true ((whole_printed _ _).mpr ?_) fun hformat => Format.noConfusion hformat
    rw [List.length_append, List.length_append, hopening, List.length_singleton]
    omega
  | csv =>
    refine iff_of_true ((whole_csvAttachment name false).mpr ?_)
      fun hformat => Format.noConfusion hformat
    omega
  | paired =>
    rw [attachment, whole_csvAttachment, hpaired]
    constructor
    · intro hfits _
      omega
    · intro hshort
      have hle := hshort rfl
      omega

theorem value_attachment {name : Text} (h : dataLoggerValidFilename name = true)
    {format : Format} (hshort : format = .paired → name.length ≤ 36) :
    value (attachment name format) =
      attachmentOpening ++ offeredName (stemOf name) format ++ ['"'] := by
  have hwhole := (whole_attachment h format).mpr hshort
  cases format with
  | bin =>
    rw [offeredName, stemOf_append h]
    exact value_of_whole hwhole
  | csv =>
    have hcsv : csvName name false = offeredName (stemOf name) .csv := by
      rw [csvName, if_neg Bool.false_ne_true, List.append_nil]
      rfl
    rw [← hcsv]
    exact value_csvAttachment ((whole_csvAttachment name false).mp hwhole)
  | paired => exact value_csvAttachment ((whole_csvAttachment name true).mp hwhole)

theorem whole_streamText {path : Text} (h : path.length < 100) (streams : Streams)
    {stream : Request → RecordFile → Option (List UInt8) → Traced (Request × EspErr)}
    (hstream : ∀ request file utcFile, Whole (stream request file utcFile)) :
    Whole (streamText path streams stream) := by
  have hsuffix : utcSuffix.length = 4 := rfl
  have hpath : (path ++ utcSuffix).length < 104 := by
    rw [List.length_append, hsuffix]
    omega
  refine (whole_bind _ _).mpr ⟨(whole_printed _ _).mpr hpath, ?_⟩
  exact (whole_bind _ _).mpr ⟨hstream _ _ _, whole_pure _⟩

theorem whole_streamFile {path : Text} (h : path.length < 100) (streams : Streams)
    (format : Format) : Whole (streamFile path streams format) := by
  cases format with
  | bin => exact whole_pure _
  | csv => exact whole_streamText h streams ExportBuffers.whole_streamCsv
  | paired => exact whole_streamText h streams ExportBuffers.whole_streamPairedCsv

variable (resolve d s)

/-- The download of a recording gets as far as its headers. -/
def Offered (name : Text) (locked allowed : Bool) : Prop :=
  ¬ (s.state ≠ .idle ∧ name = baseName (dataLoggerPath s)) ∧ locked = true ∧
    pathExists resolve d (sdRoot ++ name) = true ∧ allowed = true

variable {resolve d s}

omit [DecidableEq κ] in
/-- A download that is not offered ends in a refusal. -/
theorem refused {name : Text} (hvalid : dataLoggerValidFilename name = true) (format : Format)
    {locked allowed : Bool} (h : ¬ Offered resolve d s name locked allowed) (streams : Streams) :
    Whole (downloadHandler resolve d s (some ⟨name, format.text⟩) locked allowed streams) ∧
      (value (downloadHandler resolve d s (some ⟨name, format.text⟩) locked allowed
        streams)).disposition = none := by
  have hpath := length_path_lt hvalid (n := 96) (by omega)
  simp only [downloadHandler, Option.bind_some, ActiveProtection.formatOf_text, Option.map_some,
    hvalid, Bool.not_true, Bool.false_eq_true, if_false]
  split
  · exact ⟨whole_refuse _ _, rfl⟩
  next hactive =>
  split
  · exact ⟨whole_refuse _ _, rfl⟩
  next hlocked =>
  have hlocked : locked = true := by simpa using hlocked
  have hbuffer : Whole (printed 96 (sdRoot ++ name)) := (whole_printed _ _).mpr hpath
  rw [whole_bind, value_bind, value_of_whole hbuffer]
  split
  · next hfound =>
    obtain ⟨hexists, hallowed⟩ := Bool.and_eq_true_iff.mp hfound
    exact absurd ⟨hactive, hlocked, hexists, hallowed⟩ h
  · exact ⟨⟨hbuffer, whole_refuse _ _⟩, rfl⟩

omit [DecidableEq κ] in
/-- A download that is offered is whole if its header is, and sends that header. -/
theorem offered {name : Text} (hvalid : dataLoggerValidFilename name = true) (format : Format)
    {locked allowed : Bool} (h : Offered resolve d s name locked allowed) (streams : Streams) :
    (Whole (downloadHandler resolve d s (some ⟨name, format.text⟩) locked allowed streams) ↔
      Whole (attachment name format)) ∧
      (value (downloadHandler resolve d s (some ⟨name, format.text⟩) locked allowed
        streams)).disposition = some (value (attachment name format)) := by
  obtain ⟨hactive, rfl, hexists, rfl⟩ := h
  have hpath := length_path_lt hvalid (n := 96) (by omega)
  have hbuffer : Whole (printed 96 (sdRoot ++ name)) := (whole_printed _ _).mpr hpath
  simp only [downloadHandler, Option.bind_some, ActiveProtection.formatOf_text, Option.map_some,
    hvalid, Bool.not_true, Bool.false_eq_true, if_false, if_neg hactive]
  rw [whole_bind, value_bind, value_of_whole hbuffer, hexists]
  refine ⟨?_, rfl⟩
  have hstream := whole_streamFile (length_path_lt hvalid (n := 100) (by omega)) streams format
  constructor
  · intro hwhole
    exact ((whole_bind _ _).mp hwhole.2).1
  · intro hheader
    exact ⟨hbuffer, (whole_bind _ _).mpr ⟨hheader, (whole_bind _ _).mpr ⟨hstream, whole_pure _⟩⟩⟩

omit [DecidableEq κ] in
/-- For every accepted name, format, directory and content of the files: all buffers of the
listing and of the download hold their complete texts, and the offered name is the stem with the
extension of the format, if and only if this is not the powertrain export of a name of more than
36 characters. -/
theorem nothing_cut_iff (size : β → ℕ) (grown : ℕ → Bool) (listing : Request)
    (items : Option (List Text)) (name : Text) (format : Format) (locked allowed : Bool)
    (streams : Streams) (hvalid : dataLoggerValidFilename name = true) :
    (Whole (logsHandler resolve size grown d s listing items) ∧
      Whole (downloadHandler resolve d s (some ⟨name, format.text⟩) locked allowed streams) ∧
      ∀ text, (value (downloadHandler resolve d s (some ⟨name, format.text⟩) locked allowed
        streams)).disposition = some text →
          text = attachmentOpening ++ offeredName (stemOf name) format ++ ['"']) ↔
    (format = .paired → Offered resolve d s name locked allowed → name.length ≤ 36) := by
  have hlisting := @whole_logsHandler κ β resolve size grown d s listing items
  by_cases hoffered : Offered resolve d s name locked allowed
  · obtain ⟨hwhole, hdisposition⟩ := offered hvalid format hoffered streams
    rw [hwhole, hdisposition, whole_attachment hvalid]
    constructor
    · intro h hpaired _
      exact h.2.1 hpaired
    · intro h
      have hshort : format = .paired → name.length ≤ 36 := fun hpaired => h hpaired hoffered
      refine ⟨hlisting, hshort, fun text htext => ?_⟩
      obtain rfl := Option.some.inj htext
      exact value_attachment hvalid hshort
  · obtain ⟨hwhole, hdisposition⟩ := refused hvalid format hoffered streams
    rw [hdisposition]
    exact iff_of_true ⟨hlisting, hwhole, nofun⟩ fun _ h => absurd h hoffered

/-- A card on which every name is a recording, and a log without records. -/
def fullCard : Directory Text Unit := fun _ => some (.file ())

def emptyStreams : Streams := ⟨⟨[], fun _ => true⟩, ⟨[], false⟩, none⟩

/-- A name of `n` letters and the extension. -/
def longName (n : ℕ) : Text := List.replicate n 'a' ++ binSuffix

theorem nothing_cut_iff_longest :
    Whole (downloadHandler id fullCard .init (some ⟨longName 32, Format.paired.text⟩) true true
      emptyStreams) ∧
    (value (downloadHandler id fullCard .init (some ⟨longName 40, Format.csv.text⟩) true true
      emptyStreams)).disposition =
        some (attachmentOpening ++ List.replicate 40 'a' ++ csvSuffix ++ ['"']) := by
  have hpaired := (@nothing_cut_iff Text Unit id fullCard .init (fun _ => 0) (fun _ => true)
    emptyStreams.request none (longName 32) .paired true true emptyStreams (by decide)).mpr
    (fun _ _ => by decide)
  have hcsv := (@nothing_cut_iff Text Unit id fullCard .init (fun _ => 0) (fun _ => true)
    emptyStreams.request none (longName 40) .csv true true emptyStreams (by decide)).mpr nofun
  refine ⟨hpaired.2.1, ?_⟩
  have hsent : (value (downloadHandler id fullCard .init
      (some ⟨longName 40, Format.csv.text⟩) true true emptyStreams)).disposition =
      some (value (attachment (longName 40) .csv)) := rfl
  rw [hsent, hcsv.2.2 _ hsent]
  rfl

/-- The powertrain export of a name of 37 characters is offered without the last letter of its
extension. -/
theorem powertrain_name_cut :
    dataLoggerValidFilename (longName 33) = true ∧
    ¬ Whole (downloadHandler id fullCard .init (some ⟨longName 33, Format.paired.text⟩) true true
      emptyStreams) ∧
    (value (downloadHandler id fullCard .init (some ⟨longName 33, Format.paired.text⟩) true true
      emptyStreams)).disposition =
        some (attachmentOpening ++ List.replicate 33 'a' ++ "_powertrain.cs\"".toList) := by
  decide +kernel

end BajaDaq.DownloadBuffers
