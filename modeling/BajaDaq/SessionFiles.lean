import BajaDaq.DecimalText
import BajaDaq.Directories
import BajaDaq.LoggerSessions

/-!
# Creating, renaming and downloading session files

`data_logger_start` and `data_logger_rename` on the directory of the card, and `download_handler`
up to the `fopen` of the binary. A stream is modelled by the path it was opened at. The outcomes
of the calls that can fail are arguments.
-/

namespace BajaDaq.SessionFiles
open DecimalText Directories
open LoggerSessions (LoggerState)

def logPathLength : ℕ := 64
def dataLoggerFilenameMax : ℕ := 44

def binSuffix : Text := ".bin".toList
def utcSuffix : Text := ".utc".toList
def sdRoot : Text := "/sdcard/".toList

/-- `data_logger_valid_filename`. -/
def dataLoggerValidFilename (filename : Text) : Bool :=
  if filename.length < 5 ∨ filename.length > dataLoggerFilenameMax ∨
      filename.drop (filename.length - 4) ≠ binSuffix then false
  else (filename.take (filename.length - 4)).all (fun c => c.isAlphanum || c == '_' || c == '-')

/-- The path of a recording. -/
def pathOf (filename : Text) : Text := (snprintf logPathLength (sdRoot ++ filename)).1

/-- The path of the companion of the recording at `path`. -/
def utcPathOf (path : Text) : Text := (snprintf (logPathLength + 8) (path ++ utcSuffix)).1

/-- What `choose_default_log_path` leaves in its buffer. -/
structure DefaultPath where
  stem : Text
  fits : (sdRoot ++ stem ++ binSuffix).length < logPathLength

def DefaultPath.path (p : DefaultPath) : Text := sdRoot ++ p.stem ++ binSuffix

/-- The argument of `data_logger_start`; without a name it chooses a path itself. -/
inductive Request where
  | custom (filename : Text)
  | default (chosen : DefaultPath)

/-- The variables of the logger that concern its files. An idle logger has no stream open. -/
structure Logger where
  state : LoggerState
  logPath : Text
  utcPath : Text
  logFile : Option Text
  utcFile : Option Text
  closed : state = .idle → logFile = none ∧ utcFile = none
  deriving DecidableEq, Repr

/-- Both streams are `NULL`. -/
def Logger.closeStreams (s : Logger) : Logger :=
  { s with logFile := none, utcFile := none, closed := fun _ => ⟨rfl, rfl⟩ }

def Logger.init : Logger := ⟨.idle, [], [], none, none, fun _ => ⟨rfl, rfl⟩⟩

inductive StartResult where
  | ok
  | active
  | invalidName
  | exists
  | openFailed
  deriving DecidableEq, Repr

/-- The outcomes of the calls in `data_logger_start`; `errnoExists` says whether `errno` is
`EEXIST` after the last of them. -/
structure StartOutcome where
  mutex : Bool
  openLog : Bool
  fdopenLog : Bool
  openUtc : Bool
  fdopenUtc : Bool
  errnoExists : Bool
  unlinkLog : Bool
  unlinkUtc : Bool
  deriving DecidableEq, Repr

/-- `candidate_path`, unless the name is refused. -/
def candidatePath : Request → Option Text
  | .custom filename => if dataLoggerValidFilename filename then some (pathOf filename) else none
  | .default chosen => some chosen.path

section
variable {κ β : Type*} [DecidableEq κ] (resolve : Text → κ)

def pathExists (d : Directory κ β) (path : Text) : Bool := (stat resolve d path).isSome

/-- The part of `data_logger_start` that holds `file_mutex`. -/
def createFiles (d : Directory κ β) (s : Logger) (candidate : Text) (o : StartOutcome)
    (fresh : β) : Directory κ β × Logger × StartResult :=
  let candidateUtc := utcPathOf candidate
  let logFd := openExcl resolve d candidate fresh o.openLog
  let d := logFd.getD d
  let logFile := logFd.isSome && o.fdopenLog
  let utcFd := if logFile then openExcl resolve d candidateUtc fresh o.openUtc else none
  let d := utcFd.getD d
  let utcFile := utcFd.isSome && o.fdopenUtc
  let d :=
    if logFile && !utcFile then
      let d := unlink resolve d candidate o.unlinkLog
      if utcFd.isSome then unlink resolve d candidateUtc o.unlinkUtc else d
    else d
  if logFile && utcFile then
    (d, ⟨.running, candidate, candidateUtc, some candidate, some candidateUtc, nofun⟩, .ok)
  else
    (d, s.closeStreams, if o.errnoExists then .exists else .openFailed)

def dataLoggerStart (d : Directory κ β) (s : Logger) (request : Request) (o : StartOutcome)
    (fresh : β) : Directory κ β × Logger × StartResult :=
  if s.state ≠ .idle then (d, s, .active)
  else
    match candidatePath request with
    | none => (d, s, .invalidName)
    | some candidate =>
      if pathExists resolve d candidate || pathExists resolve d (utcPathOf candidate) then
        (d, s, .exists)
      else if !o.mutex then (d, s, .openFailed)
      else createFiles resolve d s candidate o fresh

inductive RenameResult where
  | ok
  | invalidName
  | active
  | notFound
  | exists
  | failed
  deriving DecidableEq, Repr

/-- The outcomes of the calls in `data_logger_rename`; a rename undone after the second one
failed succeeds. -/
structure RenameOutcome where
  mutex : Bool
  renameLog : Bool
  renameUtc : Bool
  deriving DecidableEq, Repr

/-- The part of `data_logger_rename` after its tests. -/
def moveFiles (d : Directory κ β) (s : Logger) (oldPath newPath : Text) (o : RenameOutcome) :
    Directory κ β × Logger × RenameResult :=
  let oldUtcPath := utcPathOf oldPath
  let newUtcPath := utcPathOf newPath
  let hasUtc := isFile resolve d oldUtcPath
  match rename resolve d oldPath newPath o.renameLog with
  | none => (d, s, .failed)
  | some moved =>
    match if hasUtc then rename resolve moved oldUtcPath newUtcPath o.renameUtc
      else some moved with
    | none => ((rename resolve moved newPath oldPath true).getD moved, s, .failed)
    | some d =>
      (d, if s.logPath = oldPath then { s with logPath := newPath, utcPath := newUtcPath } else s,
        .ok)

def dataLoggerRename (d : Directory κ β) (s : Logger) (oldFilename newFilename : Text)
    (o : RenameOutcome) : Directory κ β × Logger × RenameResult :=
  if !dataLoggerValidFilename oldFilename || !dataLoggerValidFilename newFilename then
    (d, s, .invalidName)
  else if oldFilename = newFilename then (d, s, .ok)
  else if !o.mutex then (d, s, .failed)
  else
    let oldPath := pathOf oldFilename
    let newPath := pathOf newFilename
    if s.state ≠ .idle ∧ (oldPath = s.logPath ∨ newPath = s.logPath) then (d, s, .active)
    else if !isFile resolve d oldPath then (d, s, .notFound)
    else if pathExists resolve d newPath || pathExists resolve d (utcPathOf newPath) then
      (d, s, .exists)
    else moveFiles resolve d s oldPath newPath o

/-- The formats that `download_handler` knows. -/
inductive Format where
  | bin
  | csv
  | paired
  deriving DecidableEq, Repr

def Format.text : Format → Text
  | .bin => "bin".toList
  | .csv => "csv".toList
  | .paired => "paired".toList

def formatOf (text : Text) : Option Format :=
  if text = Format.bin.text then some .bin
  else if text = Format.csv.text then some .csv
  else if text = Format.paired.text then some .paired
  else none

/-- The values of `name` and `format` in the URL. -/
structure DownloadQuery where
  name : Text
  format : Text
  deriving DecidableEq, Repr

inductive DownloadAnswer where
  | badRequest
  | conflict
  | busy
  | notFound
  | streamed (format : Format)
  deriving DecidableEq, Repr

/-- What follows the last slash. -/
def baseName (path : Text) : Text := (path.reverse.takeWhile (· != '/')).reverse

def dataLoggerPath (s : Logger) : Text := if s.logPath = [] then "none".toList else s.logPath

/-- `download_handler`: its answer and the path it opens, if it comes to that. `query` is `none`
when a part of the URL is missing or does not fit its buffer; `locked` is the outcome of taking
`download_mutex` and `allowed` that of the `fopen` of a file that is there. -/
def downloadHandler (d : Directory κ β) (s : Logger) (query : Option DownloadQuery)
    (locked allowed : Bool) : DownloadAnswer × Option Text :=
  match query.bind fun q => (formatOf q.format).map fun format => (q.name, format) with
  | none => (.badRequest, none)
  | some (name, format) =>
    if !dataLoggerValidFilename name then (.badRequest, none)
    else if s.state ≠ .idle ∧ name = baseName (dataLoggerPath s) then (.conflict, none)
    else if !locked then (.busy, none)
    else
      let path := (snprintf 96 (sdRoot ++ name)).1
      if pathExists resolve d path && allowed then (.streamed format, some path)
      else (.notFound, some path)

end

/-- A path that is not cut in its buffer and names a recording. -/
structure IsLogPath (path : Text) : Prop where
  named : ∃ stem, path = sdRoot ++ stem ++ binSuffix
  fits : path.length < logPathLength

theorem DefaultPath.isLogPath (p : DefaultPath) : IsLogPath p.path := ⟨⟨p.stem, rfl⟩, p.fits⟩

theorem validFilename_bounds {filename : Text} (h : dataLoggerValidFilename filename = true) :
    5 ≤ filename.length ∧ filename.length ≤ dataLoggerFilenameMax ∧
      filename.drop (filename.length - 4) = binSuffix := by
  unfold dataLoggerValidFilename at h
  split at h
  · cases h
  · rename_i hbounds
    simp only [not_or, Nat.not_lt, not_not] at hbounds
    exact hbounds

theorem pathOf_eq {filename : Text} (h : dataLoggerValidFilename filename = true) :
    pathOf filename = sdRoot ++ filename := by
  obtain ⟨-, hlength, -⟩ := validFilename_bounds h
  have hroot : sdRoot.length = 8 := rfl
  apply snprintf_of_lt
  simp only [List.length_append, hroot, logPathLength, dataLoggerFilenameMax] at hlength ⊢
  omega

theorem isLogPath_pathOf {filename : Text} (h : dataLoggerValidFilename filename = true) :
    IsLogPath (pathOf filename) := by
  obtain ⟨-, hlength, hsuffix⟩ := validFilename_bounds h
  rw [pathOf_eq h]
  refine ⟨⟨filename.take (filename.length - 4), ?_⟩, ?_⟩
  · rw [List.append_assoc, ← hsuffix, List.take_append_drop]
  · have hroot : sdRoot.length = 8 := rfl
    simp only [List.length_append, hroot, logPathLength, dataLoggerFilenameMax] at hlength ⊢
    omega

theorem pathOf_inj {a b : Text} (ha : dataLoggerValidFilename a = true)
    (hb : dataLoggerValidFilename b = true) : pathOf a = pathOf b ↔ a = b := by
  rw [pathOf_eq ha, pathOf_eq hb, List.append_cancel_left_eq]

namespace IsLogPath
variable {path other : Text}

theorem utcPathOf_eq (h : IsLogPath path) : utcPathOf path = path ++ utcSuffix := by
  have hfits := h.fits
  have hsuffix : utcSuffix.length = 4 := rfl
  apply snprintf_of_lt
  rw [List.length_append, hsuffix]
  omega

theorem utcPathOf_inj (h : IsLogPath path) (h' : IsLogPath other) :
    utcPathOf path = utcPathOf other ↔ path = other := by
  rw [h.utcPathOf_eq, h'.utcPathOf_eq, List.append_cancel_right_eq]

/-- No recording has the name of a companion. -/
theorem ne_utcPathOf (h : IsLogPath path) (h' : IsLogPath other) : path ≠ utcPathOf other := by
  obtain ⟨stem, rfl⟩ := h.named
  rw [h'.utcPathOf_eq]
  intro heq
  have hlast := congrArg List.getLast? heq
  simp [binSuffix, utcSuffix, List.getLast?_append] at hlast

end IsLogPath

theorem candidatePath_isLogPath {request : Request} {candidate : Text}
    (h : candidatePath request = some candidate) : IsLogPath candidate := by
  cases request with
  | custom filename =>
    by_cases hvalid : dataLoggerValidFilename filename = true
    · obtain rfl : pathOf filename = candidate := by simpa [candidatePath, hvalid] using h
      exact isLogPath_pathOf hvalid
    · simp [candidatePath, hvalid] at h
  | default chosen =>
    obtain rfl : chosen.path = candidate := by simpa [candidatePath] using h
    exact chosen.isLogPath

end BajaDaq.SessionFiles
