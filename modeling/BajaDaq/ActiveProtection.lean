import BajaDaq.SessionCreation

/-!
# The recording in progress and the file operations of the browser

Both operations recognize the active recording by comparing names byte for byte. On the card two
names that differ only in the case of letters denote one file.
-/

namespace BajaDaq.ActiveProtection
open DecimalText Directories SessionFiles

/-- The resolution of a FAT volume with long file names: letter case does not matter. -/
def caseFold (path : Text) : Text := path.map Char.toLower

theorem caseFold_append (a b : Text) : caseFold (a ++ b) = caseFold a ++ caseFold b :=
  List.map_append

variable {κ β : Type*} [DecidableEq κ] {resolve : Text → κ} {d : Directory κ β} {s : Logger}
variable {name other : Text} {format : Format} {locked allowed : Bool} {o : RenameOutcome}

/-- Neither the download of `name` nor a rename from or to it, with `other` as the second name,
reaches a file. -/
structure Protected (resolve : Text → κ) (d : Directory κ β) (s : Logger) (name other : Text)
    (format : Format) (locked allowed : Bool) (o : RenameOutcome) : Prop where
  download : downloadHandler resolve d s (some ⟨name, format.text⟩) locked allowed =
    (.conflict, none)
  asOld : dataLoggerRename resolve d s name other o = (d, s, .active) ∨
    dataLoggerRename resolve d s name other o = (d, s, .exists)
  asNew : dataLoggerRename resolve d s other name o = (d, s, .active) ∨
    dataLoggerRename resolve d s other name o = (d, s, .exists)

theorem formatOf_text (format : Format) : formatOf format.text = some format := by
  cases format <;> rfl

omit [DecidableEq κ] in
/-- The download is refused exactly for the name that the status shows. -/
theorem download_conflict_iff (hstate : s.state ≠ .idle)
    (hvalid : dataLoggerValidFilename name = true) :
    downloadHandler resolve d s (some ⟨name, format.text⟩) locked allowed = (.conflict, none) ↔
      name = baseName (dataLoggerPath s) := by
  have hquery : downloadHandler resolve d s (some ⟨name, format.text⟩) locked allowed =
      if name = baseName (dataLoggerPath s) then (.conflict, none)
      else if !locked then (.busy, none)
      else if pathExists resolve d (snprintf 96 (sdRoot ++ name)).1 && allowed then
        (.streamed format, some (snprintf 96 (sdRoot ++ name)).1)
      else (.notFound, some (snprintf 96 (sdRoot ++ name)).1) := by
    simp [downloadHandler, formatOf_text, hvalid, hstate]
  rw [hquery]
  constructor
  · intro h
    by_contra hname
    rw [if_neg hname] at h
    split at h
    · cases h
    · split at h <;> cases h
  · exact fun h => if_pos h

/-- A rename that names the active recording byte for byte is refused. -/
theorem rename_active (hstate : s.state ≠ .idle) {old new : Text}
    (hold : dataLoggerValidFilename old = true) (hnew : dataLoggerValidFilename new = true)
    (hne : old ≠ new) (hmutex : o.mutex = true)
    (hactive : pathOf old = s.logPath ∨ pathOf new = s.logPath) :
    dataLoggerRename resolve d s old new o = (d, s, .active) := by
  simp [dataLoggerRename, hold, hnew, hne, hmutex, hstate, hactive]

/-- A rename that is refused for the sake of a recording names two different files and has taken
the mutex. -/
theorem rename_refused {old new : Text}
    (h : dataLoggerRename resolve d s old new o = (d, s, .active) ∨
      dataLoggerRename resolve d s old new o = (d, s, .exists)) :
    dataLoggerValidFilename old = true ∧ dataLoggerValidFilename new = true ∧ old ≠ new ∧
      o.mutex = true := by
  have hresult : (dataLoggerRename resolve d s old new o).2.2 = .active ∨
      (dataLoggerRename resolve d s old new o).2.2 = .exists := by
    rcases h with h | h <;> simp [h]
  unfold dataLoggerRename at hresult
  split at hresult
  · simp at hresult
  rename_i hvalid
  split at hresult
  · simp at hresult
  rename_i hne
  split at hresult
  · simp at hresult
  rename_i hmutex
  simp only [Bool.or_eq_true, Bool.not_eq_true', not_or, Bool.not_eq_false] at hvalid hmutex
  exact ⟨hvalid.1, hvalid.2, hne, hmutex⟩

/-- An accepted name is protected exactly when it is the active name byte for byte and the
rename's second name is an accepted one that differs from it. -/
theorem protected_iff (resolve : Text → κ) (d : Directory κ β) (s : Logger) (name other : Text)
    (format : Format) (locked allowed : Bool) (o : RenameOutcome) (hstate : s.state ≠ .idle)
    (hpath : s.logPath = sdRoot ++ baseName s.logPath)
    (hvalid : dataLoggerValidFilename name = true) :
    Protected resolve d s name other format locked allowed o ↔
      name = baseName s.logPath ∧ dataLoggerValidFilename other = true ∧ name ≠ other ∧
        o.mutex = true := by
  have hnonempty : s.logPath ≠ [] := by
    rw [hpath]
    exact List.append_ne_nil_of_left_ne_nil (by decide) _
  have hshown : dataLoggerPath s = s.logPath := if_neg hnonempty
  constructor
  · intro h
    have hname := (download_conflict_iff hstate hvalid).mp h.download
    rw [hshown] at hname
    obtain ⟨-, hother, hne, hmutex⟩ := rename_refused h.asOld
    exact ⟨hname, hother, hne, hmutex⟩
  · rintro ⟨hname, hother, hne, hmutex⟩
    have hactive : pathOf name = s.logPath := by
      rw [pathOf_eq hvalid, hname]
      exact hpath.symm
    refine ⟨?_, .inl ?_, .inl ?_⟩
    · rw [download_conflict_iff hstate hvalid, hshown]
      exact hname
    · exact rename_active hstate hvalid hother hne hmutex (.inl hactive)
    · exact rename_active hstate hother hvalid hne.symm hmutex (.inr hactive)

/-- A session records into `log_a.bin`. -/
def recording : Logger :=
  ⟨.running, "/sdcard/log_a.bin".toList, "/sdcard/log_a.bin.utc".toList,
    some "/sdcard/log_a.bin".toList, some "/sdcard/log_a.bin.utc".toList, nofun⟩

def recordingCard : Directory Text ℕ :=
  Function.update (Function.update (fun _ => none) "/sdcard/log_a.bin".toList (some (.file 1)))
    "/sdcard/log_a.bin.utc".toList (some (.file 1))

theorem recording_protected : Protected caseFold recordingCard recording "log_a.bin".toList
    "lap.bin".toList .csv true true ⟨true, true, true⟩ := by
  exact (protected_iff caseFold recordingCard recording _ _ .csv true true ⟨true, true, true⟩
    (by decide) (by decide) (by decide)).mpr ⟨by decide, by decide, by decide, rfl⟩

/-- In capital letters the same file is downloaded, and renamed away from under its session. -/
theorem recordingInCapitals_not_protected :
    caseFold (pathOf "LOG_A.bin".toList) = caseFold recording.logPath ∧
      ¬ Protected caseFold recordingCard recording "LOG_A.bin".toList "lap.bin".toList .csv true
        true ⟨true, true, true⟩ ∧
      (downloadHandler caseFold recordingCard recording
        (some ⟨"LOG_A.bin".toList, Format.csv.text⟩) true true).1 = .streamed .csv ∧
      (dataLoggerRename caseFold recordingCard recording "LOG_A.bin".toList "lap.bin".toList
        ⟨true, true, true⟩).2.2 = .ok ∧
      (dataLoggerRename caseFold recordingCard recording "LOG_A.bin".toList "lap.bin".toList
        ⟨true, true, true⟩).1 (caseFold recording.logPath) = none := by
  refine ⟨by decide, fun h => ?_, by decide, by decide, by decide⟩
  have hdownload := h.download
  revert hdownload
  decide

end BajaDaq.ActiveProtection
