import BajaDaq.ActiveProtection
import Mathlib.Data.Char
import Mathlib.Data.List.Lex

/-!
# Completed recordings

`load_completed_logs`, and what the browser can do with a recording once the logger is idle.
-/

namespace BajaDaq.CompletedLogs
open DecimalText Directories SessionFiles ActiveProtection

structure LogEntry where
  name : Text
  size : ℕ
  deriving DecidableEq, Repr

/-- The entries collected so far and the capacity of their array. -/
structure Listing where
  entries : List LogEntry
  capacity : ℕ
  deriving DecidableEq, Repr

/-- The next entry, behind the others, in a larger array where the old one is full; `grown` says
for which capacities `realloc` succeeds. -/
def Listing.push (grown : ℕ → Bool) (listing : Listing) (entry : LogEntry) : Option Listing :=
  if listing.entries.length = listing.capacity then
    let next := if listing.capacity = 0 then 16 else listing.capacity * 2
    if grown next then some ⟨listing.entries ++ [entry], next⟩ else none
  else some ⟨listing.entries ++ [entry], listing.capacity⟩

def activeName (s : Logger) : Option Text :=
  if s.state = .idle then none else some (baseName (dataLoggerPath s))

variable {κ β : Type*} [DecidableEq κ] (resolve : Text → κ) (size : β → ℕ) (grown : ℕ → Bool)
variable (d : Directory κ β) (s : Logger)

/-- One pass of the loop over the items of the directory. -/
def listItem (listing : Listing) (item : Text) : Option Listing :=
  if !dataLoggerValidFilename item || activeName s == some item then some listing
  else
    match stat resolve d (snprintf 96 (sdRoot ++ item)).1 with
    | none => some listing
    | some .other => some listing
    | some (.file contents) =>
      listing.push grown ⟨(snprintf (dataLoggerFilenameMax + 1) item).1, size contents⟩

def alphabeticalDescending (a b : LogEntry) : Bool := decide (b.name ≤ a.name)

/-- `items` are the names that `readdir` returns, `none` if the directory cannot be opened. -/
def loadCompletedLogs (items : Option (List Text)) : Option (List LogEntry) :=
  (items.bind (List.foldlM (listItem resolve size grown d s) ⟨[], 0⟩)).map
    fun listing => listing.entries.mergeSort alphabeticalDescending

/-- The entry of one item, if it is a completed recording. -/
def entryOf (item : Text) : Option LogEntry :=
  if !dataLoggerValidFilename item || activeName s == some item then none
  else
    match d (resolve (sdRoot ++ item)) with
    | some (.file contents) => some ⟨item, size contents⟩
    | _ => none

variable {resolve size grown d s}

omit [DecidableEq κ] in
theorem listPath_eq {name : Text} (h : dataLoggerValidFilename name = true) :
    (snprintf 96 (sdRoot ++ name)).1 = pathOf name := by
  obtain ⟨-, hlength, -⟩ := validFilename_bounds h
  have hroot : sdRoot.length = 8 := rfl
  rw [pathOf_eq h]
  apply snprintf_of_lt
  rw [dataLoggerFilenameMax] at hlength
  rw [List.length_append, hroot]
  omega

theorem valid_of_kept {item : Text}
    (h : ¬ (!dataLoggerValidFilename item || activeName s == some item) = true) :
    dataLoggerValidFilename item = true := by
  simp only [Bool.or_eq_true, Bool.not_eq_true', not_or, Bool.not_eq_false] at h
  exact h.1

theorem push_entries {listing result : Listing} {entry : LogEntry}
    (h : listing.push grown entry = some result) :
    result.entries = listing.entries ++ [entry] := by
  unfold Listing.push at h
  split at h
  · obtain ⟨-, hresult⟩ := Option.ite_none_right_eq_some.mp h
    obtain rfl := Option.some.inj hresult
    rfl
  · obtain rfl := Option.some.inj h
    rfl

theorem push_isSome (hgrown : ∀ n, grown n = true) (listing : Listing) (entry : LogEntry) :
    ∃ result, listing.push grown entry = some result := by
  unfold Listing.push
  split
  · exact ⟨_, if_pos (hgrown _)⟩
  · exact ⟨_, rfl⟩

omit [DecidableEq κ] in
theorem listItem_entries {listing result : Listing} {item : Text}
    (h : listItem resolve size grown d s listing item = some result) :
    result.entries = listing.entries ++ (entryOf resolve size d s item).toList := by
  unfold listItem at h
  unfold entryOf
  split at h
  · rename_i hskip
    obtain rfl := Option.some.inj h
    rw [if_pos hskip, Option.toList_none, List.append_nil]
  rename_i hkeep
  have hvalid := valid_of_kept hkeep
  have hname : (snprintf (dataLoggerFilenameMax + 1) item).1 = item :=
    snprintf_of_lt (Nat.lt_succ_of_le (validFilename_bounds hvalid).2.1)
  rw [if_neg hkeep]
  rw [listPath_eq hvalid, pathOf_eq hvalid, hname, stat] at h
  cases hentry : d (resolve (sdRoot ++ item)) with
  | none =>
    rw [hentry] at h
    obtain rfl := Option.some.inj h
    exact (List.append_nil _).symm
  | some entry =>
    rw [hentry] at h
    cases entry with
    | other =>
      obtain rfl := Option.some.inj h
      exact (List.append_nil _).symm
    | file contents => exact push_entries h

omit [DecidableEq κ] in
theorem listItem_isSome (hgrown : ∀ n, grown n = true) (listing : Listing) (item : Text) :
    ∃ result, listItem resolve size grown d s listing item = some result := by
  unfold listItem
  split
  · exact ⟨_, rfl⟩
  cases stat resolve d (snprintf 96 (sdRoot ++ item)).1 with
  | none => exact ⟨_, rfl⟩
  | some entry =>
    cases entry with
    | other => exact ⟨_, rfl⟩
    | file contents => exact push_isSome hgrown listing _

omit [DecidableEq κ] in
theorem foldlM_listItem {items : List Text} {listing result : Listing}
    (h : items.foldlM (listItem resolve size grown d s) listing = some result) :
    result.entries = listing.entries ++ items.filterMap (entryOf resolve size d s) := by
  induction items generalizing listing with
  | nil =>
    obtain rfl := Option.some.inj h
    exact (List.append_nil _).symm
  | cons item items ih =>
    rw [List.foldlM_cons] at h
    obtain ⟨next, hnext, hrest⟩ := Option.bind_eq_some_iff.mp h
    rw [ih hrest, listItem_entries hnext, List.append_assoc, List.filterMap_cons]
    cases entryOf resolve size d s item with
    | none => rfl
    | some entry => rfl

omit [DecidableEq κ] in
theorem foldlM_listItem_isSome (hgrown : ∀ n, grown n = true) (items : List Text)
    (listing : Listing) :
    ∃ result, items.foldlM (listItem resolve size grown d s) listing = some result := by
  induction items generalizing listing with
  | nil => exact ⟨listing, rfl⟩
  | cons item items ih =>
    obtain ⟨next, hnext⟩ := @listItem_isSome _ _ resolve size grown d s hgrown listing item
    obtain ⟨result, hresult⟩ := ih next
    refine ⟨result, ?_⟩
    rw [List.foldlM_cons, hnext]
    exact hresult

omit [DecidableEq κ] in
/-- The listing has one entry for every item that is a completed recording, and no other. -/
theorem loadCompletedLogs_perm {items : List Text} {entries : List LogEntry}
    (h : loadCompletedLogs resolve size grown d s (some items) = some entries) :
    entries.Perm (items.filterMap (entryOf resolve size d s)) := by
  obtain ⟨listing, hlisting, rfl⟩ := Option.map_eq_some_iff.mp h
  have hentries := foldlM_listItem hlisting
  rw [List.nil_append] at hentries
  rw [← hentries]
  exact List.mergeSort_perm _ _

variable (resolve d s)

/-- The browser can list a recording, download it and give it any free name. -/
structure Usable (name : Text) : Prop where
  listed : ∀ (size : β → ℕ) (grown : ℕ → Bool) (items : List Text), name ∈ items →
    (∀ n, grown n = true) → ∃ entries,
      loadCompletedLogs resolve size grown d s (some items) = some entries ∧
        ∃ entry ∈ entries, entry.name = name
  downloadable : ∀ format : Format,
    downloadHandler resolve d s (some ⟨name, format.text⟩) true true =
      (.streamed format, some (pathOf name))
  renamable : ∀ newName, dataLoggerValidFilename newName = true →
    stat resolve d (pathOf newName) = none → stat resolve d (utcPathOf (pathOf newName)) = none →
    (dataLoggerRename resolve d s name newName ⟨true, true, true⟩).2.2 = .ok

variable {resolve d s}

omit [DecidableEq κ] in
theorem listed_of_file {name : Text} {contents : β} (hidle : s.state = .idle)
    (hvalid : dataLoggerValidFilename name = true)
    (hfile : d (resolve (pathOf name)) = some (.file contents)) {items : List Text}
    (hmem : name ∈ items) (hgrown : ∀ n, grown n = true) :
    ∃ entries, loadCompletedLogs resolve size grown d s (some items) = some entries ∧
      ∃ entry ∈ entries, entry.name = name := by
  obtain ⟨listing, hlisting⟩ :=
    @foldlM_listItem_isSome _ _ resolve size grown d s hgrown items ⟨[], 0⟩
  have hload : loadCompletedLogs resolve size grown d s (some items) =
      some (listing.entries.mergeSort alphabeticalDescending) := by
    rw [loadCompletedLogs, Option.bind_some, hlisting, Option.map_some]
  have hentry : entryOf resolve size d s name = some ⟨name, size contents⟩ := by
    rw [pathOf_eq hvalid] at hfile
    simp [entryOf, activeName, hidle, hvalid, hfile]
  refine ⟨_, hload, ⟨name, size contents⟩, ?_, rfl⟩
  rw [(loadCompletedLogs_perm hload).mem_iff]
  exact List.mem_filterMap.mpr ⟨name, hmem, hentry⟩

omit [DecidableEq κ] in
theorem downloadHandler_of_file {name : Text} {contents : β} (hidle : s.state = .idle)
    (hvalid : dataLoggerValidFilename name = true)
    (hfile : d (resolve (pathOf name)) = some (.file contents)) (format : Format) :
    downloadHandler resolve d s (some ⟨name, format.text⟩) true true =
      (.streamed format, some (pathOf name)) := by
  simp [downloadHandler, formatOf_text, hvalid, hidle, listPath_eq hvalid, pathExists, stat, hfile]

theorem rename_of_file {name newName : Text} {contents : β} (hidle : s.state = .idle)
    (hvalid : dataLoggerValidFilename name = true)
    (hfile : d (resolve (pathOf name)) = some (.file contents))
    (hdistinct : resolve (pathOf name) ≠ resolve (utcPathOf (pathOf name)))
    (hvalid' : dataLoggerValidFilename newName = true)
    (hfree : stat resolve d (pathOf newName) = none)
    (hfree' : stat resolve d (utcPathOf (pathOf newName)) = none) :
    (dataLoggerRename resolve d s name newName ⟨true, true, true⟩).2.2 = .ok := by
  have hregular : isFile resolve d (pathOf name) = true := isFile_iff.mpr ⟨contents, hfile⟩
  have hmoved : rename resolve d (pathOf name) (pathOf newName) true =
      some (Function.update (Function.update d (resolve (pathOf name)) none)
        (resolve (pathOf newName)) (d (resolve (pathOf name)))) := by
    rw [rename, if_pos ⟨rfl, by rw [stat, hfile]; exact Option.some_ne_none _⟩]
  by_cases hsame : name = newName
  · simp [dataLoggerRename, hsame ▸ hvalid, hsame]
  have htests : dataLoggerRename resolve d s name newName ⟨true, true, true⟩ =
      moveFiles resolve d s (pathOf name) (pathOf newName) ⟨true, true, true⟩ := by
    simp [dataLoggerRename, hvalid, hvalid', hsame, hidle, hregular, pathExists, hfree, hfree']
  rw [htests, moveFiles]
  dsimp only
  rw [hmoved]
  dsimp only
  cases hutc : isFile resolve d (utcPathOf (pathOf name)) with
  | false => rfl
  | true =>
    -- The companion is still there after the recording has moved.
    obtain ⟨utc, hutc⟩ := isFile_iff.mp hutc
    have hstat : stat resolve (Function.update (Function.update d (resolve (pathOf name)) none)
        (resolve (pathOf newName)) (d (resolve (pathOf name))))
        (utcPathOf (pathOf name)) ≠ none := by
      rw [stat]
      by_cases hkey : resolve (utcPathOf (pathOf name)) = resolve (pathOf newName)
      · rw [hkey, Function.update_self, hfile]
        exact Option.some_ne_none _
      · rw [Function.update_of_ne hkey, Function.update_of_ne hdistinct.symm, hutc]
        exact Option.some_ne_none _
    rw [if_pos rfl, rename, if_pos ⟨rfl, hstat⟩]

theorem usable_of_file {name : Text} {contents : β} (hidle : s.state = .idle)
    (hvalid : dataLoggerValidFilename name = true)
    (hfile : d (resolve (pathOf name)) = some (.file contents))
    (hdistinct : resolve (pathOf name) ≠ resolve (utcPathOf (pathOf name))) :
    Usable resolve d s name where
  listed _ _ _ hmem hgrown := listed_of_file hidle hvalid hfile hmem hgrown
  downloadable := downloadHandler_of_file hidle hvalid hfile
  renamable _ hvalid' hfree hfree' :=
    rename_of_file hidle hvalid hfile hdistinct hvalid' hfree hfree'

end BajaDaq.CompletedLogs
