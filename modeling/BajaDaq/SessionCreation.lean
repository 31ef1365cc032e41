import BajaDaq.SessionFiles

/-!
# What a failed session creation leaves behind

`data_logger_start` acquires two files with four calls that can fail. It undoes what it has done
after three of them; when the `fdopen` of the binary fails, the file just created stays.
-/

namespace BajaDaq.SessionCreation
open DecimalText Directories SessionFiles

variable {κ β : Type*} [DecidableEq κ] {resolve : Text → κ}
variable {d : Directory κ β} {s : Logger} {candidate : Text} {o : StartOutcome} {fresh : β}

/-- Both files have just been created and are open. -/
structure Created (resolve : Text → κ) (d : Directory κ β) (candidate : Text) (fresh : β)
    (r : Directory κ β × Logger × StartResult) : Prop where
  free : d (resolve candidate) = none ∧ d (resolve (utcPathOf candidate)) = none
  log : r.1 (resolve candidate) = some (.file fresh)
  utc : r.1 (resolve (utcPathOf candidate)) = some (.file fresh)
  others : ∀ key, key ≠ resolve candidate → key ≠ resolve (utcPathOf candidate) →
    r.1 key = d key
  running : r.2.1.state = .running
  paths : r.2.1.logPath = candidate ∧ r.2.1.utcPath = utcPathOf candidate
  handles : r.2.1.logFile = some candidate ∧ r.2.1.utcFile = some (utcPathOf candidate)

/-- A failure changes nothing, and a success creates both files and touches no other. -/
structure LeavesNoTrace (resolve : Text → κ) (d : Directory κ β) (s : Logger)
    (request : Request) (fresh : β) (r : Directory κ β × Logger × StartResult) : Prop where
  failed : r.2.2 ≠ .ok → r.1 = d ∧ r.2.1 = s
  created : r.2.2 = .ok → ∃ candidate, candidatePath request = some candidate ∧
    Created resolve d candidate fresh r

/-- The call gets as far as the `fdopen` of the binary it has just created, and that fails. -/
def FdopenFails (resolve : Text → κ) (d : Directory κ β) (s : Logger) (request : Request)
    (o : StartOutcome) : Prop :=
  s.state = .idle ∧ (∃ candidate, candidatePath request = some candidate ∧
    d (resolve candidate) = none ∧ d (resolve (utcPathOf candidate)) = none) ∧
    o.mutex = true ∧ o.openLog = true ∧ o.fdopenLog = false

theorem closeStreams_eq (h : s.state = .idle) : s.closeStreams = s := by
  obtain ⟨hlog, hutc⟩ := s.closed h
  cases s
  simp_all [Logger.closeStreams]

theorem failure_ne_ok (b : Bool) : (if b then StartResult.exists else .openFailed) ≠ .ok := by
  cases b <;> decide

/-- What is left of the files when the companion cannot be opened. -/
structure Undone (resolve : Text → κ) (d : Directory κ β) (candidate : Text) (o : StartOutcome)
    (fresh : β) (t : Directory κ β) : Prop where
  clean : o.unlinkLog = true → o.unlinkUtc = true → t = d
  others : ∀ key, key ≠ resolve candidate → key ≠ resolve (utcPathOf candidate) → t key = d key
  rewritten : Rewritten d t fresh

theorem createFiles_open_fails (s : Logger) (fresh : β) (hopen : o.openLog = false) :
    createFiles resolve d s candidate o fresh =
      (d, s.closeStreams, if o.errnoExists then .exists else .openFailed) := by
  simp [createFiles, openExcl, hopen]

/-- The created binary stays, although the call reports a failure. -/
theorem createFiles_fdopen_fails (s : Logger) (fresh : β) (hfree : d (resolve candidate) = none)
    (hopen : o.openLog = true) (hfdopen : o.fdopenLog = false) :
    createFiles resolve d s candidate o fresh =
      (Function.update d (resolve candidate) (some (.file fresh)), s.closeStreams,
        if o.errnoExists then .exists else .openFailed) := by
  simp [createFiles, openExcl, stat, hopen, hfdopen, hfree]

theorem createFiles_utc_fails (s : Logger) (fresh : β) (hfree : d (resolve candidate) = none)
    (hopen : o.openLog = true) (hfdopen : o.fdopenLog = true)
    (hutc : (openExcl resolve (Function.update d (resolve candidate) (some (.file fresh)))
      (utcPathOf candidate) fresh o.openUtc).isSome = true → o.fdopenUtc = false) :
    ∃ t, Undone resolve d candidate o fresh t ∧
      createFiles resolve d s candidate o fresh =
        (t, s.closeStreams, if o.errnoExists then .exists else .openFailed) := by
  have hlog : openExcl resolve d candidate fresh o.openLog =
      some (Function.update d (resolve candidate) (some (.file fresh))) := by
    simp [openExcl, stat, hopen, hfree]
  cases hfd : openExcl resolve (Function.update d (resolve candidate) (some (.file fresh)))
      (utcPathOf candidate) fresh o.openUtc with
  | none =>
    refine ⟨unlink resolve (Function.update d (resolve candidate) (some (.file fresh))) candidate
      o.unlinkLog, ⟨?_, ?_, ?_⟩, ?_⟩
    · intro hunlink _
      rw [hunlink]
      exact unlink_openExcl hlog
    · intro key hkey _
      rw [unlink_of_ne hkey, Function.update_of_ne hkey]
    · exact ((Rewritten.refl d fresh).create _).unlink candidate _
    · simp [createFiles, hlog, hfdopen, hfd]
  | some t =>
    have hfdopenUtc : o.fdopenUtc = false := hutc (by rw [hfd]; rfl)
    obtain ⟨hfreeUtc, rfl⟩ := openExcl_eq_some hfd
    have hne : resolve (utcPathOf candidate) ≠ resolve candidate := by
      intro heq
      rw [heq, Function.update_self] at hfreeUtc
      cases hfreeUtc
    rw [Function.update_of_ne hne] at hfreeUtc
    refine ⟨unlink resolve (unlink resolve (Function.update (Function.update d (resolve candidate)
      (some (.file fresh))) (resolve (utcPathOf candidate)) (some (.file fresh))) candidate
      o.unlinkLog) (utcPathOf candidate) o.unlinkUtc, ⟨?_, ?_, ?_⟩, ?_⟩
    · intro hunlink hunlinkUtc
      rw [hunlink, hunlinkUtc]
      funext key
      by_cases hkeyUtc : key = resolve (utcPathOf candidate)
      · rw [hkeyUtc, unlink, if_pos rfl, Function.update_self, hfreeUtc]
      rw [unlink_of_ne hkeyUtc]
      by_cases hkey : key = resolve candidate
      · rw [hkey, unlink, if_pos rfl, Function.update_self, hfree]
      · rw [unlink_of_ne hkey, Function.update_of_ne hkeyUtc, Function.update_of_ne hkey]
    · intro key hkey hkeyUtc
      rw [unlink_of_ne hkeyUtc, unlink_of_ne hkey, Function.update_of_ne hkeyUtc,
        Function.update_of_ne hkey]
    · exact ((((Rewritten.refl d fresh).create _).create _).unlink candidate _).unlink _ _
    · simp [createFiles, hlog, hfdopen, hfd, hfdopenUtc]

theorem createFiles_ok (s : Logger) (fresh : β) (hfree : d (resolve candidate) = none)
    (hopen : o.openLog = true) (hfdopen : o.fdopenLog = true)
    (hutc : (openExcl resolve (Function.update d (resolve candidate) (some (.file fresh)))
      (utcPathOf candidate) fresh o.openUtc).isSome = true)
    (hfdopenUtc : o.fdopenUtc = true) :
    (createFiles resolve d s candidate o fresh).2.2 = .ok ∧
      Created resolve d candidate fresh (createFiles resolve d s candidate o fresh) := by
  have hlog : openExcl resolve d candidate fresh o.openLog =
      some (Function.update d (resolve candidate) (some (.file fresh))) := by
    simp [openExcl, stat, hopen, hfree]
  obtain ⟨t, hfd⟩ := Option.isSome_iff_exists.mp hutc
  obtain ⟨hfreeUtc, rfl⟩ := openExcl_eq_some hfd
  have hne : resolve (utcPathOf candidate) ≠ resolve candidate := by
    intro heq
    rw [heq, Function.update_self] at hfreeUtc
    cases hfreeUtc
  rw [Function.update_of_ne hne] at hfreeUtc
  have hcreate : createFiles resolve d s candidate o fresh =
      (Function.update (Function.update d (resolve candidate) (some (.file fresh)))
        (resolve (utcPathOf candidate)) (some (.file fresh)),
        ⟨.running, candidate, utcPathOf candidate, some candidate, some (utcPathOf candidate),
          fun hidle => LoggerSessions.LoggerState.noConfusion hidle⟩, .ok) := by
    simp [createFiles, hlog, hfdopen, hfd, hfdopenUtc]
  rw [hcreate]
  refine ⟨rfl, ⟨hfree, hfreeUtc⟩, ?_, ?_, ?_, rfl, ⟨rfl, rfl⟩, rfl, rfl⟩
  · simp [Function.update_of_ne hne.symm]
  · simp
  · intro key hkey hkeyUtc
    simp [Function.update_of_ne hkey, Function.update_of_ne hkeyUtc]

/-- What `data_logger_start` can do: refuse without a trace, leave the stray binary, undo what it
has created, or create both files. -/
inductive StartCase (resolve : Text → κ) (d : Directory κ β) (s : Logger) (request : Request)
    (o : StartOutcome) (fresh : β) : Directory κ β × Logger × StartResult → Prop
  | refused {result : StartResult} (hr : result ≠ .ok)
      (hf : ¬ FdopenFails resolve d s request o) :
      StartCase resolve d s request o fresh (d, s, result)
  | stray {candidate : Text} {result : StartResult} (hr : result ≠ .ok)
      (hc : candidatePath request = some candidate) (hf : FdopenFails resolve d s request o)
      (hlog : d (resolve candidate) = none) (hutc : d (resolve (utcPathOf candidate)) = none) :
      StartCase resolve d s request o fresh
        (Function.update d (resolve candidate) (some (.file fresh)), s, result)
  | undone {candidate : Text} {t : Directory κ β} {result : StartResult} (hr : result ≠ .ok)
      (hc : candidatePath request = some candidate) (hf : ¬ FdopenFails resolve d s request o)
      (hidle : s.state = .idle) (hlog : d (resolve candidate) = none)
      (hutc : d (resolve (utcPathOf candidate)) = none)
      (h : Undone resolve d candidate o fresh t) :
      StartCase resolve d s request o fresh (t, s, result)
  | created {candidate : Text} {r : Directory κ β × Logger × StartResult} (hr : r.2.2 = .ok)
      (hc : candidatePath request = some candidate) (hf : ¬ FdopenFails resolve d s request o)
      (hidle : s.state = .idle) (h : Created resolve d candidate fresh r) :
      StartCase resolve d s request o fresh r

omit [DecidableEq κ] in
theorem not_pathExists {path : Text} (h : pathExists resolve d path = false) :
    d (resolve path) = none := by
  simpa [pathExists, stat] using h

theorem createFiles_cases {request : Request} (fresh : β) (hidle : s.state = .idle)
    (hc : candidatePath request = some candidate) (hlog : d (resolve candidate) = none)
    (hutc : d (resolve (utcPathOf candidate)) = none) (hmutex : o.mutex = true) :
    StartCase resolve d s request o fresh (createFiles resolve d s candidate o fresh) := by
  by_cases hopen : o.openLog = true
  swap
  · rw [createFiles_open_fails s fresh (by simpa using hopen), closeStreams_eq hidle]
    exact .refused (failure_ne_ok _) fun hf => hopen hf.2.2.2.1
  by_cases hfdopen : o.fdopenLog = true
  swap
  · have hfails : o.fdopenLog = false := by simpa using hfdopen
    rw [createFiles_fdopen_fails s fresh hlog hopen hfails, closeStreams_eq hidle]
    exact .stray (failure_ne_ok _) hc ⟨hidle, ⟨_, hc, hlog, hutc⟩, hmutex, hopen, hfails⟩ hlog hutc
  have hf : ¬ FdopenFails resolve d s request o := by
    rintro ⟨-, -, -, -, hfails⟩
    rw [hfdopen] at hfails
    cases hfails
  by_cases hcompanion : (openExcl resolve (Function.update d (resolve candidate)
      (some (.file fresh))) (utcPathOf candidate) fresh o.openUtc).isSome = true ∧
      o.fdopenUtc = true
  · obtain ⟨hok, hcreated⟩ := createFiles_ok s fresh hlog hopen hfdopen hcompanion.1 hcompanion.2
    exact .created hok hc hf hidle hcreated
  · obtain ⟨t, hundone, ht⟩ := createFiles_utc_fails s fresh hlog hopen hfdopen
      (fun hfd => by simpa using fun h => hcompanion ⟨hfd, h⟩)
    rw [ht, closeStreams_eq hidle]
    exact .undone (failure_ne_ok _) hc hf hidle hlog hutc hundone

theorem dataLoggerStart_cases (resolve : Text → κ) (d : Directory κ β) (s : Logger)
    (request : Request) (o : StartOutcome) (fresh : β) :
    StartCase resolve d s request o fresh (dataLoggerStart resolve d s request o fresh) := by
  unfold dataLoggerStart
  split
  · rename_i hactive
    exact .refused (by decide) fun hf => hactive hf.1
  rename_i hidle
  split
  · rename_i hnone
    refine .refused (by decide) ?_
    rintro ⟨-, ⟨c, hc, -⟩, -⟩
    rw [hnone] at hc
    cases hc
  rename_i candidate hc
  split
  · rename_i hthere
    refine .refused (by decide) ?_
    rintro ⟨-, ⟨c, hc', hlog, hutc⟩, -⟩
    obtain rfl : candidate = c := by simpa [hc] using hc'
    simp [pathExists, stat, hlog, hutc] at hthere
  rename_i hthere
  split
  · rename_i hmutex
    refine .refused (by decide) ?_
    rintro ⟨-, -, hmutex', -⟩
    simp [hmutex'] at hmutex
  rename_i hmutex
  simp only [Bool.or_eq_true, not_or, Bool.not_eq_true] at hthere
  exact createFiles_cases fresh (not_not.mp hidle) hc (not_pathExists hthere.1)
    (not_pathExists hthere.2) (by simpa using hmutex)

/-- With the calls that undo something succeeding, a start is clean exactly when it does not
come to a failing `fdopen` of the binary. -/
theorem start_leaves_no_trace_iff (resolve : Text → κ) (d : Directory κ β) (s : Logger)
    (request : Request) (o : StartOutcome) (fresh : β) (hunlinkLog : o.unlinkLog = true)
    (hunlinkUtc : o.unlinkUtc = true) :
    LeavesNoTrace resolve d s request fresh (dataLoggerStart resolve d s request o fresh) ↔
      ¬ FdopenFails resolve d s request o := by
  have hcase := dataLoggerStart_cases resolve d s request o fresh
  generalize dataLoggerStart resolve d s request o fresh = r at hcase ⊢
  cases hcase with
  | refused hr hf => exact iff_of_true ⟨fun _ => ⟨rfl, rfl⟩, fun h => absurd h hr⟩ hf
  | @stray candidate result hr hc hf hlog hutc =>
    refine iff_of_false (fun h => ?_) (not_not.mpr hf)
    have hsame : Function.update d (resolve candidate) (some (.file fresh)) (resolve candidate) =
        d (resolve candidate) := congrFun (h.failed hr).1 (resolve candidate)
    rw [Function.update_self, hlog] at hsame
    cases hsame
  | undone hr hc hf hidle hlog hutc h =>
    obtain rfl := h.clean hunlinkLog hunlinkUtc
    exact iff_of_true ⟨fun _ => ⟨rfl, rfl⟩, fun h => absurd h hr⟩ hf
  | created hr hc hf hidle h => exact iff_of_true ⟨fun h => absurd hr h, fun _ => ⟨_, hc, h⟩⟩ hf

/-- Every call succeeds. -/
def smooth : StartOutcome := ⟨true, true, true, true, true, false, true, true⟩

theorem smooth_leaves_no_trace : LeavesNoTrace id (fun _ => none) .init
    (.custom "run.bin".toList) 1
    (dataLoggerStart id (fun _ => none) .init (.custom "run.bin".toList) smooth 1) := by
  refine (start_leaves_no_trace_iff id _ .init _ smooth 1 rfl rfl).mpr ?_
  rintro ⟨-, -, -, -, hfails⟩
  cases hfails

/-- The binary of a start that found no memory for its stream is still there. -/
theorem fdopenFailure_leaves_trace : ¬ LeavesNoTrace id (fun _ => none) .init
    (.custom "run.bin".toList) 1 (dataLoggerStart id (fun _ => none) .init
      (.custom "run.bin".toList) { smooth with fdopenLog := false } 1) := by
  intro h
  have hsame := congrFun (h.failed (by decide)).1 (pathOf "run.bin".toList)
  revert hsame
  decide

end BajaDaq.SessionCreation
