import BajaDaq.SessionCreation
import BajaDaq.TransitionRuns

/-!
# Renaming and the pairing of recordings with their companions

Names are compared exactly. Over a run of starts, renames and the writer's work each file carries
the number of the call of `data_logger_start` that created it.
-/

namespace BajaDaq.SessionRenames
open DecimalText Directories SessionFiles SessionCreation TransitionRuns

section
variable {β : Type*} {d t : Directory Text β} {s : Logger} {oldPath newPath : Text}

/-- The files at `oldPath` have gone to `newPath`, where nothing was, and nothing else has
changed. -/
structure Moved (d : Directory Text β) (oldPath newPath : Text) (t : Directory Text β) : Prop where
  source : ∃ contents, d oldPath = some (.file contents)
  free : d newPath = none ∧ d (utcPathOf newPath) = none
  log : t newPath = d oldPath ∧ t oldPath = none
  utc : isFile id d (utcPathOf oldPath) = true →
    t (utcPathOf newPath) = d (utcPathOf oldPath) ∧ t (utcPathOf oldPath) = none
  noUtc : isFile id d (utcPathOf oldPath) = false →
    t (utcPathOf newPath) = none ∧ t (utcPathOf oldPath) = d (utcPathOf oldPath)
  others : ∀ path, path ≠ oldPath → path ≠ newPath → path ≠ utcPathOf oldPath →
    path ≠ utcPathOf newPath → t path = d path

/-- The logger's paths after a rename. -/
def follow (s : Logger) (oldPath newPath : Text) : Logger :=
  if s.logPath = oldPath then { s with logPath := newPath, utcPath := utcPathOf newPath } else s

/-- A rename moves the files of an inactive recording, or it changes nothing. -/
inductive RenameCase (d : Directory Text β) (s : Logger) (oldFilename newFilename : Text) :
    Directory Text β × Logger × RenameResult → Prop
  | refused {result : RenameResult} (h : result = .ok → oldFilename = newFilename) :
      RenameCase d s oldFilename newFilename (d, s, result)
  | moved {t : Directory Text β} (hne : oldFilename ≠ newFilename)
      (hold : dataLoggerValidFilename oldFilename = true)
      (hnew : dataLoggerValidFilename newFilename = true)
      (hactive : s.state ≠ .idle → pathOf oldFilename ≠ s.logPath ∧ pathOf newFilename ≠ s.logPath)
      (h : Moved d (pathOf oldFilename) (pathOf newFilename) t) :
      RenameCase d s oldFilename newFilename
        (t, follow s (pathOf oldFilename) (pathOf newFilename), .ok)

theorem moveFiles_cases (s : Logger) (hold : IsLogPath oldPath) (hnew : IsLogPath newPath)
    (hne : oldPath ≠ newPath) (hsource : isFile id d oldPath = true) (hfree : d newPath = none)
    (hfreeUtc : d (utcPathOf newPath) = none) (o : RenameOutcome) :
    moveFiles id d s oldPath newPath o = (d, s, .failed) ∨
      ∃ t, Moved d oldPath newPath t ∧
        moveFiles id d s oldPath newPath o = (t, follow s oldPath newPath, .ok) := by
  have hutcNe : utcPathOf oldPath ≠ utcPathOf newPath :=
    fun h => hne ((hold.utcPathOf_inj hnew).mp h)
  have holdUtc : oldPath ≠ utcPathOf oldPath := hold.ne_utcPathOf hold
  have holdNewUtc : oldPath ≠ utcPathOf newPath := hold.ne_utcPathOf hnew
  have hnewUtc : newPath ≠ utcPathOf newPath := hnew.ne_utcPathOf hnew
  have hnewOldUtc : newPath ≠ utcPathOf oldPath := hnew.ne_utcPathOf hold
  cases hlog : rename id d oldPath newPath o.renameLog with
  | none => exact .inl (by simp [moveFiles, hlog])
  | some moved =>
    obtain ⟨-, hmoved⟩ := rename_eq_some hlog
    simp only [id] at hmoved
    by_cases hutc : isFile id d (utcPathOf oldPath) = true
    · cases hcompanion : rename id moved (utcPathOf oldPath) (utcPathOf newPath) o.renameUtc with
      | none =>
        have hback : rename id moved newPath oldPath true = some d := rename_back hfree hlog
        exact .inl (by simp [moveFiles, hlog, hutc, hcompanion, hback])
      | some t =>
        obtain ⟨-, ht⟩ := rename_eq_some hcompanion
        simp only [id] at ht
        refine .inr ⟨t, ⟨isFile_iff.mp hsource, ⟨hfree, hfreeUtc⟩, ?_, ?_, ?_, ?_⟩, ?_⟩
        · simp [ht, hmoved, Function.update_apply, hne, hnewUtc, hnewOldUtc, holdUtc, holdNewUtc]
        · intro _
          simp [ht, hmoved, hutcNe, hnewOldUtc.symm, holdUtc.symm]
        · exact fun h => absurd hutc (by simp [h])
        · intro path h₁ h₂ h₃ h₄
          simp [ht, hmoved, Function.update_apply, h₁, h₂, h₃, h₄]
        · simp [moveFiles, hlog, hutc, hcompanion, follow]
    · refine .inr ⟨moved, ⟨isFile_iff.mp hsource, ⟨hfree, hfreeUtc⟩, ?_, ?_, ?_, ?_⟩, ?_⟩
      · simp [hmoved, hne]
      · exact fun h => absurd h hutc
      · intro _
        simp [hmoved, hnewUtc.symm, holdNewUtc.symm, hnewOldUtc.symm, holdUtc.symm, hfreeUtc]
      · intro path h₁ h₂ _ _
        simp [hmoved, h₁, h₂]
      · simp [moveFiles, hlog, hutc, follow]

theorem dataLoggerRename_cases (d : Directory Text β) (s : Logger) (oldFilename newFilename : Text)
    (o : RenameOutcome) : RenameCase d s oldFilename newFilename
      (dataLoggerRename id d s oldFilename newFilename o) := by
  unfold dataLoggerRename
  split
  · exact .refused nofun
  rename_i hvalid
  simp only [Bool.or_eq_true, Bool.not_eq_true', not_or, Bool.not_eq_false] at hvalid
  obtain ⟨hold, hnew⟩ := hvalid
  split
  · rename_i hsame
    exact .refused fun _ => hsame
  rename_i hne
  split
  · exact .refused nofun
  dsimp only
  split
  · exact .refused nofun
  rename_i hactive
  split
  · exact .refused nofun
  rename_i hsource
  split
  · exact .refused nofun
  rename_i hthere
  simp only [Bool.or_eq_true, not_or, Bool.not_eq_true] at hthere
  have hpath : pathOf oldFilename ≠ pathOf newFilename := fun h => hne ((pathOf_inj hold hnew).mp h)
  rcases moveFiles_cases s (isLogPath_pathOf hold) (isLogPath_pathOf hnew) hpath
      (by simpa using hsource) (not_pathExists hthere.1) (not_pathExists hthere.2) o with
    h | ⟨t, hmoved, h⟩
  · rw [h]
    exact .refused nofun
  · rw [h]
    refine .moved hne hold hnew (fun hstate => ?_) hmoved
    simpa [hstate, not_or] using hactive

/-- A rename that reports success for two different names has moved the recording and its
companion onto names that were free, with the logger's paths following; every other call changes
nothing. -/
structure Atomic (d : Directory Text β) (s : Logger) (oldFilename newFilename : Text)
    (r : Directory Text β × Logger × RenameResult) : Prop where
  moved : r.2.2 = .ok → oldFilename ≠ newFilename →
    Moved d (pathOf oldFilename) (pathOf newFilename) r.1 ∧
      r.2.1 = follow s (pathOf oldFilename) (pathOf newFilename)
  unchanged : r.2.2 ≠ .ok ∨ oldFilename = newFilename → r.1 = d ∧ r.2.1 = s

theorem RenameCase.atomic {oldFilename newFilename : Text}
    {r : Directory Text β × Logger × RenameResult} (h : RenameCase d s oldFilename newFilename r) :
    Atomic d s oldFilename newFilename r := by
  cases h with
  | refused h => exact ⟨fun hok hne => absurd (h hok) hne, fun _ => ⟨rfl, rfl⟩⟩
  | moved hne hold hnew hactive h =>
    refine ⟨fun _ _ => ⟨h, rfl⟩, ?_⟩
    rintro (hfail | heq)
    · exact absurd rfl hfail
    · exact absurd heq hne

end

/-- The card and the logger, with the number of calls of `data_logger_start` so far and the one
that opened the last session. -/
structure Card where
  dir : Directory Text ℕ
  logger : Logger
  starts : ℕ
  session : ℕ

inductive Label where
  | start (request : Request) (o : StartOutcome)
  | rename (oldFilename newFilename : Text) (o : RenameOutcome)
  | stop
  | checkpoint (log utc : Bool)
  | close

/-- `checkpoint_file`; a file that has to be created belongs to no start. -/
def checkpointFile (c : Card) (log utc : Bool) : Card :=
  let logFd := openAppend id c.dir c.logger.logPath 0 log
  let dir := logFd.getD c.dir
  let utcFd := openAppend id dir c.logger.utcPath 0 utc
  if c.logger.utcFile.isSome then
    { c with
      dir := utcFd.getD dir
      logger := { c.logger with
        state := .running
        logFile := logFd.map fun _ => c.logger.logPath
        utcFile := utcFd.map fun _ => c.logger.utcPath
        closed := nofun } }
  else
    { c with
      dir := dir
      logger := { c.logger with
        state := .running
        logFile := logFd.map fun _ => c.logger.logPath
        closed := nofun } }

def step (c : Card) : Label → Option Card
  | .start request o =>
    let r := dataLoggerStart id c.dir c.logger request o (c.starts + 1)
    some ⟨r.1, r.2.1, c.starts + 1, if r.2.2 = .ok then c.starts + 1 else c.session⟩
  | .rename oldFilename newFilename o =>
    let r := dataLoggerRename id c.dir c.logger oldFilename newFilename o
    some { c with dir := r.1, logger := r.2.1 }
  | .stop =>
    if c.logger.state = .running then
      some { c with logger := { c.logger with state := .stopping, closed := nofun } }
    else none
  | .checkpoint log utc =>
    if c.logger.state = .running then some (checkpointFile c log utc) else none
  | .close =>
    if c.logger.state = .stopping then
      some { c with logger := { c.logger.closeStreams with
        state := .idle, closed := fun _ => ⟨rfl, rfl⟩ } }
    else none

def Card.empty : Card := ⟨fun _ => none, .init, 0, 0⟩

/-- A companion next to a recording was created by the same start. -/
def Paired (dir : Directory Text ℕ) : Prop :=
  ∀ stem a b, dir (stem ++ binSuffix) = some (.file a) →
    dir (stem ++ binSuffix ++ utcSuffix) = some (.file b) → a = b

/-- The files of the session that is running or stopping are at the logger's paths. -/
structure SessionInPlace (c : Card) : Prop where
  named : IsLogPath c.logger.logPath ∧ c.logger.utcPath = utcPathOf c.logger.logPath
  log : c.dir c.logger.logPath = some (.file c.session)
  utc : c.dir c.logger.utcPath = some (.file c.session)

structure CardInvariant (c : Card) : Prop where
  paired : ∀ path a b, IsLogPath path → c.dir path = some (.file a) →
    c.dir (utcPathOf path) = some (.file b) → a = b
  names : ∀ path, c.dir path ≠ none →
    ∃ log, IsLogPath log ∧ (path = log ∨ path = utcPathOf log)
  active : c.logger.state ≠ .idle → SessionInPlace c

/-- What a step from a session in progress leaves alone. -/
structure Untouched (c t : Card) : Prop where
  paths : t.logger.logPath = c.logger.logPath ∧ t.logger.utcPath = c.logger.utcPath
  log : t.dir c.logger.logPath = c.dir c.logger.logPath
  utc : t.dir c.logger.utcPath = c.dir c.logger.utcPath

theorem cardInvariant_empty : CardInvariant .empty :=
  ⟨fun _ _ _ _ h => (by cases h), fun _ h => absurd rfl h, fun h => absurd rfl h⟩

theorem CardInvariant.pairedAll {c : Card} (h : CardInvariant c) : Paired c.dir := by
  intro stem a b ha hb
  obtain ⟨log, hlog, heq | heq⟩ := h.names (stem ++ binSuffix) (by simp [ha])
  · rw [heq] at ha hb
    rw [← hlog.utcPathOf_eq] at hb
    exact h.paired log a b hlog ha hb
  · exfalso
    rw [hlog.utcPathOf_eq] at heq
    have hlast := congrArg List.getLast? heq
    simp [binSuffix, utcSuffix, List.getLast?_append] at hlast

/-- Files that a failing or succeeding start has just created are a pair of their own. -/
theorem paired_of_new {dir t : Directory Text ℕ} {candidate : Text} {n : ℕ}
    (hcandidate : IsLogPath candidate)
    (hpaired : ∀ path a b, IsLogPath path → dir path = some (.file a) →
      dir (utcPathOf path) = some (.file b) → a = b)
    (hothers : ∀ key, key ≠ candidate → key ≠ utcPathOf candidate → t key = dir key)
    (hlog : ∀ a, t candidate = some (.file a) → a = n)
    (hutc : ∀ a, t (utcPathOf candidate) = some (.file a) → a = n) :
    ∀ path a b, IsLogPath path → t path = some (.file a) →
      t (utcPathOf path) = some (.file b) → a = b := by
  intro path a b hpath ha hb
  by_cases hsame : path = candidate
  · subst hsame
    rw [hlog a ha, hutc b hb]
  · rw [hothers path hsame (hpath.ne_utcPathOf hcandidate)] at ha
    rw [hothers _ (hcandidate.ne_utcPathOf hpath).symm
      (fun h => hsame ((hpath.utcPathOf_inj hcandidate).mp h))] at hb
    exact hpaired path a b hpath ha hb

variable {c t : Card}

theorem cardInvariant_of_new {candidate : Text} {n : ℕ} (hI : CardInvariant c)
    (hcandidate : IsLogPath candidate)
    (hothers : ∀ key, key ≠ candidate → key ≠ utcPathOf candidate → t.dir key = c.dir key)
    (hlog : ∀ a, t.dir candidate = some (.file a) → a = n)
    (hutc : ∀ a, t.dir (utcPathOf candidate) = some (.file a) → a = n)
    (hactive : t.logger.state ≠ .idle → SessionInPlace t) : CardInvariant t := by
  refine ⟨paired_of_new hcandidate hI.paired hothers hlog hutc, fun path hpath => ?_, hactive⟩
  by_cases h : path = candidate
  · exact ⟨candidate, hcandidate, .inl h⟩
  by_cases h' : path = utcPathOf candidate
  · exact ⟨candidate, hcandidate, .inr h'⟩
  · rw [hothers path h h'] at hpath
    exact hI.names path hpath

theorem Rewritten.eq_of_free {κ : Type*} {dir u : Directory κ ℕ} {n : ℕ} {key : κ}
    (h : Rewritten dir u n) (hfree : dir key = none) (a : ℕ) (ha : u key = some (.file a)) :
    a = n := by
  rcases h key with hu | hu | hu
  · rw [hu, hfree] at ha
    cases ha
  · rw [hu] at ha
    simpa using ha.symm
  · rw [hu] at ha
    cases ha

theorem cardInvariant_start (hI : CardInvariant c) (request : Request) (o : StartOutcome)
    (ht : step c (.start request o) = some t) : CardInvariant t := by
  have hcase := dataLoggerStart_cases id c.dir c.logger request o (c.starts + 1)
  simp only [step, Option.some.injEq] at ht
  generalize dataLoggerStart id c.dir c.logger request o (c.starts + 1) = r at hcase ht
  subst ht
  cases hcase with
  | refused hr hf =>
    refine ⟨hI.paired, hI.names, fun hstate => ?_⟩
    obtain ⟨hnamed, hlog, hutc⟩ := hI.active hstate
    simp only [if_neg hr]
    exact ⟨hnamed, hlog, hutc⟩
  | stray hr hc hf hlog hutc =>
    refine cardInvariant_of_new (n := c.starts + 1) hI (candidatePath_isLogPath hc) ?_ ?_ ?_
      fun hstate => absurd hf.1 hstate
    · exact fun key hkey _ => Function.update_of_ne hkey _ _
    · exact Rewritten.eq_of_free ((Rewritten.refl _ _).create _) hlog
    · exact Rewritten.eq_of_free ((Rewritten.refl _ _).create _) hutc
  | undone hr hc hf hidle hlog hutc h =>
    refine cardInvariant_of_new (n := c.starts + 1) hI (candidatePath_isLogPath hc) h.others ?_ ?_
      fun hstate => absurd hidle hstate
    · exact Rewritten.eq_of_free h.rewritten hlog
    · exact Rewritten.eq_of_free h.rewritten hutc
  | @created candidate _ hr hc hf hidle h =>
    have hcandidate := candidatePath_isLogPath hc
    refine cardInvariant_of_new (n := c.starts + 1) hI hcandidate h.others ?_ ?_
      fun _ => ⟨?_, ?_, ?_⟩
    · intro a ha
      simpa using h.log.symm.trans ha |>.symm
    · intro a ha
      simpa using h.utc.symm.trans ha |>.symm
    · simp only [h.paths.1, h.paths.2]
      exact ⟨hcandidate, trivial⟩
    · simp only [h.paths.1, if_pos hr]
      exact h.log
    · simp only [h.paths.2, if_pos hr]
      exact h.utc

/-- A session in progress that a step has left alone is still in place. -/
theorem Untouched.inPlace (h : Untouched c t) (hsession : t.session = c.session)
    (hc : SessionInPlace c) : SessionInPlace t := by
  refine ⟨?_, ?_, ?_⟩
  · rw [h.paths.1, h.paths.2]
    exact hc.named
  · rw [h.paths.1, h.log, hsession]
    exact hc.log
  · rw [h.paths.2, h.utc, hsession]
    exact hc.utc

theorem untouched_moved {oldFilename newFilename : Text} {dir : Directory Text ℕ}
    (hc : SessionInPlace c) (hold : dataLoggerValidFilename oldFilename = true)
    (hnew : dataLoggerValidFilename newFilename = true)
    (hactive : pathOf oldFilename ≠ c.logger.logPath ∧ pathOf newFilename ≠ c.logger.logPath)
    (h : Moved c.dir (pathOf oldFilename) (pathOf newFilename) dir) :
    Untouched c { c with
      dir := dir
      logger := follow c.logger (pathOf oldFilename) (pathOf newFilename) } := by
  obtain ⟨hlogPath, hutcPath⟩ := hc.named
  have hold' := isLogPath_pathOf hold
  have hnew' := isLogPath_pathOf hnew
  have hfollow : follow c.logger (pathOf oldFilename) (pathOf newFilename) = c.logger :=
    if_neg hactive.1.symm
  refine ⟨?_, ?_, ?_⟩
  · rw [hfollow]
    exact ⟨rfl, rfl⟩
  · exact h.others _ hactive.1.symm hactive.2.symm (hlogPath.ne_utcPathOf hold')
      (hlogPath.ne_utcPathOf hnew')
  · rw [hutcPath]
    refine h.others _ (hold'.ne_utcPathOf hlogPath).symm (hnew'.ne_utcPathOf hlogPath).symm ?_ ?_
    · exact fun heq => hactive.1.symm ((hlogPath.utcPathOf_inj hold').mp heq)
    · exact fun heq => hactive.2.symm ((hlogPath.utcPathOf_inj hnew').mp heq)

theorem paired_of_moved {dir moved : Directory Text ℕ} {old new : Text} (hold : IsLogPath old)
    (hnew : IsLogPath new)
    (hpaired : ∀ path a b, IsLogPath path → dir path = some (.file a) →
      dir (utcPathOf path) = some (.file b) → a = b)
    (h : Moved dir old new moved) :
    ∀ path a b, IsLogPath path → moved path = some (.file a) →
      moved (utcPathOf path) = some (.file b) → a = b := by
  intro path a b hpath ha hb
  by_cases hpathOld : path = old
  · rw [hpathOld, h.log.2] at ha
    cases ha
  by_cases hpathNew : path = new
  · subst hpathNew
    rw [h.log.1] at ha
    by_cases hutc : isFile id dir (utcPathOf old) = true
    · rw [(h.utc hutc).1] at hb
      exact hpaired old a b hold ha hb
    · rw [(h.noUtc (by simpa using hutc)).1] at hb
      cases hb
  · rw [h.others path hpathOld hpathNew (hpath.ne_utcPathOf hold) (hpath.ne_utcPathOf hnew)] at ha
    rw [h.others _ (hold.ne_utcPathOf hpath).symm (hnew.ne_utcPathOf hpath).symm
      (fun heq => hpathOld ((hpath.utcPathOf_inj hold).mp heq))
      (fun heq => hpathNew ((hpath.utcPathOf_inj hnew).mp heq))] at hb
    exact hpaired path a b hpath ha hb

theorem names_of_moved {dir moved : Directory Text ℕ} {old new : Text} (hold : IsLogPath old)
    (hnew : IsLogPath new)
    (hnames : ∀ path, dir path ≠ none → ∃ log, IsLogPath log ∧ (path = log ∨ path = utcPathOf log))
    (h : Moved dir old new moved) (path : Text) (hpath : moved path ≠ none) :
    ∃ log, IsLogPath log ∧ (path = log ∨ path = utcPathOf log) := by
  by_cases h₁ : path = old
  · exact ⟨old, hold, .inl h₁⟩
  by_cases h₂ : path = new
  · exact ⟨new, hnew, .inl h₂⟩
  by_cases h₃ : path = utcPathOf old
  · exact ⟨old, hold, .inr h₃⟩
  by_cases h₄ : path = utcPathOf new
  · exact ⟨new, hnew, .inr h₄⟩
  · rw [h.others path h₁ h₂ h₃ h₄] at hpath
    exact hnames path hpath

theorem cardInvariant_rename (hI : CardInvariant c) (oldFilename newFilename : Text)
    (o : RenameOutcome) (ht : step c (.rename oldFilename newFilename o) = some t) :
    CardInvariant t := by
  have hcase := dataLoggerRename_cases c.dir c.logger oldFilename newFilename o
  simp only [step, Option.some.injEq] at ht
  generalize dataLoggerRename id c.dir c.logger oldFilename newFilename o = r at hcase ht
  subst ht
  cases hcase with
  | refused h => exact hI
  | moved hne hold hnew hactive h =>
    refine ⟨paired_of_moved (isLogPath_pathOf hold) (isLogPath_pathOf hnew) hI.paired h,
      names_of_moved (isLogPath_pathOf hold) (isLogPath_pathOf hnew) hI.names h, fun hstate => ?_⟩
    have hbusy : c.logger.state ≠ .idle := by
      intro hidle
      apply hstate
      simp only [follow]
      split <;> exact hidle
    have hc := hI.active hbusy
    exact (untouched_moved hc hold hnew (hactive hbusy) h).inPlace rfl hc

/-- The files of a session in progress are there, so a checkpoint creates none. -/
theorem dir_checkpointFile (hc : SessionInPlace c) (log utc : Bool) :
    (checkpointFile c log utc).dir = c.dir := by
  have hlog : (openAppend id c.dir c.logger.logPath 0 log).getD c.dir = c.dir :=
    openAppend_of_exists (by simp [hc.log]) 0 log
  have hutc : (openAppend id c.dir c.logger.utcPath 0 utc).getD c.dir = c.dir :=
    openAppend_of_exists (by simp [hc.utc]) 0 utc
  simp only [checkpointFile, hlog]
  split
  · exact hutc
  · rfl

theorem untouched_checkpointFile (hc : SessionInPlace c) (log utc : Bool) :
    Untouched c (checkpointFile c log utc) := by
  have hdir := dir_checkpointFile hc log utc
  refine ⟨?_, by rw [hdir], by rw [hdir]⟩
  simp only [checkpointFile]
  split <;> exact ⟨rfl, rfl⟩

theorem session_checkpointFile (c : Card) (log utc : Bool) :
    (checkpointFile c log utc).session = c.session := by
  simp only [checkpointFile]
  split <;> rfl

/-- No step moves or replaces a file of the session in progress. -/
theorem untouched_step (hI : CardInvariant c) (hstate : c.logger.state ≠ .idle) {a : Label}
    (ht : step c a = some t) : Untouched c t := by
  have hc := hI.active hstate
  cases a with
  | start request o =>
    have hr : dataLoggerStart id c.dir c.logger request o (c.starts + 1) =
        (c.dir, c.logger, .active) := if_pos hstate
    simp only [step, hr, Option.some.injEq] at ht
    subst ht
    exact ⟨⟨rfl, rfl⟩, rfl, rfl⟩
  | rename oldFilename newFilename o =>
    have hcase := dataLoggerRename_cases c.dir c.logger oldFilename newFilename o
    simp only [step, Option.some.injEq] at ht
    generalize dataLoggerRename id c.dir c.logger oldFilename newFilename o = r at hcase ht
    subst ht
    cases hcase with
    | refused h => exact ⟨⟨rfl, rfl⟩, rfl, rfl⟩
    | moved hne hold hnew hactive h => exact untouched_moved hc hold hnew (hactive hstate) h
  | stop =>
    simp only [step] at ht
    split at ht
    · obtain rfl := Option.some.inj ht
      exact ⟨⟨rfl, rfl⟩, rfl, rfl⟩
    · cases ht
  | checkpoint log utc =>
    simp only [step] at ht
    split at ht
    · obtain rfl := Option.some.inj ht
      exact untouched_checkpointFile hc log utc
    · cases ht
  | close =>
    simp only [step] at ht
    split at ht
    · obtain rfl := Option.some.inj ht
      exact ⟨⟨rfl, rfl⟩, rfl, rfl⟩
    · cases ht

theorem cardInvariant_step (hI : CardInvariant c) {a : Label} (ht : step c a = some t) :
    CardInvariant t := by
  cases a with
  | start request o => exact cardInvariant_start hI request o ht
  | rename oldFilename newFilename o => exact cardInvariant_rename hI oldFilename newFilename o ht
  | stop =>
    simp only [step] at ht
    split at ht
    · rename_i hrunning
      have hc := hI.active (by simp [hrunning])
      obtain rfl := Option.some.inj ht
      exact ⟨hI.paired, hI.names, fun _ => ⟨hc.named, hc.log, hc.utc⟩⟩
    · cases ht
  | checkpoint log utc =>
    simp only [step] at ht
    split at ht
    · rename_i hrunning
      have hc := hI.active (by simp [hrunning])
      obtain rfl := Option.some.inj ht
      have hdir := dir_checkpointFile hc log utc
      refine ⟨by rw [hdir]; exact hI.paired, by rw [hdir]; exact hI.names, fun _ => ?_⟩
      exact (untouched_checkpointFile hc log utc).inPlace (session_checkpointFile c log utc) hc
    · cases ht
  | close =>
    simp only [step] at ht
    split at ht
    · obtain rfl := Option.some.inj ht
      exact ⟨hI.paired, hI.names, fun h => absurd rfl h⟩
    · cases ht

/-- Every call of `data_logger_rename` is atomic; and after any run from an empty card a
companion belongs to the recording next to it, and the files of a session in progress are where
its start created them, with no step moving or replacing them. -/
theorem renames_keep_pairs {β : Type*} (d : Directory Text β) (s : Logger)
    (oldFilename newFilename : Text) (o : RenameOutcome) {labels : List Label} {c : Card}
    (hrun : Run step Free .empty labels c) :
    Atomic d s oldFilename newFilename (dataLoggerRename id d s oldFilename newFilename o) ∧
      Paired c.dir ∧
      (c.logger.state ≠ .idle →
        SessionInPlace c ∧ ∀ a t, step c a = some t → Untouched c t) := by
  have hI : CardInvariant c := hrun.invariant cardInvariant_empty
    fun _ _ _ hI _ hs => cardInvariant_step hI hs
  refine ⟨(dataLoggerRename_cases d s oldFilename newFilename o).atomic, hI.pairedAll, ?_⟩
  intro hstate
  exact ⟨hI.active hstate, fun a t ht => untouched_step hI hstate ht⟩

/-- A recording is renamed, its old name used again, and a checkpoint made. -/
def reusedName : List Label :=
  [.start (.custom "run.bin".toList) smooth, .stop, .close,
    .rename "run.bin".toList "lap.bin".toList ⟨true, true, true⟩,
    .start (.custom "run.bin".toList) smooth, .checkpoint true true]

def reusedCard : Card := (exec step .empty reusedName).getD .empty

theorem reusedName_paired : Paired reusedCard.dir ∧ SessionInPlace reusedCard := by
  have hsome : (exec step .empty reusedName).isSome = true := by decide
  have hexec : exec step .empty reusedName = some reusedCard := by
    rw [reusedCard, ← Option.some_get hsome, Option.getD_some]
  obtain ⟨-, hpaired, hactive⟩ := renames_keep_pairs reusedCard.dir reusedCard.logger
    "run.bin".toList "lap.bin".toList ⟨true, true, true⟩ (Run.of_exec_free hexec)
  exact ⟨hpaired, (hactive (by decide)).1⟩

end BajaDaq.SessionRenames
