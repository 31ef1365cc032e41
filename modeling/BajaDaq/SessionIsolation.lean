import BajaDaq.LoggerSessions

/-!
# What each session's file contains

`data_logger_enqueue` tests the state and sends later, and only the queue is reset when a
session starts. A send that comes after the writer's last look at the queue stays for the next
session; without such sends every file is exact.
-/

namespace BajaDaq.SessionIsolation
open FixedItems LogFiles LoggerSessions StdioFiles TransitionRuns

variable {Task : Type}

/-- Every closed binary holds the accepted samples of its session in queue order, with their
companion entries, and the binary being written holds only samples of the current session. -/
def Isolated (s : Logger Task) : Prop :=
  (∀ c ∈ s.closed, c.log = (s.acceptedIn c.session).flatMap recordBytes ∧
    c.utc = (s.acceptedIn c.session).flatMap utcBytes) ∧
  ∃ l, l <+: s.acceptedIn s.session ∧ s.files.log.contents = l.flatMap recordBytes

/-- Past the writer's last look at the queue of this session. -/
def finishing : WriterPc → Bool
  | .writeRest | .close | .storeIdle => true
  | _ => false

def writing : WriterPc → Bool
  | .writeBlock | .writePartial | .checkpoint => true
  | _ => false

def Drained (s : Logger Task) : Prop := s.state = .idle ∨ finishing s.writer = true

instance (s : Logger Task) : Decidable (Drained s) := inferInstanceAs (Decidable (_ ∨ _))

/-- A send that finds room comes while the session its caller saw running is still being
drained. -/
def SendsInSession (s : Logger Task) : Label Task → Prop
  | .send t => ∀ x ∈ s.pending t, s.queue.length < logQueueLength →
      x.session = s.session ∧ ¬ Drained s
  | _ => True

instance (s : Logger Task) (a : Label Task) : Decidable (SendsInSession s a) :=
  match a with
  | .send t => inferInstanceAs (Decidable (∀ x ∈ s.pending t, _))
  | .test _ _ | .start | .create _ | .reset | .publish | .stop | .write _ => isTrue trivial

/-- The files of the current session are open. -/
def opened (s : Logger Task) : Bool :=
  s.control.holdsFileMutex || (decide (s.state ≠ .idle) && decide (s.writer ≠ .storeIdle))

structure SessionInvariant (s : Logger Task) : Prop where
  control : s.state ≠ .idle → s.control = .ready
  writing : writing s.writer = true → s.state ≠ .idle
  finishing : finishing s.writer = true → s.state = .stopping
  drained : Drained s → s.queue = []
  block : s.state = .idle ∨ s.writer = .close ∨ s.writer = .storeIdle → s.block = []
  log_open : s.files.log.isOpen = opened s
  utc_open : s.files.utc.isOpen = opened s
  stored : ∃ l, s.acceptedIn s.session = l ++ s.block.map Tagged.sample ++
    s.queue.map Tagged.sample ∧ s.files.Holds l
  numbered : ∀ x ∈ s.accepted, x.session ≤ s.session
  closed_numbered : ∀ c ∈ s.closed, c.session ≤ s.session
  closed_over : ∀ c ∈ s.closed, c.session = s.session → opened s = false
  closed_exact : ∀ c ∈ s.closed, c.log = (s.acceptedIn c.session).flatMap recordBytes ∧
    c.utc = (s.acceptedIn c.session).flatMap utcBytes

theorem sessionInvariant_start : SessionInvariant (Logger.start : Logger Task) where
  control h := absurd rfl h
  writing h := by cases h
  finishing h := by cases h
  drained _ := rfl
  block _ := rfl
  log_open := rfl
  utc_open := rfl
  stored := ⟨[], rfl, rfl, rfl⟩
  numbered := by simp [Logger.start]
  closed_numbered := by simp [Logger.start]
  closed_over := by simp [Logger.start]
  closed_exact := by simp [Logger.start]

theorem isolated_of_invariant {s : Logger Task} (h : SessionInvariant s) : Isolated s := by
  obtain ⟨l, hl, hholds⟩ := h.stored
  refine ⟨h.closed_exact, l, ?_, hholds.1⟩
  rw [hl, List.append_assoc]
  exact List.prefix_append _ _

/-- Outside `data_logger_start` the files are open until the writer closes them. -/
theorem opened_of_active {s : Logger Task} (hI : SessionInvariant s) (hs : s.state ≠ .idle) :
    opened s = decide (s.writer ≠ .storeIdle) := by
  simp [opened, hI.control hs, ControlPc.holdsFileMutex, hs]

theorem of_unlessMutexHeld {s t u : Logger Task} (h : s.unlessMutexHeld t = some u) : t = u := by
  unfold Logger.unlessMutexHeld at h
  split at h
  · cases h
  · exact Option.some.inj h

/-- The writer goes on without touching anything. -/
theorem sessionInvariant_move {s : Logger Task} (hI : SessionInvariant s) {w : WriterPc}
    (hfrom : s.writer ≠ .storeIdle) (hwriting : writing w = true → s.state ≠ .idle)
    (hfinishing : finishing w = true → s.state = .stopping ∧ s.queue = [])
    (hclose : w = .close → s.block = []) (hto : w ≠ .storeIdle) :
    SessionInvariant { s with writer := w } := by
  have hopened : opened { s with writer := w } = opened s := by
    simp [opened, hfrom, hto]
  refine { hI with
    writing := hwriting
    finishing := fun h => (hfinishing h).1
    drained := ?_
    block := ?_
    log_open := hI.log_open.trans hopened.symm
    utc_open := hI.utc_open.trans hopened.symm
    closed_over := fun c hc hs => hopened.trans (hI.closed_over c hc hs) }
  · rintro (hidle | hfin)
    · exact hI.drained (.inl hidle)
    · exact (hfinishing hfin).2
  · rintro (hidle | hw | hw)
    · exact hI.block (.inl hidle)
    · exact hclose hw
    · exact absurd hw hto

/-- The private block is written to the open files. -/
theorem sessionInvariant_writeBlock {s : Logger Task} (hI : SessionInvariant s) {w : WriterPc}
    (hstate : s.state ≠ .idle) (hfrom : s.writer ≠ .storeIdle)
    (hfinishing : finishing w = true → finishing s.writer = true) (hto : w ≠ .storeIdle) :
    s.writeBlock.2 = true ∧
      SessionInvariant { s with files := s.writeBlock.1, block := [], writer := w } := by
  have hopen : opened s = true := by
    rw [opened_of_active hI hstate]
    exact decide_eq_true hfrom
  have hopened : opened { s with files := s.writeBlock.1, block := [], writer := w } = true := by
    rw [← hopen]
    simp [opened, hfrom, hto]
  obtain ⟨l, hl, hholds⟩ := hI.stored
  obtain ⟨hok, hlog, hutc, hnew⟩ := holds_writeRecords (s.block.map Tagged.sample)
    (hI.log_open.trans hopen) (hI.utc_open.trans hopen) hholds
  rw [List.length_map] at hok hlog hutc hnew
  refine ⟨hok, { hI with
    writing := fun _ => hstate
    finishing := fun h => hI.finishing (hfinishing h)
    drained := fun h => hI.drained (h.imp_right hfinishing)
    block := fun _ => rfl
    log_open := hlog.trans hopened.symm
    utc_open := hutc.trans hopened.symm
    stored := ⟨_, hl.trans (by simp), hnew⟩
    closed_over := ?_ }⟩
  intro c hc hs
  exact absurd (hI.closed_over c hc hs) (by simp [hopen])

/-- A received sample moves from the queue to the private block. -/
theorem sessionInvariant_receive {s : Logger Task} (hI : SessionInvariant s) {x : Tagged}
    {queue : List Tagged} (hw : s.writer = .receive) (hq : s.queue = x :: queue) {w : WriterPc}
    (hto : w = .writeBlock ∨ w = .testCheckpoint) :
    SessionInvariant { s with queue := queue, block := s.block ++ [x], writer := w } := by
  -- an idle logger has an empty queue
  have hstate : s.state ≠ .idle := by
    intro hidle
    simp [hI.drained (.inl hidle)] at hq
  have hfinishing : finishing w = false := by
    rcases hto with rfl | rfl <;> rfl
  have hopened : opened { s with queue := queue, block := s.block ++ [x], writer := w } =
      opened s := by
    rcases hto with rfl | rfl <;> simp [opened, hw]
  refine { hI with
    writing := fun _ => hstate
    finishing := fun h => by simp [hfinishing] at h
    drained := ?_
    block := ?_
    log_open := hI.log_open.trans hopened.symm
    utc_open := hI.utc_open.trans hopened.symm
    stored := ?_
    closed_over := fun c hc hs => hopened.trans (hI.closed_over c hc hs) }
  · rintro (hidle | hfin)
    · exact absurd hidle hstate
    · simp [hfinishing] at hfin
  · rintro (hidle | rfl | rfl)
    · exact absurd hidle hstate
    · cases hfinishing
    · cases hfinishing
  · obtain ⟨l, hl, hholds⟩ := hI.stored
    exact ⟨l, hl.trans (by simp [hq]), hholds⟩

theorem sessionInvariant_checkpoint {s : Logger Task} (hI : SessionInvariant s)
    (hw : s.writer = .checkpoint) :
    SessionInvariant { s with
      files := (checkpointFile s.files ⟨.ok, true, .ok, true⟩).1, writer := .testStop } := by
  have hstate : s.state ≠ .idle := hI.writing (by rw [hw]; rfl)
  have hopen : opened s = true := by
    rw [opened_of_active hI hstate, hw]
    rfl
  have hopened : opened { s with writer := .testStop } = true := by
    simp [opened, hstate]
  obtain ⟨l, hl, hholds⟩ := hI.stored
  obtain ⟨hlog, hutc, hnew⟩ := holds_checkpointFile (hI.utc_open.trans hopen) hholds
  refine { hI with
    writing := nofun
    finishing := nofun
    drained := ?_
    block := ?_
    log_open := hlog.trans hopened.symm
    utc_open := hutc.trans hopened.symm
    stored := ⟨l, hl, hnew⟩
    closed_over := ?_ }
  · rintro (hidle | hfin)
    · exact absurd hidle hstate
    · cases hfin
  · rintro (hidle | h | h)
    · exact absurd hidle hstate
    · cases h
    · cases h
  · intro c hc hs
    exact absurd (hI.closed_over c hc hs) (by simp [hopen])

/-- When the files close, nothing of the session is left in the queue or the block. -/
theorem sessionInvariant_close {s : Logger Task} (hI : SessionInvariant s)
    (hw : s.writer = .close) :
    let files := closeFiles s.files ⟨.ok, .ok⟩
    SessionInvariant { s with
      files := files
      writer := .storeIdle
      closed := s.closed ++ [⟨s.session, files.log.disk, files.utc.disk⟩] } := by
  intro files
  have hstate : s.state = .stopping := hI.finishing (by rw [hw]; rfl)
  have hqueue : s.queue = [] := hI.drained (.inr (by rw [hw]; rfl))
  have hblock : s.block = [] := hI.block (.inr (.inl hw))
  have hcontrol : s.control = .ready := hI.control (by simp [hstate])
  have hopened : opened { s with writer := .storeIdle } = false := by
    simp [opened, hcontrol, ControlPc.holdsFileMutex]
  have hlogClosed : files.log.isOpen = false := StdioFile.isOpen_fclose _ _
  have hutcClosed : files.utc.isOpen = false := StdioFile.isOpen_fclose _ _
  obtain ⟨l, hl, hholds⟩ := hI.stored
  have hnew : files.Holds l := holds_closeFiles hholds
  have hall : s.acceptedIn s.session = l := by simpa [hqueue, hblock] using hl
  refine { hI with
    writing := nofun
    finishing := fun _ => hstate
    drained := fun _ => hqueue
    block := fun _ => hblock
    log_open := hlogClosed.trans hopened.symm
    utc_open := hutcClosed.trans hopened.symm
    stored := ⟨l, hl, hnew⟩
    closed_numbered := ?_
    closed_over := fun _ _ _ => hopened
    closed_exact := ?_ }
  · intro c hc
    rcases List.mem_append.mp hc with hc | hc
    · exact hI.closed_numbered c hc
    · obtain rfl := List.mem_singleton.mp hc
      exact Nat.le_refl _
  · intro c hc
    rcases List.mem_append.mp hc with hc | hc
    · exact hI.closed_exact c hc
    · obtain rfl := List.mem_singleton.mp hc
      have hlog := StdioFile.contents_of_closed hlogClosed
      have hutc := StdioFile.contents_of_closed hutcClosed
      change files.log.disk = (s.acceptedIn s.session).flatMap recordBytes ∧
        files.utc.disk = (s.acceptedIn s.session).flatMap utcBytes
      rw [hall, ← hlog, ← hutc]
      exact hnew

theorem sessionInvariant_storeIdle {s : Logger Task} (hI : SessionInvariant s)
    (hw : s.writer = .storeIdle) :
    SessionInvariant { s with state := .idle, writer := .receive } := by
  have hstate : s.state = .stopping := hI.finishing (by rw [hw]; rfl)
  have hcontrol : s.control = .ready := hI.control (by simp [hstate])
  have hopened : opened { s with state := .idle, writer := .receive } = opened s := by
    simp [opened, hcontrol, hw]
  exact { hI with
    control := fun h => absurd rfl h
    writing := nofun
    finishing := nofun
    drained := fun _ => hI.drained (.inr (by rw [hw]; rfl))
    block := fun _ => hI.block (.inr (.inr hw))
    log_open := hI.log_open.trans hopened.symm
    utc_open := hI.utc_open.trans hopened.symm
    closed_over := fun c hc hs => hopened.trans (hI.closed_over c hc hs) }

theorem sessionInvariant_writerStep {s t : Logger Task} {due : Bool} (hI : SessionInvariant s)
    (h : s.writerStep due = some t) : SessionInvariant t := by
  unfold Logger.writerStep at h
  split at h
  next hw =>
    split at h
    next hq =>
      obtain rfl := Option.some.inj h
      exact sessionInvariant_move (w := .testCheckpoint) hI (by simp [hw]) nofun nofun nofun nofun
    next x queue hq =>
      obtain rfl := Option.some.inj h
      refine sessionInvariant_receive hI hw hq ?_
      split_ifs
      · exact .inl rfl
      · exact .inr rfl
  next hw =>
    obtain rfl := of_unlessMutexHeld h
    exact (sessionInvariant_writeBlock (w := .testCheckpoint) hI (hI.writing (by rw [hw]; rfl))
      (by simp [hw]) nofun nofun).2
  next hw =>
    split_ifs at h with hdue hempty <;> obtain rfl := Option.some.inj h
    · exact sessionInvariant_move (w := .checkpoint) hI (by simp [hw]) (by simp [hdue]) nofun
        nofun nofun
    · exact sessionInvariant_move (w := .writePartial) hI (by simp [hw]) (by simp [hdue]) nofun
        nofun nofun
    · exact sessionInvariant_move (w := .testStop) hI (by simp [hw]) nofun nofun nofun nofun
  next hw =>
    have hnew := sessionInvariant_writeBlock (w := .checkpoint) hI (hI.writing (by rw [hw]; rfl))
      (by simp [hw]) nofun nofun
    obtain rfl := of_unlessMutexHeld h
    rw [if_pos hnew.1]
    exact hnew.2
  next hw =>
    obtain rfl := of_unlessMutexHeld h
    exact sessionInvariant_checkpoint hI hw
  next hw =>
    split_ifs at h with hstop hempty <;> obtain rfl := Option.some.inj h
    · exact sessionInvariant_move (w := .close) hI (by simp [hw]) nofun (fun _ => hstop)
        (fun _ => hempty) nofun
    · exact sessionInvariant_move (w := .writeRest) hI (by simp [hw]) nofun (fun _ => hstop) nofun
        nofun
    · exact sessionInvariant_move (w := .receive) hI (by simp [hw]) nofun nofun nofun nofun
  next hw =>
    obtain rfl := of_unlessMutexHeld h
    have hstate := hI.finishing (by rw [hw]; rfl)
    exact (sessionInvariant_writeBlock (w := .close) hI (by simp [hstate])
      (by simp [hw]) (fun _ => by rw [hw]; rfl) nofun).2
  next hw =>
    obtain rfl := of_unlessMutexHeld h
    exact sessionInvariant_close hI hw
  next hw =>
    obtain rfl := Option.some.inj h
    exact sessionInvariant_storeIdle hI hw

/-- A send adds its sample to the history of its own session only. -/
theorem acceptedIn_append (s : Logger Task) (x : Tagged) (n : ℕ) :
    { s with accepted := s.accepted ++ [x] }.acceptedIn n =
      s.acceptedIn n ++ if x.session = n then [x.sample] else [] := by
  simp only [Logger.acceptedIn, List.filter_append, List.map_append]
  split_ifs with h <;> simp [h]

/-- A sample that arrives in its own session, before the writer's last look at the queue. -/
theorem sessionInvariant_accept {s : Logger Task} (hI : SessionInvariant s) {x : Tagged}
    (hx : x.session = s.session) (hd : ¬ Drained s) (pending : Task → Option Tagged) :
    SessionInvariant { s with
      queue := s.queue ++ [x], accepted := s.accepted ++ [x], pending := pending } := by
  have hopen : opened s = true := by
    have hne : s.writer ≠ .storeIdle := fun hw => hd (.inr (by rw [hw]; rfl))
    rw [opened_of_active hI (fun hidle => hd (.inl hidle))]
    exact decide_eq_true hne
  obtain ⟨l, hl, hholds⟩ := hI.stored
  refine { hI with
    drained := fun h => absurd h hd
    stored := ⟨l, ?_, hholds⟩
    numbered := ?_
    closed_exact := ?_ }
  · refine (acceptedIn_append s x _).trans ?_
    simp [hx, hl]
  · intro y hy
    rcases List.mem_append.mp hy with hy | hy
    · exact hI.numbered y hy
    · obtain rfl := List.mem_singleton.mp hy
      exact hx.le
  · intro c hc
    have hother : x.session ≠ c.session := by
      intro hsame
      have hshut := hI.closed_over c hc (hsame.symm.trans hx)
      simp [hopen] at hshut
    have hkeep : { s with accepted := s.accepted ++ [x] }.acceptedIn c.session =
        s.acceptedIn c.session := by
      rw [acceptedIn_append, if_neg hother, List.append_nil]
    have h := hI.closed_exact c hc
    rw [← hkeep] at h
    exact h

/-- New files start a session of which nothing has been accepted yet. -/
theorem sessionInvariant_created {s : Logger Task} (hI : SessionInvariant s)
    (hc : s.control = .create) :
    SessionInvariant { s with
      files := .created, session := s.session + 1, control := .reset } := by
  have hidle : s.state = .idle := by
    by_contra hne
    simp [hI.control hne] at hc
  have hnone : s.acceptedIn (s.session + 1) = [] := by
    simp only [Logger.acceptedIn, List.map_eq_nil_iff, List.filter_eq_nil_iff, decide_eq_true_eq]
    intro x hx
    have hle := hI.numbered x hx
    omega
  refine { hI with
    control := fun h => absurd hidle h
    log_open := rfl
    utc_open := rfl
    stored := ⟨[], ?_, rfl, rfl⟩
    numbered := fun x hx => Nat.le_succ_of_le (hI.numbered x hx)
    closed_numbered := fun c hc => Nat.le_succ_of_le (hI.closed_numbered c hc)
    closed_over := ?_ }
  · refine Eq.trans hnone ?_
    simp [hI.drained (.inl hidle), hI.block (.inl hidle)]
  · intro c hc hs
    have hle := hI.closed_numbered c hc
    simp only at hs
    omega

theorem sessionInvariant_control {s : Logger Task} (hI : SessionInvariant s) {pc : ControlPc}
    (hidle : pc ≠ .ready → s.state = .idle)
    (hheld : pc.holdsFileMutex = s.control.holdsFileMutex) :
    SessionInvariant { s with control := pc } := by
  have hopened : opened { s with control := pc } = opened s := by
    simp only [opened, hheld]
  refine { hI with
    control := ?_
    log_open := hI.log_open.trans hopened.symm
    utc_open := hI.utc_open.trans hopened.symm
    closed_over := fun c hc hs => hopened.trans (hI.closed_over c hc hs) }
  intro hne
  by_contra hpc
  exact hne (hidle hpc)

/-- A companion or a binary that cannot be created leaves null handles. -/
theorem sessionInvariant_failed {s : Logger Task} (hI : SessionInvariant s)
    (hc : s.control = .create) :
    SessionInvariant { s with
      files := ⟨s.files.log.fopenAppend false, s.files.utc.fopenAppend false⟩
      control := .ready } := by
  have hidle : s.state = .idle := by
    by_contra hne
    simp [hI.control hne] at hc
  have hshut : opened s = false := by
    simp [opened, hc, hidle, ControlPc.holdsFileMutex]
  have hopened : opened { s with control := .ready } = false := by
    simp [opened, hidle, ControlPc.holdsFileMutex]
  obtain ⟨l, hl, hlog, hutc⟩ := hI.stored
  rw [StdioFile.contents_of_closed (hI.log_open.trans hshut)] at hlog
  rw [StdioFile.contents_of_closed (hI.utc_open.trans hshut)] at hutc
  exact { hI with
    control := fun _ => rfl
    log_open := hopened.symm
    utc_open := hopened.symm
    stored := ⟨l, hl, (StdioFile.contents_fopenAppend _ _).trans hlog,
      (StdioFile.contents_fopenAppend _ _).trans hutc⟩
    closed_over := fun _ _ _ => hopened }

/-- The reset finds the queue empty already. -/
theorem sessionInvariant_reset {s : Logger Task} (hI : SessionInvariant s)
    (hc : s.control = .reset) : SessionInvariant { s with queue := [], control := .publish } := by
  have hidle : s.state = .idle := by
    by_contra hne
    simp [hI.control hne] at hc
  have hsame : { s with queue := [], control := .publish } = { s with control := .publish } := by
    simp [hI.drained (.inl hidle)]
  rw [hsame]
  exact sessionInvariant_control hI (fun _ => hidle) (by rw [hc]; rfl)

theorem sessionInvariant_publish {s : Logger Task} (hI : SessionInvariant s)
    (hc : s.control = .publish) :
    SessionInvariant { s with state := .running, control := .ready } := by
  have hidle : s.state = .idle := by
    by_contra hne
    simp [hI.control hne] at hc
  have hrunning : finishing s.writer = false := by
    by_contra hfin
    simp [hI.finishing (by simpa using hfin)] at hidle
  have hwriter : s.writer ≠ .close ∧ s.writer ≠ .storeIdle := by
    constructor <;> intro hw <;> simp [hw, finishing] at hrunning
  have hopened : opened { s with state := .running, control := .ready } = opened s := by
    simp [opened, hc, hwriter.2, ControlPc.holdsFileMutex]
  refine { hI with
    control := fun _ => rfl
    writing := nofun
    finishing := fun h => by simp [hrunning] at h
    drained := ?_
    block := ?_
    log_open := hI.log_open.trans hopened.symm
    utc_open := hI.utc_open.trans hopened.symm
    closed_over := fun c hmem hs => hopened.trans (hI.closed_over c hmem hs) }
  · rintro (h | h)
    · cases h
    · simp [hrunning] at h
  · rintro (h | h | h)
    · cases h
    · exact absurd h hwriter.1
    · exact absurd h hwriter.2

theorem sessionInvariant_stop {s : Logger Task} (hI : SessionInvariant s)
    (hs : s.state = .running) : SessionInvariant { s with state := .stopping } := by
  have hrunning : finishing s.writer = false := by
    by_contra hfin
    simp [hI.finishing (by simpa using hfin)] at hs
  have hopened : opened { s with state := .stopping } = opened s := by
    simp [opened, hs]
  refine { hI with
    control := fun _ => hI.control (by simp [hs])
    writing := nofun
    finishing := fun _ => rfl
    drained := ?_
    block := ?_
    log_open := hI.log_open.trans hopened.symm
    utc_open := hI.utc_open.trans hopened.symm
    closed_over := fun c hmem hn => hopened.trans (hI.closed_over c hmem hn) }
  · rintro (h | h)
    · cases h
    · simp [hrunning] at h
  · rintro (h | h)
    · cases h
    · exact hI.block (.inr h)

variable [DecidableEq Task]

theorem sessionInvariant_step {s t : Logger Task} {a : Label Task} (hI : SessionInvariant s)
    (hC : SendsInSession s a) (h : step s a = some t) : SessionInvariant t := by
  cases a with
  | test task x =>
    simp only [step] at h
    split_ifs at h <;> obtain rfl := Option.some.inj h
    · exact { hI with }
    · exact hI
  | send task =>
    simp only [step] at h
    cases hp : s.pending task with
    | none => simp [hp] at h
    | some x =>
      simp only [hp] at h
      split_ifs at h with hroom <;> obtain rfl := Option.some.inj h
      · obtain ⟨hx, hd⟩ := hC x hp hroom
        exact sessionInvariant_accept hI hx hd _
      · exact { hI with }
  | start =>
    simp only [step] at h
    split_ifs at h with hready hidle <;> obtain rfl := Option.some.inj h
    · exact sessionInvariant_control hI (fun _ => hidle) (by rw [hready]; rfl)
    · exact sessionInvariant_control hI (fun hne => absurd rfl hne) (by rw [hready])
  | create c =>
    simp only [step] at h
    split_ifs at h with hcreate
    cases c with
    | refused =>
      obtain rfl := Option.some.inj h
      exact sessionInvariant_control hI (fun hne => absurd rfl hne) (by rw [hcreate]; rfl)
    | failed =>
      obtain rfl := Option.some.inj h
      exact sessionInvariant_failed hI hcreate
    | created =>
      obtain rfl := Option.some.inj h
      exact sessionInvariant_created hI hcreate
  | reset =>
    simp only [step] at h
    split_ifs at h with hreset
    obtain rfl := Option.some.inj h
    exact sessionInvariant_reset hI hreset
  | publish =>
    simp only [step] at h
    split_ifs at h with hpublish
    obtain rfl := Option.some.inj h
    exact sessionInvariant_publish hI hpublish
  | stop =>
    simp only [step] at h
    split_ifs at h with hready hrunning <;> obtain rfl := Option.some.inj h
    · exact sessionInvariant_stop hI hrunning
    · exact { hI with }
  | write due => exact sessionInvariant_writerStep hI h

/-- Every run whose sends come in their own session keeps the files exact. -/
theorem isolated_of_run {as : List (Label Task)} {s : Logger Task}
    (h : Run step SendsInSession Logger.start as s) : Isolated s :=
  isolated_of_invariant
    (h.invariant sessionInvariant_start (fun _ _ _ hI hC => sessionInvariant_step hI hC))

/-- 3000 rpm at 1000 ms, with the absolute time known. -/
def engineSample : QueuedSample :=
  ⟨⟨AppProtocol.canIdEngineRpm, 8, 0x000003E800000BB8⟩, 1700000000000⟩

def startSession : List (Label Unit) := [.start, .create .created, .reset, .publish]

/-- The task sees the first session running, is delayed past the stop and sends before the
writer looks at the queue. -/
def delayedSend : List (Label Unit) :=
  startSession ++ [.test () engineSample, .stop, .send ()] ++ List.replicate 6 (.write false)

theorem delayedSend_isolated :
    ∃ s, Run step SendsInSession Logger.start delayedSend s ∧
      s.closed = [⟨1, recordBytes engineSample, utcBytes engineSample⟩] ∧ Isolated s := by
  have h : Run step SendsInSession Logger.start delayedSend _ := Run.of_exec rfl
  exact ⟨_, h, rfl, isolated_of_run h⟩

/-- The same task sends after the file was closed; the writer takes the sample into its block
before a second session starts and stops. -/
def staleSend : List (Label Unit) :=
  startSession ++ [.test () engineSample, .stop] ++ List.replicate 5 (.write false) ++
    [.send (), .write false] ++ startSession ++ [.stop] ++ List.replicate 5 (.write false)

/-- The sample of the first session is then missing from its file and is in the file of the
second session. -/
theorem staleSend_not_isolated :
    ∃ s, Run step Free Logger.start staleSend s ∧
      s.acceptedIn 1 = [engineSample] ∧ s.acceptedIn 2 = [] ∧
      s.closed = [⟨1, [], []⟩, ⟨2, recordBytes engineSample, utcBytes engineSample⟩] ∧
      ¬ Isolated s := by
  obtain ⟨s, hrun, hfirst, hsecond, hclosed⟩ : ∃ s, Run step Free Logger.start staleSend s ∧
      s.acceptedIn 1 = [engineSample] ∧ s.acceptedIn 2 = [] ∧
      s.closed = [⟨1, [], []⟩, ⟨2, recordBytes engineSample, utcBytes engineSample⟩] :=
    ⟨_, Run.of_exec_free rfl, rfl, rfl, rfl⟩
  refine ⟨s, hrun, hfirst, hsecond, hclosed, ?_⟩
  rintro ⟨hexact, -⟩
  have hlost := (hexact ⟨1, [], []⟩ (by simp [hclosed])).1
  rw [hfirst] at hlost
  exact absurd (congrArg List.length hlost) (by simp)

end BajaDaq.SessionIsolation
