import BajaDaq.LogFiles
import BajaDaq.TransitionRuns

/-!
# One session of the writer under arbitrary I/O failures

The events are the three branches of `writer_task`; each carries what the C library does in
it. The state adds two records of history to the writer's variables: the samples taken from
the queue, and how many leading records of the private block are in the binary although the
attempt to write that block failed.
-/

namespace BajaDaq.SessionWriter
open FixedItems LogFiles StdioFiles TransitionRuns

inductive Event where
  | receive (x : QueuedSample) (o : WriteOutcome)
  | checkpoint (o : WriteOutcome) (c : CheckpointOutcome)
  | finish (o : WriteOutcome) (c : CloseOutcome)
  deriving DecidableEq, Repr

namespace Event

def run (w : Writer) : Event → Writer
  | .receive x o => w.store x o
  | .checkpoint o c => w.checkpoint o c
  | .finish o c => w.finish o c

def received : Event → List QueuedSample
  | .receive x _ => [x]
  | _ => []

/-- The private block once the received sample, if any, is in it. -/
def pending (w : Writer) (e : Event) : List QueuedSample := w.block ++ e.received

/-- The bytes that the `fwrite` on the binary accepts during the event. -/
def accepted (w : Writer) : Event → ℕ
  | .receive x o =>
    if (w.block ++ [x]).length = logRecordsPerBlock then
      acceptedBytes w.files (w.block ++ [x]) o else 0
  | .checkpoint o _ => if w.block = [] then 0 else acceptedBytes w.files w.block o
  | .finish o _ => if w.block = [] then 0 else acceptedBytes w.files w.block o

def closes : Event → Bool
  | .finish _ _ => true
  | _ => false

end Event

structure Session where
  writer : Writer
  taken : List QueuedSample
  stored : ℕ
  closed : Bool
  deriving DecidableEq, Repr

/-- The files just created and nothing in the block. -/
def Session.start : Session := ⟨⟨.created, []⟩, [], 0, false⟩

def step (s : Session) (e : Event) : Option Session :=
  if s.closed then none
  else
    let w := e.run s.writer
    some ⟨w, s.taken ++ e.received,
      if w.block = [] then 0 else max s.stored (e.accepted s.writer / recordSize), e.closes⟩

theorem step_eq {s t : Session} {e : Event} (h : step s e = some t) :
    t.writer = e.run s.writer ∧ t.taken = s.taken ++ e.received ∧
      t.stored = if t.writer.block = [] then 0
        else max s.stored (e.accepted s.writer / recordSize) := by
  unfold step at h
  split at h
  · cases h
  · cases h
    exact ⟨rfl, rfl, rfl⟩

/-- A block is kept or dropped as a whole. -/
theorem block_run (w : Writer) (e : Event) :
    (e.run w).block = e.pending w ∨ (e.run w).block = [] := by
  cases e with
  | receive x o =>
    simp only [Event.run, Writer.store]
    split_ifs
    · exact .inr rfl
    · exact .inl rfl
  | checkpoint o c =>
    simp only [Event.run, Writer.checkpoint, Event.pending, Event.received, List.append_nil]
    split_ifs
    · exact .inr rfl
    · exact .inr rfl
    · exact .inl rfl
  | finish o c =>
    simp only [Event.run, Writer.finish]
    split_ifs <;> exact .inr rfl

theorem accepted_le (w : Writer) (e : Event) :
    e.accepted w ≤ (e.pending w).length * recordSize := by
  cases e with
  | receive x o =>
    simp only [Event.accepted, Event.pending, Event.received]
    split_ifs
    · exact acceptedBytes_le _ _ _
    · exact Nat.zero_le _
  | checkpoint o c | finish o c =>
    simp only [Event.accepted, Event.pending, Event.received, List.append_nil]
    split_ifs
    · exact Nat.zero_le _
    · exact acceptedBytes_le _ _ _

/-- The part of the pending block that the binary accepts. -/
def acceptedPart (w : Writer) (e : Event) : List UInt8 :=
  ((e.pending w).flatMap recordBytes).take (e.accepted w)

@[simp] theorem length_acceptedPart (w : Writer) (e : Event) :
    (acceptedPart w e).length = e.accepted w := by
  rw [acceptedPart, List.length_take, length_flatMap_const length_recordBytes]
  exact Nat.min_eq_left (accepted_le w e)

theorem log_checkpointFile (files : Files) (c : CheckpointOutcome) :
    (checkpointFile files c).1.log.contents <+: files.log.contents :=
  StdioFile.contents_reopen_prefix _ _ _

theorem log_closeFiles (files : Files) (c : CloseOutcome) :
    (closeFiles files c).log.contents <+: files.log.contents :=
  StdioFile.contents_fclose_prefix _ _

/-- An event appends the accepted part of the pending block to the binary, or loses some of
what was accepted. -/
theorem log_run (w : Writer) (e : Event) :
    (e.run w).files.log.contents <+: w.files.log.contents ++ acceptedPart w e := by
  have hkeep : ∀ bs : List UInt8, w.files.log.contents <+: w.files.log.contents ++ bs :=
    List.prefix_append _
  cases e with
  | receive x o =>
    simp only [Event.run, Writer.store, acceptedPart, Event.pending, Event.received,
      Event.accepted]
    split_ifs
    · exact log_writeRecords _ _ _
    · exact hkeep _
  | checkpoint o c =>
    simp only [Event.run, Writer.checkpoint, acceptedPart, Event.pending, Event.received,
      Event.accepted, List.append_nil]
    split_ifs
    · exact (log_checkpointFile _ _).trans (hkeep _)
    · exact (log_checkpointFile _ _).trans (log_writeRecords _ _ _)
    · exact log_writeRecords _ _ _
  | finish o c =>
    simp only [Event.run, Writer.finish, acceptedPart, Event.pending, Event.received,
      Event.accepted, List.append_nil]
    split_ifs
    · exact (log_closeFiles _ _).trans (hkeep _)
    · exact (log_closeFiles _ _).trans (log_writeRecords _ _ _)

/-- The companion gets at most the entries of the complete records that were accepted. -/
theorem utc_run (w : Writer) (e : Event) :
    (e.run w).files.utc.contents <+: w.files.utc.contents ++
      ((e.pending w).take (e.accepted w / recordSize)).flatMap utcBytes := by
  have hkeep : ∀ bs : List UInt8, w.files.utc.contents <+: w.files.utc.contents ++ bs :=
    List.prefix_append _
  have hreopen : ∀ (files : Files) (c : CheckpointOutcome),
      (checkpointFile files c).1.utc.contents <+: files.utc.contents := by
    intro files c
    dsimp only [checkpointFile]
    split_ifs
    · exact StdioFile.contents_reopen_prefix _ _ _
    · exact List.prefix_rfl
  have hclose : ∀ (files : Files) (c : CloseOutcome),
      (closeFiles files c).utc.contents <+: files.utc.contents :=
    fun files c => StdioFile.contents_fclose_prefix _ _
  cases e with
  | receive x o =>
    simp only [Event.run, Writer.store, Event.pending, Event.received, Event.accepted]
    split_ifs
    · exact utc_writeRecords _ _ _
    · exact hkeep _
  | checkpoint o c =>
    simp only [Event.run, Writer.checkpoint, Event.pending, Event.received, Event.accepted,
      List.append_nil]
    split_ifs
    · exact (hreopen _ _).trans (hkeep _)
    · exact (hreopen _ _).trans (utc_writeRecords _ _ _)
    · exact utc_writeRecords _ _ _
  | finish o c =>
    simp only [Event.run, Writer.finish, Event.pending, Event.received, Event.accepted,
      List.append_nil]
    split_ifs
    · exact (hclose _ _).trans (hkeep _)
    · exact (hclose _ _).trans (utc_writeRecords _ _ _)

/-- Once the companion is given up it never changes again. -/
theorem utc_run_of_closed {w : Writer} (e : Event) (h : w.files.utc.isOpen = false) :
    (e.run w).files.utc = w.files.utc := by
  have hnull : w.files.utc.stream = none := by
    simpa [StdioFile.isOpen] using h
  have hreopen : ∀ (files : Files) (c : CheckpointOutcome), files.utc = w.files.utc →
      (checkpointFile files c).1.utc = w.files.utc := by
    intro files c hf
    simp [checkpointFile, hf, h]
  have hclose : ∀ (files : Files) (c : CloseOutcome), files.utc = w.files.utc →
      (closeFiles files c).utc = w.files.utc := by
    intro files c hf
    simp [closeFiles, hf, StdioFile.fclose, hnull]
  cases e with
  | receive x o =>
    simp only [Event.run, Writer.store]
    split_ifs
    · exact utc_writeRecords_of_closed _ _ h
    · rfl
  | checkpoint o c =>
    simp only [Event.run, Writer.checkpoint]
    split_ifs
    · exact hreopen _ _ rfl
    · exact hreopen _ _ (utc_writeRecords_of_closed _ _ h)
    · exact utc_writeRecords_of_closed _ _ h
  | finish o c =>
    simp only [Event.run, Writer.finish]
    split_ifs
    · exact hclose _ _ rfl
    · exact hclose _ _ (utc_writeRecords_of_closed _ _ h)

/-- The companion stays open through a step only when the step either writes the whole
pending block to both files or writes nothing. -/
theorem utc_run_of_open {w : Writer} {e : Event} (hsettled : w.files.utc.disk =
    w.files.utc.contents) (h : (e.run w).files.utc.isOpen = true) :
    (e.run w).files.utc.disk = (e.run w).files.utc.contents ∧
      ((e.run w).block = [] ∧ e.accepted w = (e.pending w).length * recordSize ∧
          (e.run w).files.utc.contents =
            w.files.utc.contents ++ (e.pending w).flatMap utcBytes ∨
        (e.run w).block = e.pending w ∧ e.accepted w = 0 ∧
          (e.run w).files.utc.contents = w.files.utc.contents) := by
  cases e with
  | receive x o =>
    simp only [Event.run, Writer.store, Event.pending, Event.received, Event.accepted] at h ⊢
    split_ifs at h ⊢
    · obtain ⟨hall, hcontents, hdisk⟩ := utc_writeRecords_of_open h
      exact ⟨hdisk, .inl ⟨rfl, hall, hcontents⟩⟩
    · exact ⟨hsettled, .inr ⟨rfl, rfl, rfl⟩⟩
  | checkpoint o c =>
    simp only [Event.run, Writer.checkpoint, Event.pending, Event.received, Event.accepted,
      List.append_nil] at h ⊢
    split_ifs at h ⊢ with hempty hok
    · obtain ⟨hcontents, hdisk⟩ := checkpointFile_utc hsettled h
      exact ⟨hdisk, .inl ⟨rfl, by simp [hempty], by simpa [hempty] using hcontents⟩⟩
    · obtain ⟨hall, hcontents, hdisk⟩ := utc_writeRecords_of_open (checkpointFile_utc_open h)
      obtain ⟨hcontents', hdisk'⟩ := checkpointFile_utc hdisk h
      exact ⟨hdisk', .inl ⟨rfl, hall, hcontents'.trans hcontents⟩⟩
    · exact absurd ((writeRecords_ok _ _ _).mpr (utc_writeRecords_of_open h).1) hok
  | finish o c =>
    simp only [Event.run, Writer.finish] at h
    split_ifs at h <;> simp [closeFiles] at h

end BajaDaq.SessionWriter
