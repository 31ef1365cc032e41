import BajaDaq.SessionWriter

/-!
# The reopen after a failed checkpoint

While `log_file` is null every attempt to write a block fails, and a checkpoint with samples in
the block is given up before it comes to the reopen. Whether the next deadline reopens the binary
depends on how many samples have arrived.
-/

namespace BajaDaq.CheckpointRetry
open FixedItems LogFiles StdioFiles SessionWriter TransitionRuns

/-- Samples are taken from the queue and no deadline passes. -/
def Receives (_ : Session) : Event → Prop
  | .receive _ _ => True
  | _ => False

/-- No call on the binary fails, and the session goes on. -/
def Smooth (s : Session) : Event → Prop
  | .receive _ o => logRecordsPerBlock * recordSize ≤ o.logAccepted ∧ o.logFlush = .ok
  | .checkpoint o c => s.writer.block.length * recordSize ≤ o.logAccepted ∧ o.logFlush = .ok ∧
      c.logClose = .ok ∧ c.logOpened = true
  | .finish _ _ => False

/-- The next deadline comes to the reopen, whatever the calls of its checkpoint do before; and
once the reopen succeeds, all later samples go to the binary or wait in the block. -/
structure Recovers (s : Session) : Prop where
  reopens : ∀ o c t, step s (.checkpoint o c) = some t →
    t.writer.files.log.isOpen = c.logOpened
  resumes : ∀ o c t, c.logOpened = true → step s (.checkpoint o c) = some t →
    ∀ {es u}, Run step Smooth t es u → ∃ later, u.taken = t.taken ++ later ∧
      u.writer.files.log.contents ++ u.writer.block.flatMap recordBytes =
        t.writer.files.log.contents ++ later.flatMap recordBytes

variable {files : Files} {w : Writer} {s t u : Session} {es : List Event}

theorem writeRecords_of_null (h : files.log.isOpen = false) {block : List QueuedSample}
    (hblock : block ≠ []) (o : WriteOutcome) :
    (writeRecords files block o).2 = false ∧
      (writeRecords files block o).1.log = files.log := by
  obtain ⟨⟨disk, _ | waiting⟩, utc⟩ := files
  · refine ⟨?_, rfl⟩
    simpa [writeRecords, StdioFile.fwrite, length_flatMap_const length_recordBytes,
      recordSize] using hblock
  · cases h

/-- Received samples leave `log_file` null and fill the block from where it is. -/
theorem null_of_receives (hrun : Run step Receives s es u) (hblock : s.writer.block.length < 100)
    (hnull : s.writer.files.log.isOpen = false) :
    u.writer.files.log.isOpen = false ∧
      u.writer.block.length = (s.writer.block.length + es.length) % logRecordsPerBlock ∧
      u.closed = s.closed := by
  induction hrun with
  | nil => exact ⟨hnull, (Nat.mod_eq_of_lt hblock).symm, rfl⟩
  | @snoc t u es e hrun hreceive hstep ih =>
    obtain ⟨hnull, hlength, hclosed⟩ := ih
    cases e with
    | receive x o =>
      have hwriter := (step_eq hstep).1
      have hopen : u.closed = t.closed := by
        unfold step at hstep
        split at hstep
        · cases hstep
        · rename_i ht
          obtain rfl := Option.some.inj hstep
          simp only [Bool.not_eq_true] at ht
          rw [ht]
          rfl
      rw [hwriter]
      simp only [Event.run, Writer.store, List.length_append, List.length_singleton, hlength,
        logRecordsPerBlock]
      split
      · rename_i hfull
        refine ⟨?_, ?_, hopen.trans hclosed⟩
        · rw [(writeRecords_of_null hnull (by simp) o).2]
          exact hnull
        · simp only [List.length_nil]
          omega
      · rename_i hroom
        refine ⟨hnull, ?_, hopen.trans hclosed⟩
        simp only [List.length_append, List.length_singleton, hlength, logRecordsPerBlock]
        omega
    | checkpoint o c => cases hreceive
    | finish o c => cases hreceive

/-- With a null `log_file` the deadline comes to the reopen exactly when the block is empty. -/
theorem checkpoint_of_null (hnull : w.files.log.isOpen = false) (o : WriteOutcome)
    (c : CheckpointOutcome) :
    (w.checkpoint o c).files.log.isOpen = if w.block = [] then c.logOpened else false := by
  unfold Writer.checkpoint
  split
  · exact StdioFile.isOpen_fopenAppend _ _
  · rename_i hblock
    obtain ⟨hfails, hlog⟩ := writeRecords_of_null hnull hblock o
    simpa [hfails, hlog] using hnull

/-- A block that is accepted whole is in the binary. -/
theorem writeRecords_full (hopen : files.log.isOpen = true) {block : List QueuedSample}
    {o : WriteOutcome} (haccepted : block.length * recordSize ≤ o.logAccepted)
    (hflush : o.logFlush = .ok) :
    (writeRecords files block o).2 = true ∧
      (writeRecords files block o).1.log.isOpen = true ∧
      (writeRecords files block o).1.log.contents =
        files.log.contents ++ block.flatMap recordBytes := by
  obtain ⟨⟨disk, _ | waiting⟩, utc⟩ := files
  · cases hopen
  · have hlength := length_flatMap_const length_recordBytes block
    refine ⟨?_, ?_, ?_⟩
    · simp [writeRecords, StdioFile.fwrite, hlength, haccepted]
    · simp [writeRecords, StdioFile.fwrite, StdioFile.fflush, StdioFile.isOpen]
    · simp [writeRecords, StdioFile.fwrite, hflush, StdioFile.contents, StdioFile.fflush,
        Push.pushed, List.take_of_length_le (hlength.trans_le haccepted)]

/-- One smooth event: what is taken goes to the binary or to the block. -/
theorem smooth_step (hopen : t.writer.files.log.isOpen = true) {e : Event} (hsmooth : Smooth t e)
    (hs : step t e = some u) :
    u.writer.files.log.isOpen = true ∧ ∃ later, u.taken = t.taken ++ later ∧
      u.writer.files.log.contents ++ u.writer.block.flatMap recordBytes =
        t.writer.files.log.contents ++ (t.writer.block ++ later).flatMap recordBytes := by
  obtain ⟨hwriter, htaken, -⟩ := step_eq hs
  refine ⟨?_, e.received, htaken, ?_⟩
  all_goals rw [hwriter]
  · cases e with
    | receive x o =>
      simp only [Event.run, Writer.store]
      split
      · rename_i hfull
        exact (writeRecords_full hopen (by rw [hfull]; exact hsmooth.1) hsmooth.2).2.1
      · exact hopen
    | checkpoint o c =>
      obtain ⟨haccepted, hflush, hclose, hreopen⟩ := hsmooth
      simp only [Event.run, Writer.checkpoint, (writeRecords_full hopen haccepted hflush).1,
        if_true]
      split <;> exact (StdioFile.isOpen_fopenAppend _ _).trans hreopen
    | finish o c => exact hsmooth.elim
  · cases e with
    | receive x o =>
      simp only [Event.run, Writer.store, Event.received]
      split
      · rename_i hfull
        rw [(writeRecords_full hopen (by rw [hfull]; exact hsmooth.1) hsmooth.2).2.2]
        simp
      · rfl
    | checkpoint o c =>
      obtain ⟨haccepted, hflush, hclose, hreopen⟩ := hsmooth
      obtain ⟨hok, -, hcontents⟩ := writeRecords_full hopen haccepted hflush
      simp only [Event.run, Writer.checkpoint, hok, if_true, Event.received, List.append_nil]
      split
      · rename_i hblock
        simp [checkpointFile, hclose, hblock]
      · simp [checkpointFile, hclose, hcontents]
    | finish o c => exact hsmooth.elim

theorem smooth_run (hrun : Run step Smooth t es u) (hopen : t.writer.files.log.isOpen = true)
    (hblock : t.writer.block = []) :
    u.writer.files.log.isOpen = true ∧ ∃ later, u.taken = t.taken ++ later ∧
      u.writer.files.log.contents ++ u.writer.block.flatMap recordBytes =
        t.writer.files.log.contents ++ later.flatMap recordBytes := by
  induction hrun with
  | nil => exact ⟨hopen, [], by simp, by simp [hblock]⟩
  | snoc hrun hsmooth hstep ih =>
    obtain ⟨hopen', later, htaken, hcontents⟩ := ih
    obtain ⟨hopen'', next, htaken', hcontents'⟩ := smooth_step hopen' hsmooth hstep
    refine ⟨hopen'', later ++ next, ?_, ?_⟩
    · rw [htaken', htaken, List.append_assoc]
    · rw [hcontents', List.flatMap_append, ← List.append_assoc, hcontents, List.append_assoc,
        ← List.flatMap_append]

/-- In every run the block has room for another sample. -/
theorem block_lt_of_run (hrun : Run step Free .start es s) :
    s.writer.block.length < logRecordsPerBlock := by
  have hpos : 0 < logRecordsPerBlock := by decide
  refine hrun.invariant (I := fun s => s.writer.block.length < logRecordsPerBlock) hpos ?_
  intro t e u hlt _ hs
  rw [(step_eq hs).1]
  cases e with
  | receive x o =>
    simp only [Event.run, Writer.store]
    split
    · exact hpos
    · rename_i hroom
      simp only [List.length_append, List.length_singleton, logRecordsPerBlock] at hroom hlt ⊢
      omega
  | checkpoint o c =>
    simp only [Event.run, Writer.checkpoint]
    split_ifs
    · exact hpos
    · exact hpos
    · exact hlt
  | finish o c =>
    simp only [Event.run, Writer.finish]
    split_ifs <;> exact hpos

/-- In every session in progress whose binary could not be reopened, and for every continuation
of samples, the next deadline makes good the reopen exactly when the samples have filled whole
blocks by then. -/
theorem recovers_iff {before later : List Event} (hrun : Run step Free .start before s)
    (hrunning : s.closed = false) (hnull : s.writer.files.log.isOpen = false)
    (hlater : Run step Receives s later u) :
    Recovers u ↔ (s.writer.block.length + later.length) % logRecordsPerBlock = 0 := by
  obtain ⟨hnull', hlength, hclosed⟩ := null_of_receives hlater (block_lt_of_run hrun) hnull
  rw [← hlength, List.length_eq_zero_iff]
  constructor
  · intro h
    by_contra hblock
    have hgoesOn : ¬ u.closed = true := by simp [hclosed, hrunning]
    obtain ⟨t, hstep⟩ : ∃ t, step u (.checkpoint (.success 0) ⟨.ok, true, .ok, true⟩) = some t :=
      ⟨_, if_neg hgoesOn⟩
    have hopen := h.reopens _ _ t hstep
    rw [(step_eq hstep).1, Event.run, checkpoint_of_null hnull', if_neg hblock] at hopen
    cases hopen
  · intro hempty
    have hcheckpoint : ∀ o c t, step u (.checkpoint o c) = some t →
        t.writer.files.log.isOpen = c.logOpened ∧ t.writer.block = [] := by
      intro o c t hstep
      rw [(step_eq hstep).1, Event.run, checkpoint_of_null hnull', if_pos hempty]
      exact ⟨rfl, by simp [Writer.checkpoint, hempty]⟩
    refine ⟨fun o c t hstep => (hcheckpoint o c t hstep).1, ?_⟩
    intro o c t hreopen hstep es v hsmooth
    obtain ⟨hopen, hblock⟩ := hcheckpoint o c t hstep
    exact (smooth_run hsmooth (hopen.trans hreopen) hblock).2

/-- The first checkpoint of a session closes the binary and cannot open it again. -/
def lostBinary : Session := ⟨⟨⟨⟨[], none⟩, .created⟩, []⟩, [], 0, false⟩

theorem lostBinary_recovers : Recovers lostBinary := by
  have hrun : Run step Free .start [.checkpoint (.success 0) ⟨.ok, false, .ok, true⟩] lostBinary :=
    .of_exec_free rfl
  exact (recovers_iff hrun rfl rfl (.nil lostBinary)).mpr rfl

def oneSample : QueuedSample := ⟨⟨AppProtocol.canIdEngineRpm, 8, 0⟩, 0⟩

def lostBinaryWithSample : Session :=
  ⟨⟨⟨⟨[], none⟩, .created⟩, [oneSample]⟩, [oneSample], 0, false⟩

/-- One sample later the block cannot be written, and the deadline passes without a reopen. -/
theorem lostBinaryWithSample_not_recovers :
    Run step Free .start [.checkpoint (.success 0) ⟨.ok, false, .ok, true⟩,
      .receive oneSample (.success 1)] lostBinaryWithSample ∧ ¬ Recovers lostBinaryWithSample := by
  refine ⟨.of_exec_free rfl, fun h => ?_⟩
  have hopen := h.reopens (.success 1) ⟨.ok, true, .ok, true⟩ _ rfl
  revert hopen
  decide

end BajaDaq.CheckpointRetry
