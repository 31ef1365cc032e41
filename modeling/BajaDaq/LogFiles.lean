import BajaDaq.AppProtocol
import BajaDaq.FixedItems
import BajaDaq.LittleEndian
import BajaDaq.StdioFiles

/-!
# The two files of a recording and the writer's operations on them

`write_records`, `checkpoint_file` and the branches of `writer_task` that call them. What the
C library does during a call is an argument: how many bytes each `fwrite` accepts and how each
flush, close and reopen ends. The file mutex is always obtained, its timeout being
`portMAX_DELAY`.
-/

namespace BajaDaq.LogFiles
open AppProtocol FixedItems LittleEndian StdioFiles

def logRecordsPerBlock : ℕ := 100

/-- `queued_sample_t`. -/
structure QueuedSample where
  message : CanMessage
  utcMs : Int64
  deriving DecidableEq, Repr

/-- `sizeof(records[0])` and `sizeof(*utc)`. -/
abbrev recordSize : ℕ := 16
abbrev utcSize : ℕ := 8

theorem recordSize_pos : 0 < recordSize := by decide
theorem utcSize_pos : 0 < utcSize := by decide

/-- `records[count]`: the identifier and the payload as two 64-bit words. -/
def recordBytes (s : QueuedSample) : List UInt8 :=
  bytesOf 8 s.message.id.toNat ++ bytesOf 8 s.message.data.toNat

/-- `utc[count]`. -/
def utcBytes (s : QueuedSample) : List UInt8 := bytesOf 8 s.utcMs.toUInt64.toNat

@[simp] theorem length_recordBytes (s : QueuedSample) : (recordBytes s).length = recordSize := by
  simp [recordBytes]

@[simp] theorem length_utcBytes (s : QueuedSample) : (utcBytes s).length = utcSize := by
  simp [utcBytes]

/-- `log_file` and `utc_file` with the files behind them. -/
structure Files where
  log : StdioFile UInt8
  utc : StdioFile UInt8
  deriving DecidableEq, Repr

def Files.created : Files := ⟨.created, .created⟩

/-- What the C library does during one `write_records`. At most one of its branches closes
the companion. -/
structure WriteOutcome where
  logAccepted : ℕ
  utcAccepted : ℕ
  utcFlush : Push
  utcClose : Push
  logFlush : Push
  deriving DecidableEq, Repr

/-- No call fails while a block of `count` records is written. -/
def WriteOutcome.success (count : ℕ) : WriteOutcome :=
  ⟨count * recordSize, count * utcSize, .ok, .ok, .ok⟩

structure CheckpointOutcome where
  logClose : Push
  logOpened : Bool
  utcClose : Push
  utcOpened : Bool
  deriving DecidableEq, Repr

structure CloseOutcome where
  logClose : Push
  utcClose : Push
  deriving DecidableEq, Repr

/-- The companion's part of `write_records`: append the entries and flush, and give the
companion up when either fails. -/
def appendUtc (utc : StdioFile UInt8) (entries : List QueuedSample) (o : WriteOutcome) :
    StdioFile UInt8 :=
  if utc.isOpen then
    let appended := utc.fwrite (entries.flatMap utcBytes) o.utcAccepted
    if appended.2 / utcSize ≠ entries.length then appended.1.fclose o.utcClose
    else if o.utcFlush.succeeded then appended.1.fflush o.utcFlush
    else (appended.1.fflush o.utcFlush).fclose o.utcClose
  else utc

/-- `write_records`; a null `log_file` counts as nothing written. -/
def writeRecords (files : Files) (block : List QueuedSample) (o : WriteOutcome) :
    Files × Bool :=
  let bytes := block.flatMap recordBytes
  let log := files.log.fwrite bytes o.logAccepted
  let written := log.2
  let utc := appendUtc files.utc (block.take (written / recordSize)) o
  -- a partial binary record makes later positional metadata unsafe
  let utc := if written ≠ bytes.length ∧ utc.isOpen then utc.fclose o.utcClose else utc
  (⟨log.1.fflush o.logFlush, utc⟩, written == bytes.length)

/-- `checkpoint_file`: only the companion's reopen depends on its handle. -/
def checkpointFile (files : Files) (o : CheckpointOutcome) : Files × Bool :=
  let log := (files.log.fclose o.logClose).fopenAppend o.logOpened
  let utc := if files.utc.isOpen then (files.utc.fclose o.utcClose).fopenAppend o.utcOpened
    else files.utc
  (⟨log, utc⟩, log.isOpen)

/-- The close at the end of a session. -/
def closeFiles (files : Files) (o : CloseOutcome) : Files :=
  ⟨files.log.fclose o.logClose, files.utc.fclose o.utcClose⟩

/-- The private variables of `writer_task`: `records` and `utc` up to `count`. -/
structure Writer where
  files : Files
  block : List QueuedSample
  deriving DecidableEq, Repr

/-- A received sample; a full block is written and dropped whatever the result. -/
def Writer.store (w : Writer) (s : QueuedSample) (o : WriteOutcome) : Writer :=
  let block := w.block ++ [s]
  if block.length = logRecordsPerBlock then ⟨(writeRecords w.files block o).1, []⟩
  else ⟨w.files, block⟩

/-- The periodic checkpoint; a block that could not be written is kept. -/
def Writer.checkpoint (w : Writer) (o : WriteOutcome) (c : CheckpointOutcome) : Writer :=
  if w.block = [] then ⟨(checkpointFile w.files c).1, []⟩
  else
    let result := writeRecords w.files w.block o
    if result.2 then ⟨(checkpointFile result.1 c).1, []⟩ else ⟨result.1, w.block⟩

/-- The end of a session: write the rest, drop it whatever the result, and close. -/
def Writer.finish (w : Writer) (o : WriteOutcome) (c : CloseOutcome) : Writer :=
  if w.block = [] then ⟨closeFiles w.files c, []⟩
  else ⟨closeFiles (writeRecords w.files w.block o).1 c, []⟩

/-- The bytes of a block that the `fwrite` on the binary accepts. -/
def acceptedBytes (files : Files) (block : List QueuedSample) (o : WriteOutcome) : ℕ :=
  (files.log.fwrite (block.flatMap recordBytes) o.logAccepted).2

theorem acceptedBytes_le (files : Files) (block : List QueuedSample) (o : WriteOutcome) :
    acceptedBytes files block o ≤ block.length * recordSize := by
  rw [← length_flatMap_const length_recordBytes block]
  exact StdioFile.fwrite_count_le _ _ _

theorem writeRecords_ok (files : Files) (block : List QueuedSample) (o : WriteOutcome) :
    (writeRecords files block o).2 = true ↔
      acceptedBytes files block o = block.length * recordSize := by
  simp [writeRecords, acceptedBytes, length_flatMap_const length_recordBytes]

/-- The binary gains at most the accepted bytes; a failed flush may lose some of them. -/
theorem log_writeRecords (files : Files) (block : List QueuedSample) (o : WriteOutcome) :
    (writeRecords files block o).1.log.contents <+:
      files.log.contents ++ (block.flatMap recordBytes).take (acceptedBytes files block o) := by
  refine (StdioFile.contents_fflush_prefix _ _).trans ?_
  rw [StdioFile.contents_fwrite]
  exact List.prefix_rfl

/-- The companion gains at most the entries it is given. -/
theorem contents_appendUtc (utc : StdioFile UInt8) (entries : List QueuedSample)
    (o : WriteOutcome) :
    (appendUtc utc entries o).contents <+: utc.contents ++ entries.flatMap utcBytes := by
  have hw : (utc.fwrite (entries.flatMap utcBytes) o.utcAccepted).1.contents <+:
      utc.contents ++ entries.flatMap utcBytes := by
    rw [StdioFile.contents_fwrite]
    exact (List.prefix_append_right_inj _).mpr (List.take_prefix _ _)
  dsimp only [appendUtc]
  split_ifs
  · exact (StdioFile.contents_fclose_prefix _ _).trans hw
  · exact (StdioFile.contents_fflush_prefix _ _).trans hw
  · exact ((StdioFile.contents_fclose_prefix _ _).trans
      (StdioFile.contents_fflush_prefix _ _)).trans hw
  · exact List.prefix_append _ _

/-- A companion that is still open has all its entries on disk. -/
theorem appendUtc_open {utc : StdioFile UInt8} {entries : List QueuedSample}
    {o : WriteOutcome} (h : (appendUtc utc entries o).isOpen = true) :
    utc.isOpen = true ∧
      (appendUtc utc entries o).contents = utc.contents ++ entries.flatMap utcBytes ∧
      (appendUtc utc entries o).disk = (appendUtc utc entries o).contents := by
  dsimp only [appendUtc] at h ⊢
  split_ifs at h ⊢ with hopen hcount hflush
  · simp at h
  · have hall : (utc.fwrite (entries.flatMap utcBytes) o.utcAccepted).2 / utcSize =
        entries.length := by simpa using hcount
    have hlen := length_flatMap_const length_utcBytes entries
    have hle : (entries.flatMap utcBytes).length ≤
        (utc.fwrite (entries.flatMap utcBytes) o.utcAccepted).2 := by
      rw [hlen, ← hall]
      exact Nat.div_mul_le_self _ _
    rw [Push.eq_ok_of_succeeded hflush, StdioFile.disk_fflush_ok (by simpa using hopen),
      StdioFile.contents_fflush_ok, StdioFile.contents_fwrite, List.take_of_length_le hle]
    exact ⟨hopen, rfl, rfl⟩
  · simp at h
  · exact absurd h hopen

/-- The companion's contents after `write_records` on a block. -/
theorem utc_writeRecords (files : Files) (block : List QueuedSample) (o : WriteOutcome) :
    (writeRecords files block o).1.utc.contents <+: files.utc.contents ++
      (block.take (acceptedBytes files block o / recordSize)).flatMap utcBytes := by
  have h := contents_appendUtc files.utc
    (block.take (acceptedBytes files block o / recordSize)) o
  dsimp only [writeRecords]
  split_ifs
  · exact (StdioFile.contents_fclose_prefix _ _).trans h
  · exact h

/-- A null companion stays as it is. -/
theorem utc_writeRecords_of_closed {files : Files} (block : List QueuedSample)
    (o : WriteOutcome) (h : files.utc.isOpen = false) :
    (writeRecords files block o).1.utc = files.utc := by
  have happend : ∀ entries, appendUtc files.utc entries o = files.utc := by
    intro entries
    simp [appendUtc, h]
  simp [writeRecords, happend, h]

/-- The companion survives a block only when the whole block was accepted; its entries are
then on disk. -/
theorem utc_writeRecords_of_open {files : Files} {block : List QueuedSample}
    {o : WriteOutcome} (h : (writeRecords files block o).1.utc.isOpen = true) :
    acceptedBytes files block o = block.length * recordSize ∧
      (writeRecords files block o).1.utc.contents =
        files.utc.contents ++ block.flatMap utcBytes ∧
      (writeRecords files block o).1.utc.disk = (writeRecords files block o).1.utc.contents := by
  dsimp only [writeRecords] at h ⊢
  split_ifs at h ⊢ with hshort
  · simp at h
  · obtain ⟨-, hcontents, hdisk⟩ := appendUtc_open h
    have hall : acceptedBytes files block o = block.length * recordSize := by
      by_contra hne
      rw [← length_flatMap_const length_recordBytes block] at hne
      exact hshort ⟨hne, h⟩
    have htake : block.take (acceptedBytes files block o / recordSize) = block := by
      rw [hall, Nat.mul_div_cancel _ recordSize_pos, List.take_length]
    refine ⟨hall, ?_, hdisk⟩
    rw [hcontents]
    exact congrArg (fun b => files.utc.contents ++ b.flatMap utcBytes) htake

theorem checkpointFile_utc_open {files : Files} {c : CheckpointOutcome}
    (h : (checkpointFile files c).1.utc.isOpen = true) : files.utc.isOpen = true := by
  by_contra hn
  simp [checkpointFile, hn] at h

/-- A checkpoint loses nothing of a companion that had nothing waiting. -/
theorem checkpointFile_utc {files : Files} {c : CheckpointOutcome}
    (hsettled : files.utc.disk = files.utc.contents)
    (h : (checkpointFile files c).1.utc.isOpen = true) :
    (checkpointFile files c).1.utc.contents = files.utc.contents ∧
      (checkpointFile files c).1.utc.disk = (checkpointFile files c).1.utc.contents := by
  have hopen := checkpointFile_utc_open h
  simp only [checkpointFile, hopen, if_true, StdioFile.contents_fopenAppend,
    StdioFile.disk_fclose_of_settled hsettled]
  exact ⟨hsettled, StdioFile.disk_fclose_of_settled hsettled _⟩

/-- The binary and the companion hold exactly the samples `l`. -/
def Files.Holds (files : Files) (l : List QueuedSample) : Prop :=
  files.log.contents = l.flatMap recordBytes ∧ files.utc.contents = l.flatMap utcBytes

/-- With both files open and no failure a block reaches both of them. -/
theorem holds_writeRecords {files : Files} {l : List QueuedSample} (block : List QueuedSample)
    (hlog : files.log.isOpen = true) (hutc : files.utc.isOpen = true) (h : files.Holds l) :
    let result := writeRecords files block (.success block.length)
    result.2 = true ∧ result.1.log.isOpen = true ∧ result.1.utc.isOpen = true ∧
      result.1.Holds (l ++ block) := by
  obtain ⟨⟨logDisk, _ | logWaiting⟩, ⟨utcDisk, _ | utcWaiting⟩⟩ := files
  · cases hlog
  · cases hlog
  · cases hutc
  · have hlogLen := length_flatMap_const length_recordBytes block
    have hutcLen := length_flatMap_const length_utcBytes block
    simp only [Files.Holds, StdioFile.contents, Option.getD_some] at h
    simp [writeRecords, WriteOutcome.success, appendUtc, StdioFile.fwrite, StdioFile.isOpen,
      StdioFile.fflush, Push.pushed, Push.succeeded, Files.Holds, StdioFile.contents, hlogLen,
      hutcLen, Nat.mul_div_cancel _ recordSize_pos, Nat.mul_div_cancel _ utcSize_pos, h,
      ← List.append_assoc]

theorem holds_checkpointFile {files : Files} {l : List QueuedSample}
    (hutc : files.utc.isOpen = true) (h : files.Holds l) :
    let result := checkpointFile files ⟨.ok, true, .ok, true⟩
    result.1.log.isOpen = true ∧ result.1.utc.isOpen = true ∧ result.1.Holds l := by
  simp [checkpointFile, Files.Holds, hutc, h.1, h.2]

theorem holds_closeFiles {files : Files} {l : List QueuedSample} (h : files.Holds l) :
    (closeFiles files ⟨.ok, .ok⟩).Holds l := by
  simp [closeFiles, Files.Holds, h.1, h.2]

end BajaDaq.LogFiles
