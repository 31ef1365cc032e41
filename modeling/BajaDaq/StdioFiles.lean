import Mathlib.Data.List.Infix

/-!
# Files behind a stdio stream

A file is the bytes that reached it together with its stream, if one is open. `fwrite` only
reports what the stream buffer accepted. A flush or a close that fails loses a suffix of the
bytes not yet pushed, and nothing prevents later operations from succeeding.
-/

namespace BajaDaq.StdioFiles

variable {β : Type*}

/-- How a flush or a close ended: everything reached the file, or only the first `kept` of
the waiting bytes did. -/
inductive Push where
  | ok
  | failed (kept : ℕ)
  deriving DecidableEq, Repr

def Push.succeeded : Push → Bool
  | .ok => true
  | .failed _ => false

/-- The part of the waiting bytes that reaches the file. -/
def Push.pushed (o : Push) (waiting : List β) : List β :=
  match o with
  | .ok => waiting
  | .failed kept => waiting.take kept

theorem Push.eq_ok_of_succeeded {o : Push} (h : o.succeeded = true) : o = .ok := by
  cases o with
  | ok => rfl
  | failed kept => cases h

/-- `stream` is the buffer of the open stream; `none` is a null handle. -/
structure StdioFile (β : Type*) where
  disk : List β
  stream : Option (List β)
  deriving DecidableEq, Repr

namespace StdioFile

def isOpen (f : StdioFile β) : Bool := f.stream.isSome

/-- Everything accepted so far and not lost, whether pushed or still waiting. -/
def contents (f : StdioFile β) : List β := f.disk ++ f.stream.getD []

/-- A newly created file, open for writing. -/
def created : StdioFile β := ⟨[], some []⟩

/-- The stream accepts a prefix of the bytes and reports how many. -/
def fwrite (f : StdioFile β) (bytes : List β) (accepted : ℕ) : StdioFile β × ℕ :=
  match f.stream with
  | none => (f, 0)
  | some waiting =>
    (⟨f.disk, some (waiting ++ bytes.take accepted)⟩, min accepted bytes.length)

def fflush (f : StdioFile β) (o : Push) : StdioFile β :=
  match f.stream with
  | none => f
  | some waiting => ⟨f.disk ++ o.pushed waiting, some []⟩

def fclose (f : StdioFile β) (o : Push) : StdioFile β :=
  match f.stream with
  | none => f
  | some waiting => ⟨f.disk ++ o.pushed waiting, none⟩

/-- Reopen for appending; a failure leaves a null handle and the file as it is. -/
def fopenAppend (f : StdioFile β) (opened : Bool) : StdioFile β :=
  ⟨f.disk, if opened then some [] else none⟩

theorem pushed_prefix (o : Push) (waiting : List β) : o.pushed waiting <+: waiting := by
  cases o with
  | ok => exact List.prefix_rfl
  | failed kept => exact List.take_prefix kept waiting

@[simp] theorem isOpen_fwrite (f : StdioFile β) (bytes : List β) (accepted : ℕ) :
    (f.fwrite bytes accepted).1.isOpen = f.isOpen := by
  obtain ⟨disk, _ | waiting⟩ := f <;> rfl

@[simp] theorem isOpen_fclose (f : StdioFile β) (o : Push) : (f.fclose o).isOpen = false := by
  obtain ⟨disk, _ | waiting⟩ := f <;> rfl

@[simp] theorem isOpen_fopenAppend (f : StdioFile β) (opened : Bool) :
    (f.fopenAppend opened).isOpen = opened := by
  cases opened <;> rfl

/-- The reported bytes are appended to the contents. -/
theorem contents_fwrite (f : StdioFile β) (bytes : List β) (accepted : ℕ) :
    (f.fwrite bytes accepted).1.contents =
      f.contents ++ bytes.take (f.fwrite bytes accepted).2 := by
  obtain ⟨disk, _ | waiting⟩ := f
  · simp [fwrite, contents]
  · rcases Nat.le_total accepted bytes.length with h | h
    · simp [fwrite, contents, h]
    · simp [fwrite, contents, h, List.take_of_length_le h]

theorem fwrite_count_le (f : StdioFile β) (bytes : List β) (accepted : ℕ) :
    (f.fwrite bytes accepted).2 ≤ bytes.length := by
  obtain ⟨disk, _ | waiting⟩ := f
  · exact Nat.zero_le _
  · exact Nat.min_le_right _ _

/-- A flush never adds to the contents; at worst a suffix of the waiting bytes is lost. -/
theorem contents_fflush_prefix (f : StdioFile β) (o : Push) :
    (f.fflush o).contents <+: f.contents := by
  obtain ⟨disk, _ | waiting⟩ := f
  · exact List.prefix_rfl
  · simpa [fflush, contents] using pushed_prefix o waiting

theorem contents_fclose_prefix (f : StdioFile β) (o : Push) :
    (f.fclose o).contents <+: f.contents := by
  obtain ⟨disk, _ | waiting⟩ := f
  · exact List.prefix_rfl
  · simpa [fclose, contents] using pushed_prefix o waiting

@[simp] theorem contents_fflush_ok (f : StdioFile β) : (f.fflush .ok).contents = f.contents := by
  obtain ⟨disk, _ | waiting⟩ := f <;> simp [fflush, contents, Push.pushed]

@[simp] theorem contents_fclose_ok (f : StdioFile β) : (f.fclose .ok).contents = f.contents := by
  obtain ⟨disk, _ | waiting⟩ := f <;> simp [fclose, contents, Push.pushed]

theorem disk_prefix (f : StdioFile β) : f.disk <+: f.contents := List.prefix_append _ _

/-- After a flush that succeeded nothing is waiting. -/
theorem disk_fflush_ok {f : StdioFile β} (h : f.isOpen = true) :
    (f.fflush .ok).disk = f.contents := by
  obtain ⟨disk, _ | waiting⟩ := f
  · cases h
  · rfl

/-- Nothing is lost at a close when nothing is waiting. -/
theorem disk_fclose_of_settled {f : StdioFile β} (h : f.disk = f.contents) (o : Push) :
    (f.fclose o).disk = f.disk := by
  obtain ⟨disk, _ | waiting⟩ := f
  · rfl
  · have hnil : waiting = [] := by simpa [contents] using h
    cases o <;> simp [fclose, Push.pushed, hnil]

/-- Without an open stream everything there is has reached the file. -/
theorem contents_of_closed {f : StdioFile β} (h : f.isOpen = false) : f.contents = f.disk := by
  obtain ⟨disk, _ | waiting⟩ := f
  · simp [contents]
  · cases h

theorem contents_fopenAppend (f : StdioFile β) (opened : Bool) :
    (f.fopenAppend opened).contents = f.disk := by
  cases opened <;> simp [fopenAppend, contents]

theorem contents_reopen_prefix (f : StdioFile β) (o : Push) (opened : Bool) :
    ((f.fclose o).fopenAppend opened).contents <+: f.contents := by
  rw [contents_fopenAppend, ← contents_of_closed (isOpen_fclose f o)]
  exact contents_fclose_prefix f o

@[simp] theorem contents_reopen_ok (f : StdioFile β) (opened : Bool) :
    ((f.fclose .ok).fopenAppend opened).contents = f.contents := by
  rw [contents_fopenAppend, ← contents_of_closed (isOpen_fclose f .ok), contents_fclose_ok]

end StdioFile
end BajaDaq.StdioFiles
