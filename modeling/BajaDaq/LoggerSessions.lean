import BajaDaq.LogFiles
import BajaDaq.TransitionRuns
import Mathlib.Logic.Function.Basic

/-!
# The logger's tasks over consecutive sessions

`data_logger_enqueue`, `data_logger_start`, `data_logger_stop` and `writer_task` as steps on the
variables they share, with every SD operation succeeding. The state adds a history to them:
the number of files created so far, the samples the queue accepted, each with the session its
caller saw running, and the files closed.
-/

namespace BajaDaq.LoggerSessions
open LogFiles StdioFiles

inductive LoggerState where
  | idle
  | running
  | stopping
  deriving DecidableEq, Repr

def logQueueLength : ℕ := 256

/-- A sample with the session in which its caller saw `LOGGER_RUNNING`. -/
structure Tagged where
  sample : QueuedSample
  session : ℕ
  deriving DecidableEq, Repr

/-- Where the control task stands in `data_logger_start`. -/
inductive ControlPc where
  | ready
  | create
  | reset
  | publish
  deriving DecidableEq, Repr

/-- `file_mutex` is taken before the files are created and given after the state is set. -/
def ControlPc.holdsFileMutex : ControlPc → Bool
  | .ready | .create => false
  | .reset | .publish => true

inductive WriterPc where
  | receive
  | writeBlock
  | testCheckpoint
  | writePartial
  | checkpoint
  | testStop
  | writeRest
  | close
  | storeIdle
  deriving DecidableEq, Repr

/-- How `data_logger_start` goes on after its state test: it returns before touching the
files, cannot create one of them, or creates both. -/
inductive Creation where
  | refused
  | failed
  | created
  deriving DecidableEq, Repr

structure ClosedFiles where
  session : ℕ
  log : List UInt8
  utc : List UInt8
  deriving DecidableEq, Repr

structure Logger (Task : Type) where
  state : LoggerState
  queue : List Tagged
  queueDrops : UInt32
  files : Files
  block : List Tagged
  control : ControlPc
  writer : WriterPc
  /-- what each task inside `data_logger_enqueue` is about to send -/
  pending : Task → Option Tagged
  session : ℕ
  accepted : List Tagged
  closed : List ClosedFiles

inductive Label (Task : Type) where
  | test (t : Task) (x : QueuedSample)
  | send (t : Task)
  | start
  | create (c : Creation)
  | reset
  | publish
  | stop
  /-- the writer's next step; `due` is the outcome of its checkpoint timer -/
  | write (due : Bool)
  deriving DecidableEq, Repr

variable {Task : Type}

namespace Logger

/-- After `data_logger_init`. -/
def start : Logger Task :=
  ⟨.idle, [], 0, ⟨⟨[], none⟩, ⟨[], none⟩⟩, [], .ready, .receive, fun _ => none, 0, [], []⟩

/-- The samples accepted by callers that saw session `n` running, in queue order. -/
def acceptedIn (s : Logger Task) (n : ℕ) : List QueuedSample :=
  (s.accepted.filter (fun x => x.session = n)).map Tagged.sample

/-- `write_records` on the private block. -/
def writeBlock (s : Logger Task) : Files × Bool :=
  writeRecords s.files (s.block.map Tagged.sample) (.success s.block.length)

def unlessMutexHeld (s : Logger Task) (t : Logger Task) : Option (Logger Task) :=
  if s.control.holdsFileMutex then none else some t

/-- One step of `writer_task`. -/
def writerStep (s : Logger Task) (due : Bool) : Option (Logger Task) :=
  match s.writer with
  | .receive =>
    match s.queue with
    | [] => some { s with writer := .testCheckpoint }
    | x :: queue =>
      let block := s.block ++ [x]
      some { s with
        queue := queue
        block := block
        writer := if block.length = logRecordsPerBlock then .writeBlock else .testCheckpoint }
  | .writeBlock => s.unlessMutexHeld
      { s with files := s.writeBlock.1, block := [], writer := .testCheckpoint }
  | .testCheckpoint =>
    if s.state = .running ∧ due then
      some { s with writer := if s.block = [] then .checkpoint else .writePartial }
    else some { s with writer := .testStop }
  | .writePartial => s.unlessMutexHeld
      (if s.writeBlock.2 then
        { s with files := s.writeBlock.1, block := [], writer := .checkpoint }
      else { s with files := s.writeBlock.1, writer := .testStop })
  | .checkpoint => s.unlessMutexHeld
      { s with files := (checkpointFile s.files ⟨.ok, true, .ok, true⟩).1, writer := .testStop }
  | .testStop =>
    if s.state = .stopping ∧ s.queue = [] then
      some { s with writer := if s.block = [] then .close else .writeRest }
    else some { s with writer := .receive }
  | .writeRest => s.unlessMutexHeld
      { s with files := s.writeBlock.1, block := [], writer := .close }
  | .close =>
    let files := closeFiles s.files ⟨.ok, .ok⟩
    s.unlessMutexHeld
      { s with
        files := files
        writer := .storeIdle
        closed := s.closed ++ [⟨s.session, files.log.disk, files.utc.disk⟩] }
  | .storeIdle => some { s with state := .idle, writer := .receive }

end Logger

variable [DecidableEq Task]

def step (s : Logger Task) : Label Task → Option (Logger Task)
  | .test t x =>
    if s.pending t = none then
      if s.state = .running then
        some { s with pending := Function.update s.pending t (some ⟨x, s.session⟩) }
      else some s
    else none
  | .send t =>
    match s.pending t with
    | none => none
    | some x =>
      let pending := Function.update s.pending t none
      if s.queue.length < logQueueLength then
        some { s with
          queue := s.queue ++ [x], accepted := s.accepted ++ [x], pending := pending }
      else some { s with queueDrops := s.queueDrops + 1, pending := pending }
  | .start =>
    if s.control = .ready then
      some { s with control := if s.state = .idle then .create else .ready }
    else none
  | .create c =>
    if s.control = .create then
      match c with
      | .refused => some { s with control := .ready }
      | .failed =>
        some { s with
          files := ⟨s.files.log.fopenAppend false, s.files.utc.fopenAppend false⟩
          control := .ready }
      | .created =>
        some { s with files := .created, session := s.session + 1, control := .reset }
    else none
  | .reset => if s.control = .reset then some { s with queue := [], control := .publish } else none
  | .publish =>
    if s.control = .publish then some { s with state := .running, control := .ready } else none
  | .stop =>
    if s.control = .ready then
      some { s with state := if s.state = .running then .stopping else s.state }
    else none
  | .write due => s.writerStep due

end BajaDaq.LoggerSessions
