import BajaDaq.LiveViewing
import BajaDaq.LoggerSessions

/-!
# Lifecycle calls of the application

`app_control_start_logging`, `app_control_stop_logging` and `app_control_start_live_data` in a build
with CAN, one store at a time and for any number of tasks. The state adds to the variables of
the source whether the current call of a task has stored one of the three copies of "is
recording", and the results of the calls that have returned.
-/

namespace BajaDaq.AppLifecycle
open LiveViewing LoggerSessions TransitionRuns

inductive AppControlResult where
  | ok
  | conflict
  | busy
  | invalidFilename
  | filenameExists
  | failed
  deriving DecidableEq, Repr

/-- How `data_logger_start` ends after its own state test. -/
inductive LoggerStart where
  | ok
  | invalidName
  | exists
  | openFailed
  deriving DecidableEq, Repr

inductive Call where
  | startLogging
  | stopLogging
  | startLiveData (hasToken : Bool)
  deriving DecidableEq, Repr

/-- What a task does next; the places from `testIdle` on are behind the lifecycle mutex. -/
inductive Pc where
  | outside
  | takeMutex (call : Call)
  | testIdle
  | loggerStart
  | publishRunning
  | testRunning
  | forceStop
  | loggerStop
  | setMonitoring (enabled : Bool)
  | setRecording (enabled : Bool)
  | sendBurst
  | testLive
  | liveStart
  | giveMutex (result : AppControlResult)
  deriving DecidableEq, Repr

structure System (Task : Type) where
  state : LoggerState
  monitoring : Bool
  recording : Bool
  live : LiveData
  lifecycleMutex : Option Task
  pc : Task → Pc
  /-- the current call has stored the logger state, monitoring or the recording flag -/
  stored : Task → Bool
  returned : List (AppControlResult × Bool)

/-- What happens outside the modelled code during one step. -/
structure Outcome where
  loggerStart : LoggerStart
  nowUs : ℤ
  random : UInt32

inductive Label (Task : Type) where
  | call (t : Task) (call : Call)
  | take (t : Task) (taken : Bool)
  | proceed (t : Task) (o : Outcome)
  | live (op : Operation)
  | writerIdle

variable {Task : Type}

def System.start : System Task :=
  ⟨.idle, false, false, .init, none, fun _ => .outside, fun _ => false, []⟩

variable [DecidableEq Task]

namespace System

def goTo (s : System Task) (t : Task) (pc : Pc) : System Task :=
  { s with pc := Function.update s.pc t pc }

def markStored (s : System Task) (t : Task) : System Task :=
  { s with stored := Function.update s.stored t true }

/-- The call of `t` is over. -/
def finish (s : System Task) (t : Task) (result : AppControlResult) : System Task :=
  { s.goTo t .outside with returned := s.returned ++ [(result, s.stored t)] }

def entry : Call → Pc
  | .startLogging => .testIdle
  | .stopLogging => .testRunning
  | .startLiveData _ => .testLive

/-- The next step of a call that holds the mutex. -/
def proceed (s : System Task) (t : Task) (o : Outcome) : Option (System Task) :=
  match s.pc t with
  | .outside | .takeMutex _ => none
  | .testIdle => some (s.goTo t (if s.state ≠ .idle then .giveMutex .conflict else .loggerStart))
  | .loggerStart =>
    if s.state ≠ .idle then some (s.goTo t (.giveMutex .conflict))
    else
      match o.loggerStart with
      | .ok => some (s.goTo t .publishRunning)
      | .invalidName => some (s.goTo t (.giveMutex .invalidFilename))
      | .exists => some (s.goTo t (.giveMutex .filenameExists))
      | .openFailed => some (s.goTo t (.giveMutex .failed))
  | .publishRunning =>
    some { (s.markStored t).goTo t (.setMonitoring true) with state := .running }
  | .testRunning =>
    some (s.goTo t (if s.state ≠ .running then .giveMutex .conflict else .forceStop))
  | .forceStop => some { s.goTo t .loggerStop with live := liveDataForceStop s.live }
  | .loggerStop =>
    if s.state ≠ .running then some (s.goTo t (.giveMutex .failed))
    else some { (s.markStored t).goTo t (.setRecording false) with state := .stopping }
  | .setMonitoring enabled =>
    some { (s.markStored t).goTo t (if enabled then .setRecording true else .sendBurst) with
      monitoring := enabled }
  | .setRecording enabled =>
    some { (s.markStored t).goTo t (if enabled then .sendBurst else .setMonitoring false) with
      recording := enabled }
  | .sendBurst => some (s.goTo t (.giveMutex .ok))
  | .testLive =>
    some (s.goTo t (if s.state ≠ .running then .giveMutex .conflict else .liveStart))
  | .liveStart =>
    let started := liveDataStart s.live o.nowUs o.random
    some { s.goTo t (.giveMutex (match started.2.1 with
        | .ok => .ok
        | .busy => .busy
        | .disabled | .invalidToken => .failed)) with live := started.1 }
  | .giveMutex result => some { s.finish t result with lifecycleMutex := none }

end System

def step (s : System Task) : Label Task → Option (System Task)
  | .call t call =>
    if s.pc t = .outside then
      let s := { s with stored := Function.update s.stored t false }
      some (if call = .startLiveData false then s.finish t .failed else s.goTo t (.takeMutex call))
    else none
  | .take t taken =>
    match s.pc t with
    | .takeMutex call =>
      if taken then
        if s.lifecycleMutex = none then
          some { s.goTo t (System.entry call) with lifecycleMutex := some t }
        else none
      else some (s.finish t .failed)
    | _ => none
  | .proceed t o => s.proceed t o
  | .live op => some { s with live := op.run s.live }
  | .writerIdle => if s.state = .stopping then some { s with state := .idle } else none

/-- The recording flag, monitoring and the logger state agree. -/
def Agree (s : System Task) : Prop :=
  s.recording = decide (s.state = .running) ∧ s.monitoring = decide (s.state = .running)

/-- Without a call behind the mutex the three agree, viewing is live only while recording, and a
call that did not return OK has stored none of the three. -/
def Lifecycle (s : System Task) : Prop :=
  (s.lifecycleMutex = none → Agree s) ∧ (s.live.enabled = true → s.state = .running) ∧
    ∀ r ∈ s.returned, r.1 ≠ .ok → r.2 = false

end BajaDaq.AppLifecycle
