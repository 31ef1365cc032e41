import BajaDaq.AppProtocol
import BajaDaq.TransitionRuns
import Mathlib.Logic.Function.Basic

/-!
# The node registry between its tasks

`monitor_task`, `node_registry_record_sensor_frame` and `node_registry_set_monitoring`, each store a
step of its own. The tick counter is a natural number whose low 32 bits the code sees. Beside the
variables of the source the state keeps the full ticks behind the stored ones and a history of
what was enabled, recorded and marked.
-/

namespace BajaDaq.NodeRegistry
open AppProtocol

def nodeOfflineTimeoutMs : ℕ := 3000

/-- `configTICK_RATE_HZ`; the kernel's configuration allows at most 1000. -/
structure TickRate where
  hz : ℕ
  hz_le : hz ≤ 1000

/-- `pdMS_TO_TICKS` before its cast. -/
def TickRate.ticksOf (rate : TickRate) (ms : ℕ) : ℕ := ms * rate.hz / 1000

def masterExpectedNodeMask : UInt32 :=
  ((1 : UInt32) <<< 1) ||| ((1 : UInt32) <<< 3) ||| ((1 : UInt32) <<< 4) ||| ((1 : UInt32) <<< 5)

def isConfiguredNode (id : ℕ) : Bool :=
  id < 32 && masterExpectedNodeMask &&& ((1 : UInt32) <<< UInt32.ofNat id) != 0

/-- The fields of `registered_node_t` that concern sensor traffic. -/
structure RegisteredNode where
  dataSeen : Bool
  lastSeen : UInt32
  offline : Bool
  deriving DecidableEq, Repr

/-- The store that a task makes next for a node. -/
inductive Field where
  | dataSeen
  | lastSeen
  | offline
  deriving DecidableEq, Repr

inductive SetterPc where
  | ready
  | readTick (enabled : Bool)
  | store (enabled : Bool) (now : UInt32) (id : ℕ) (field : Field)
  deriving DecidableEq, Repr

inductive RecorderPc where
  | ready
  | store (id : ℕ) (field : Field)
  deriving DecidableEq, Repr

inductive MonitorPc where
  | waiting
  | checking (now : UInt32) (id : ℕ)
  deriving DecidableEq, Repr

inductive Event where
  | enabled (ticks : ℕ)
  | recorded (id ticks : ℕ)
  | marked (id ticks : ℕ)
  deriving DecidableEq, Repr

def Event.ticks : Event → ℕ
  | .enabled ticks | .recorded _ ticks | .marked _ ticks => ticks

/-- The history is kept newest first. -/
structure Registry where
  nodes : ℕ → RegisteredNode
  monitoring : Bool
  setter : SetterPc
  recorder : RecorderPc
  monitor : MonitorPc
  ticks : ℕ
  /-- when the setter and the monitor read the tick counter -/
  readAt : ℕ
  capturedAt : ℕ
  /-- the full tick behind each `last_seen` -/
  seenAt : ℕ → ℕ
  history : List Event

def Registry.start : Registry :=
  ⟨fun _ => ⟨false, 0, false⟩, false, .ready, .ready, .waiting, 0, 0, 0, fun _ => 0, []⟩

inductive Label where
  | advance (ticks : ℕ)
  | setMonitoring (enabled : Bool)
  | setterStep
  | recordSensorFrame (message : CanMessage)
  | recorderStep
  | capture
  | check
  deriving DecidableEq, Repr

namespace Registry

/-- `xTaskGetTickCount`. -/
def tickCount (s : Registry) : UInt32 := UInt32.ofNat s.ticks

def setNode (s : Registry) (id : ℕ) (node : RegisteredNode) : Registry :=
  { s with nodes := Function.update s.nodes id node }

/-- A store to `last_seen` of a tick that was read at `ticks`. -/
def setLastSeen (s : Registry) (id : ℕ) (now : UInt32) (ticks : ℕ) : Registry :=
  { s with
    nodes := Function.update s.nodes id { s.nodes id with lastSeen := now }
    seenAt := Function.update s.seenAt id ticks }

/-- The test of `monitor_task` for one node. -/
def expired (rate : TickRate) (s : Registry) (now : UInt32) (id : ℕ) : Bool :=
  s.monitoring && !(s.nodes id).offline &&
    decide (UInt32.ofNat (rate.ticksOf nodeOfflineTimeoutMs) ≤ now - (s.nodes id).lastSeen)

/-- The loop of `node_registry_set_monitoring` from node `id` on. -/
def setterAt (enabled : Bool) (now : UInt32) (id : ℕ) : SetterPc :=
  if id < canNodeSlotCount then .store enabled now id .dataSeen else .ready

def setterStep (s : Registry) : Option Registry :=
  match s.setter with
  | .ready => none
  | .readTick enabled =>
    some { s with readAt := s.ticks, setter := setterAt enabled s.tickCount 1 }
  | .store enabled now id field =>
    if !isConfiguredNode id then some { s with setter := setterAt enabled now (id + 1) }
    else
      match field with
      | .dataSeen => some { s.setNode id { s.nodes id with dataSeen := false } with
          setter := .store enabled now id .lastSeen }
      | .lastSeen => some { s.setLastSeen id now s.readAt with
          setter := .store enabled now id .offline }
      | .offline => some { s.setNode id { s.nodes id with offline := false } with
          setter := setterAt enabled now (id + 1) }

def recorderStep (s : Registry) : Option Registry :=
  match s.recorder with
  | .ready => none
  | .store id .dataSeen => some { s.setNode id { s.nodes id with dataSeen := true } with
      recorder := .store id .lastSeen }
  | .store id .lastSeen => some { s.setLastSeen id s.tickCount s.ticks with
      recorder := .store id .offline
      history := .recorded id s.ticks :: s.history }
  | .store id .offline => some { s.setNode id { s.nodes id with offline := false } with
      recorder := .ready }

/-- One round of the loop of `monitor_task`. -/
def check (rate : TickRate) (s : Registry) (now : UInt32) (id : ℕ) : Registry :=
  let s := if isConfiguredNode id && s.expired rate now id then
    { s.setNode id { s.nodes id with offline := true } with
      history := .marked id s.ticks :: s.history }
    else s
  { s with monitor := if id + 1 < canNodeSlotCount then .checking now (id + 1) else .waiting }

end Registry

def step (rate : TickRate) (s : Registry) : Label → Option Registry
  | .advance ticks => some { s with ticks := s.ticks + ticks }
  | .setMonitoring enabled =>
    if s.setter = .ready then
      some { s with
        monitoring := enabled
        setter := .readTick enabled
        history := if enabled then .enabled s.ticks :: s.history else s.history }
    else none
  | .setterStep => s.setterStep
  | .recordSensorFrame message =>
    if s.recorder = .ready then
      let id := (protocolSensorNodeId message.id).toNat
      some { s with
        recorder := if s.monitoring ∧ ¬ (id = 0 ∨ canNodeSlotCount ≤ id) then .store id .dataSeen
          else .ready }
    else none
  | .recorderStep => s.recorderStep
  | .capture =>
    if s.monitor = .waiting then
      some { s with capturedAt := s.ticks, monitor := .checking s.tickCount 1 }
    else none
  | .check =>
    match s.monitor with
    | .waiting => none
    | .checking now id => some (s.check rate now id)

theorem isConfiguredNode_lt {id : ℕ} (h : isConfiguredNode id = true) : id < canNodeSlotCount := by
  have hall : ∀ id < 32, isConfiguredNode id = true → id < canNodeSlotCount := by decide
  have hlt : id < 32 := by
    simp only [isConfiguredNode, Bool.and_eq_true, decide_eq_true_eq] at h
    exact h.1
  exact hall id hlt h

/-- The code's comparison of two ticks of which the second is not the later one. -/
theorem le_of_le_sub {rate : TickRate} {c l : ℕ} (hle : l ≤ c)
    (h : UInt32.ofNat (rate.ticksOf nodeOfflineTimeoutMs) ≤ UInt32.ofNat c - UInt32.ofNat l) :
    l + rate.ticksOf nodeOfflineTimeoutMs ≤ c := by
  have hrate := rate.hz_le
  have hsmall : rate.ticksOf nodeOfflineTimeoutMs < 2 ^ 32 := by
    simp only [TickRate.ticksOf, nodeOfflineTimeoutMs]
    omega
  rw [← UInt32.ofNat_sub hle, UInt32.le_iff_toNat_le] at h
  simp only [UInt32.toNat_ofNat'] at h
  have hmod := Nat.mod_le (c - l) (2 ^ 32)
  rw [Nat.mod_eq_of_lt hsmall] at h
  omega

end BajaDaq.NodeRegistry
