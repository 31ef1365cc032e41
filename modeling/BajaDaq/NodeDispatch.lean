import BajaDaq.AppProtocol
import BajaDaq.TransitionRuns
import Mathlib.Data.List.Basic

/-!
# The sensor node's command dispatch and its other writers

`dispatch_task` handles a frame in up to three steps: the test of `current_state`, the callback
into the sampler and the report, which stores `current_state`. `recovery_task` and `app_main`
report as well. `on_start` and `on_stop` are the callbacks that `main.c` passes.
-/

namespace BajaDaq.NodeDispatch
open AppProtocol

/-- The payload of a state report. -/
structure StateReport where
  state : NodeState
  reason : NodeStateReason
  resetReason : UInt8
  deriving DecidableEq, Repr

inductive DispatchPc where
  | receive
  | callback (target : NodeState) (reason : NodeStateReason)
  | report (target : NodeState) (reason : NodeStateReason)
  deriving DecidableEq, Repr

/-- The variables of the node; `handled` keeps the frames taken from `rx_queue`. -/
structure Node where
  currentState : NodeState
  /-- `active` of the sampler -/
  sampler : Bool
  dispatch : DispatchPc
  /-- the argument `recovery_task` has read for its report -/
  recovery : Option NodeState
  booted : Bool
  /-- the last argument of `on_time_beacon` -/
  masterTimeUs : Option UInt64
  reports : List StateReport
  handled : List CanMessage
  deriving DecidableEq, Repr

inductive Label where
  | receive (message : CanMessage)
  | callback
  | report
  | recoveryRead
  | recoveryReport
  | bootReport
  deriving DecidableEq, Repr

/-- `can_node_init` has started the tasks and `app_main` has not reported yet. -/
def Node.start : Node := ⟨.idle, false, .receive, none, false, none, [], []⟩

def samplerStart (active : Bool) : Bool := if active then active else true

def samplerStop (active : Bool) : Bool := if !active then active else false

/-- `on_start` and `on_stop`. -/
def runCallback (target : NodeState) (active : Bool) : Bool :=
  match target with
  | .active => samplerStart active
  | .idle => samplerStop active

theorem runCallback_eq (target : NodeState) (active : Bool) :
    runCallback target active = (target == .active) := by
  cases target <;> cases active <;> rfl

/-- `targets_this_node` in a build for `nodeId`. -/
def targetsThisNode (nodeId : UInt8) (message : CanMessage) : Bool :=
  if message.dlc = 0 then true
  else
    let target := message.data.toUInt8
    target == nodeId || target == 0xFF

/-- The state the master announces in a beacon. -/
def masterState (message : CanMessage) : NodeState :=
  if message.data &&& canMasterTimeRecordingFlag ≠ 0 then .active else .idle

/-- `can_node_report_state`; whether the frame is sent does not matter to the node. -/
def reportState (resetReason : UInt8) (s : Node) (state : NodeState) (reason : NodeStateReason) :
    Node :=
  { s with
    currentState := state
    reports := s.reports ++ [⟨state, reason, if reason = .boot then resetReason else 0⟩] }

/-- The part of `dispatch_task` up to the callback. -/
def receive (nodeId : UInt8) (s : Node) (message : CanMessage) : Node :=
  let s := { s with handled := s.handled ++ [message] }
  if message.id = canIdMasterTime ∧ message.dlc = 8 then
    let s := { s with masterTimeUs := some (message.data &&& canMasterTimeValueMask) }
    if masterState message ≠ s.currentState then
      { s with dispatch := .callback (masterState message) .beaconSync }
    else s
  else if message.id = canIdStart ∧ targetsThisNode nodeId message then
    { s with
      dispatch := if s.currentState ≠ .active then .callback .active .start
        else .report .active .start }
  else if message.id = canIdStop ∧ targetsThisNode nodeId message then
    { s with
      dispatch := if s.currentState ≠ .idle then .callback .idle .stop else .report .idle .stop }
  else s

def step (nodeId resetReason : UInt8) (s : Node) : Label → Option Node
  | .receive message =>
    if s.dispatch = .receive then some (receive nodeId s message) else none
  | .callback =>
    match s.dispatch with
    | .callback target reason =>
      some { s with
        sampler := runCallback target s.sampler
        dispatch := .report target reason }
    | _ => none
  | .report =>
    match s.dispatch with
    | .report target reason =>
      some { reportState resetReason s target reason with dispatch := .receive }
    | _ => none
  | .recoveryRead => if s.recovery = none then some { s with recovery := s.currentState } else none
  | .recoveryReport =>
    match s.recovery with
    | some read => some { reportState resetReason s read .recovery with recovery := none }
    | none => none
  | .bootReport =>
    if s.booted then none else some { reportState resetReason s .idle .boot with booted := true }

/-- The frame has no payload, or its first byte is the node or the address of all nodes. -/
def Addressed (nodeId : UInt8) (message : CanMessage) : Prop :=
  message.dlc = 0 ∨ message.data.toUInt8 = nodeId ∨ message.data.toUInt8 = 0xFF

instance (nodeId : UInt8) (message : CanMessage) : Decidable (Addressed nodeId message) :=
  inferInstanceAs (Decidable (_ ∨ _ ∨ _))

theorem targetsThisNode_iff (nodeId : UInt8) (message : CanMessage) :
    targetsThisNode nodeId message = true ↔ Addressed nodeId message := by
  unfold targetsThisNode Addressed
  split_ifs with hdlc
  · exact iff_of_true rfl (.inl hdlc)
  · simp [hdlc]

/-- The state that a frame commands, if it is relevant to the node. -/
def commandOf (nodeId : UInt8) (message : CanMessage) : Option NodeState :=
  if message.id = canIdMasterTime then
    if message.dlc = 8 then some (masterState message) else none
  else if message.id = canIdStart then
    if Addressed nodeId message then some .active else none
  else if message.id = canIdStop then
    if Addressed nodeId message then some .idle else none
  else none

/-- The command of the last relevant frame. -/
def lastCommand (nodeId : UInt8) (frames : List CanMessage) : Option NodeState :=
  (frames.filterMap (commandOf nodeId)).getLast?

theorem lastCommand_append (nodeId : UInt8) (frames : List CanMessage) (message : CanMessage) :
    lastCommand nodeId (frames ++ [message]) =
      (commandOf nodeId message).or (lastCommand nodeId frames) := by
  cases h : commandOf nodeId message with
  | none => simp [lastCommand, h]
  | some c => simp [lastCommand, h]

/-- After a frame that commands `target`, frames that all command it too change nothing. -/
theorem lastCommand_of_agree {nodeId : UInt8} {l r : List CanMessage} {c : CanMessage}
    {target : NodeState} (hc : commandOf nodeId c = some target)
    (hr : ∀ f ∈ r, commandOf nodeId f = some target) :
    lastCommand nodeId (l ++ c :: r) = some target := by
  rcases List.eq_nil_or_concat r with rfl | ⟨r, f, rfl⟩
  · rw [lastCommand_append, hc, Option.some_or]
  · have hf := hr f (by simp)
    rw [List.concat_eq_append, ← List.cons_append, ← List.append_assoc, lastCommand_append, hf,
      Option.some_or]

/-- What handling a frame up to the callback does: an irrelevant frame and a beacon that
agrees with `current_state` end it, a command that disagrees leads to the callback, and a
command that agrees only to its acknowledgement. -/
theorem receive_cases (nodeId : UInt8) (s : Node) (message : CanMessage) :
    (receive nodeId s message).currentState = s.currentState ∧
      (receive nodeId s message).sampler = s.sampler ∧
      (receive nodeId s message).handled = s.handled ++ [message] ∧
      match commandOf nodeId message with
      | none => (receive nodeId s message).dispatch = s.dispatch
      | some target =>
        (target ≠ s.currentState ∧
          ∃ reason, (receive nodeId s message).dispatch = .callback target reason) ∨
        (target = s.currentState ∧ ((receive nodeId s message).dispatch = s.dispatch ∨
          ∃ reason, (receive nodeId s message).dispatch = .report target reason)) := by
  unfold receive commandOf
  simp only [targetsThisNode_iff]
  by_cases htime : message.id = canIdMasterTime
  · have hstart : canIdMasterTime ≠ canIdStart := by decide
    have hstop : canIdMasterTime ≠ canIdStop := by decide
    simp only [htime, hstart, hstop, true_and, false_and, if_true, if_false]
    split_ifs with hdlc hsame
    · exact ⟨rfl, rfl, rfl, .inl ⟨hsame, _, rfl⟩⟩
    · exact ⟨rfl, rfl, rfl, .inr ⟨not_not.mp hsame, .inl rfl⟩⟩
    · exact ⟨rfl, rfl, rfl, rfl⟩
  · simp only [htime, false_and, if_false]
    by_cases hstart : message.id = canIdStart
    · have hstop : canIdStart ≠ canIdStop := by decide
      simp only [hstart, hstop, true_and, false_and, if_true, if_false]
      split_ifs with htarget hsame
      · exact ⟨rfl, rfl, rfl, .inl ⟨Ne.symm hsame, _, rfl⟩⟩
      · exact ⟨rfl, rfl, rfl, .inr ⟨(not_not.mp hsame).symm, .inr ⟨_, rfl⟩⟩⟩
      · exact ⟨rfl, rfl, rfl, rfl⟩
    · simp only [hstart, false_and, if_false]
      by_cases hstop : message.id = canIdStop
      · simp only [hstop, true_and, if_true]
        split_ifs with htarget hsame
        · exact ⟨rfl, rfl, rfl, .inl ⟨Ne.symm hsame, _, rfl⟩⟩
        · exact ⟨rfl, rfl, rfl, .inr ⟨(not_not.mp hsame).symm, .inr ⟨_, rfl⟩⟩⟩
        · exact ⟨rfl, rfl, rfl, rfl⟩
      · simp only [hstop, false_and, if_false, and_self]

end BajaDaq.NodeDispatch
