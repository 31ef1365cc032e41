import BajaDaq.NodeDispatch
import Mathlib.Data.List.Induction
import Mathlib.Data.Nat.Bitwise

/-!
# Convergence over a lossy bus

With the dispatch as the only writer of `current_state`, one frame is handled to its end before
the next is taken. What a frame does is then a function of the node, with the calls it makes
outside the dispatch as a list of effects.
-/

namespace BajaDaq.NodeConvergence
open AppProtocol NodeDispatch TransitionRuns

inductive Effect where
  | onTimeBeacon (masterTimeUs : UInt64)
  | onStart
  | onStop
  | report (state : NodeState) (reason : NodeStateReason)
  deriving DecidableEq, Repr

def callbackEffect : NodeState → Effect
  | .active => .onStart
  | .idle => .onStop

def Effect.isReport : Effect → Bool
  | .report _ _ => true
  | _ => false

/-- The argument of `time_sync_update`. -/
def Effect.clock : Effect → Option UInt64
  | .onTimeBeacon masterTimeUs => some masterTimeUs
  | _ => none

/-- A time beacon of the right length. -/
def isBeacon (message : CanMessage) : Prop := message.id = canIdMasterTime ∧ message.dlc = 8

/-- A START or STOP for this node. -/
def isCommand (nodeId : UInt8) (message : CanMessage) : Prop :=
  (message.id = canIdStart ∨ message.id = canIdStop) ∧ Addressed nodeId message

instance (message : CanMessage) : Decidable (isBeacon message) :=
  inferInstanceAs (Decidable (_ ∧ _))

instance (nodeId : UInt8) (message : CanMessage) : Decidable (isCommand nodeId message) :=
  inferInstanceAs (Decidable ((_ ∨ _) ∧ _))

/-- One iteration of `dispatch_task`: the handling up to the callback, then whatever of the
callback and the report it leads to. -/
def dispatchFrame (nodeId resetReason : UInt8) (s : Node) (message : CanMessage) :
    Node × List Effect :=
  let clock :=
    if isBeacon message then [.onTimeBeacon (message.data &&& canMasterTimeValueMask)] else []
  let s := receive nodeId s message
  match s.dispatch with
  | .receive => (s, clock)
  | .callback target reason =>
    let s := { s with sampler := runCallback target s.sampler }
    ({ reportState resetReason s target reason with dispatch := .receive },
      clock ++ [callbackEffect target, .report target reason])
  | .report target reason =>
    ({ reportState resetReason s target reason with dispatch := .receive },
      clock ++ [.report target reason])

/-- The node after a sequence of frames. -/
def afterFrames (nodeId resetReason : UInt8) (frames : List CanMessage) : Node :=
  frames.foldl (fun s message => (dispatchFrame nodeId resetReason s message).1) .start

variable {nodeId resetReason : UInt8} {s : Node} {message : CanMessage}

theorem afterFrames_append_singleton (frames : List CanMessage) (message : CanMessage) :
    afterFrames nodeId resetReason (frames ++ [message]) =
      (dispatchFrame nodeId resetReason (afterFrames nodeId resetReason frames) message).1 := by
  simp [afterFrames]

/-- The steps of the dispatch. -/
def DispatchStep (_ : Node) : Label → Prop
  | .receive _ | .callback | .report => True
  | .recoveryRead | .recoveryReport | .bootReport => False

/-- Handling a frame is a run of the dispatch alone. -/
theorem dispatchFrame_run (hready : s.dispatch = .receive) (message : CanMessage) :
    ∃ labels, Run (step nodeId resetReason) DispatchStep s (.receive message :: labels)
      (dispatchFrame nodeId resetReason s message).1 := by
  have hreceive : Run (step nodeId resetReason) DispatchStep s [.receive message]
      (receive nodeId s message) := .single trivial (if_pos hready)
  have hreport : ∀ {u : Node} {target reason}, u.dispatch = .report target reason →
      Run (step nodeId resetReason) DispatchStep u [.report]
        { reportState resetReason u target reason with dispatch := .receive } := by
    intro u target reason hu
    exact .single trivial (by simp [step, hu])
  cases hd : (receive nodeId s message).dispatch with
  | receive =>
    refine ⟨[], ?_⟩
    simp only [dispatchFrame, hd]
    exact hreceive
  | callback target reason =>
    have hcallback : Run (step nodeId resetReason) DispatchStep (receive nodeId s message)
        [.callback] { receive nodeId s message with
          sampler := runCallback target (receive nodeId s message).sampler
          dispatch := .report target reason } := .single trivial (by simp [step, hd])
    refine ⟨[.callback, .report], ?_⟩
    simp only [dispatchFrame, hd]
    exact hreceive.trans (hcallback.trans (hreport rfl))
  | report target reason =>
    refine ⟨[.report], ?_⟩
    simp only [dispatchFrame, hd]
    exact hreceive.trans (hreport hd)

theorem not_isBeacon_of_isCommand (h : isCommand nodeId message) : ¬ isBeacon message := by
  rintro ⟨hid, -⟩
  simp [isCommand, hid, canIdMasterTime, canIdStart, canIdStop] at h

theorem receive_of_isBeacon (nodeId : UInt8) (s : Node) (h : isBeacon message) :
    commandOf nodeId message = some (masterState message) ∧
      receive nodeId s message = { s with
        handled := s.handled ++ [message]
        masterTimeUs := some (message.data &&& canMasterTimeValueMask)
        dispatch := if masterState message ≠ s.currentState then
          .callback (masterState message) .beaconSync else s.dispatch } := by
  refine ⟨by simp [commandOf, h.1, h.2], ?_⟩
  simp only [receive, if_pos (show message.id = canIdMasterTime ∧ message.dlc = 8 from h)]
  split_ifs <;> rfl

theorem receive_of_isCommand (s : Node) (h : isCommand nodeId message) :
    ∃ target reason, commandOf nodeId message = some target ∧
      receive nodeId s message = { s with
        handled := s.handled ++ [message]
        dispatch := if target ≠ s.currentState then .callback target reason
          else .report target reason } := by
  have hbeacon : ¬ (message.id = canIdMasterTime ∧ message.dlc = 8) :=
    not_isBeacon_of_isCommand h
  have htargets := (targetsThisNode_iff nodeId message).mpr h.2
  obtain ⟨hstart | hstop, hmine⟩ := h
  · have hid : message.id ≠ canIdMasterTime := by
      rw [hstart]
      decide
    refine ⟨.active, .start, ?_, ?_⟩
    · rw [commandOf, if_neg hid, if_pos hstart, if_pos hmine]
    · simp only [receive, if_neg hbeacon, if_pos (And.intro hstart htargets), ne_comm]
  · have hid : message.id ≠ canIdMasterTime := by
      rw [hstop]
      decide
    have hstart : message.id ≠ canIdStart := by
      rw [hstop]
      decide
    refine ⟨.idle, .stop, ?_, ?_⟩
    · rw [commandOf, if_neg hid, if_neg hstart, if_pos hstop, if_pos hmine]
    · have hstart' : ¬ (message.id = canIdStart ∧ targetsThisNode nodeId message) :=
        fun h => hstart h.1
      simp only [receive, if_neg hbeacon, if_neg hstart', if_pos (And.intro hstop htargets),
        ne_comm]

theorem receive_of_foreign (s : Node) (hbeacon : ¬ isBeacon message)
    (hcommand : ¬ isCommand nodeId message) :
    commandOf nodeId message = none ∧
      receive nodeId s message = { s with handled := s.handled ++ [message] } := by
  have hstart : ¬ (message.id = canIdStart ∧ targetsThisNode nodeId message) :=
    fun h => hcommand ⟨.inl h.1, (targetsThisNode_iff nodeId message).mp h.2⟩
  have hstop : ¬ (message.id = canIdStop ∧ targetsThisNode nodeId message) :=
    fun h => hcommand ⟨.inr h.1, (targetsThisNode_iff nodeId message).mp h.2⟩
  constructor
  · unfold commandOf
    split_ifs with hid hdlc hid hmine hid hmine
    · exact absurd ⟨hid, hdlc⟩ hbeacon
    · rfl
    · exact absurd (.intro (.inl hid) hmine) hcommand
    · rfl
    · exact absurd (.intro (.inr hid) hmine) hcommand
    · rfl
    · rfl
  · rw [isBeacon] at hbeacon
    simp only [receive, if_neg hbeacon, if_neg hstart, if_neg hstop]

/-- What handling a frame that commands `target` does: the callback if this is news, and the
report if it is news or comes from a START or STOP. -/
structure Carried (nodeId : UInt8) (s : Node) (message : CanMessage) (target : NodeState)
    (r : Node × List Effect) : Prop where
  currentState : r.1.currentState = target
  sampler : r.1.sampler =
    if target ≠ s.currentState then runCallback target s.sampler else s.sampler
  ready : r.1.dispatch = .receive
  handled : r.1.handled = s.handled ++ [message]
  effects : ∃ reason, r.2 =
    (if isBeacon message then [.onTimeBeacon (message.data &&& canMasterTimeValueMask)] else []) ++
      ((if target ≠ s.currentState then [callbackEffect target] else []) ++
        (if isCommand nodeId message ∨ target ≠ s.currentState then [.report target reason]
        else []))

/-- A command that the dispatch carries out with its callback. -/
theorem carried_of_callback {target : NodeState} (reason : NodeStateReason)
    (hnews : target ≠ s.currentState)
    (hsampler : (receive nodeId s message).sampler = s.sampler)
    (hhandled : (receive nodeId s message).handled = s.handled ++ [message])
    (hd : (receive nodeId s message).dispatch = .callback target reason) :
    Carried nodeId s message target (dispatchFrame nodeId resetReason s message) := by
  refine ⟨?_, ?_, ?_, ?_, reason, ?_⟩
  · simp [dispatchFrame, hd, reportState]
  · simp [dispatchFrame, hd, reportState, hnews, hsampler]
  · simp [dispatchFrame, hd]
  · simp [dispatchFrame, hd, reportState, hhandled]
  · simp [dispatchFrame, hd, hnews]

/-- A command that agrees with `current_state`. -/
theorem carried_of_same {target : NodeState} (reason : NodeStateReason)
    (hsame : target = s.currentState)
    (hstate : (receive nodeId s message).currentState = s.currentState)
    (hsampler : (receive nodeId s message).sampler = s.sampler)
    (hhandled : (receive nodeId s message).handled = s.handled ++ [message])
    (hd : (receive nodeId s message).dispatch =
      if isCommand nodeId message then .report target reason else .receive) :
    Carried nodeId s message target (dispatchFrame nodeId resetReason s message) := by
  by_cases hcommand : isCommand nodeId message
  · rw [if_pos hcommand] at hd
    refine ⟨?_, ?_, ?_, ?_, reason, ?_⟩
    · simp [dispatchFrame, hd, reportState]
    · simp [dispatchFrame, hd, reportState, hsame, hsampler]
    · simp [dispatchFrame, hd]
    · simp [dispatchFrame, hd, reportState, hhandled]
    · simp [dispatchFrame, hd, hsame, hcommand]
  · rw [if_neg hcommand] at hd
    refine ⟨?_, ?_, ?_, ?_, reason, ?_⟩
    · simp [dispatchFrame, hd, hsame, hstate]
    · simp [dispatchFrame, hd, hsame, hsampler]
    · simp [dispatchFrame, hd]
    · simp [dispatchFrame, hd, hhandled]
    · simp [dispatchFrame, hd, hsame, hcommand]

/-- Every frame is carried out, or it commands nothing and is ignored. -/
theorem dispatchFrame_cases (nodeId resetReason : UInt8) (message : CanMessage)
    (hready : s.dispatch = .receive) :
    (∃ target, commandOf nodeId message = some target ∧
        (isBeacon message ∨ isCommand nodeId message) ∧
        Carried nodeId s message target (dispatchFrame nodeId resetReason s message)) ∨
      (commandOf nodeId message = none ∧ ¬ isBeacon message ∧ ¬ isCommand nodeId message ∧
        dispatchFrame nodeId resetReason s message =
          ({ s with handled := s.handled ++ [message] }, [])) := by
  by_cases hbeacon : isBeacon message
  · obtain ⟨hcommandOf, hreceive⟩ := receive_of_isBeacon nodeId s hbeacon
    have hcommand : ¬ isCommand nodeId message := fun hc => not_isBeacon_of_isCommand hc hbeacon
    refine .inl ⟨_, hcommandOf, .inl hbeacon, ?_⟩
    by_cases hsame : masterState message = s.currentState
    · refine carried_of_same .beaconSync hsame ?_ ?_ ?_ ?_
      all_goals simp [hreceive, hsame, hready, hcommand]
    · refine carried_of_callback .beaconSync hsame ?_ ?_ ?_
      all_goals simp [hreceive, hsame]
  by_cases hcommand : isCommand nodeId message
  · obtain ⟨target, reason, hcommandOf, hreceive⟩ := receive_of_isCommand s hcommand
    refine .inl ⟨_, hcommandOf, .inr hcommand, ?_⟩
    by_cases hsame : target = s.currentState
    · refine carried_of_same reason hsame ?_ ?_ ?_ ?_
      all_goals simp [hreceive, hsame, hcommand]
    · refine carried_of_callback reason hsame ?_ ?_ ?_
      all_goals simp [hreceive, hsame]
  · obtain ⟨hcommandOf, hreceive⟩ := receive_of_foreign s hbeacon hcommand
    refine .inr ⟨hcommandOf, hbeacon, hcommand, ?_⟩
    simp [dispatchFrame, hreceive, hready, hbeacon]

/-- Between frames: the sampler and `current_state` are where the last command wanted them. -/
structure Settled (nodeId : UInt8) (s : Node) : Prop where
  ready : s.dispatch = .receive
  state : s.currentState = (lastCommand nodeId s.handled).getD .idle
  sampler : s.sampler = (s.currentState == .active)

theorem settled_start : Settled nodeId .start := ⟨rfl, rfl, rfl⟩

theorem Settled.frame (h : Settled nodeId s) (message : CanMessage) :
    Settled nodeId (dispatchFrame nodeId resetReason s message).1 := by
  rcases dispatchFrame_cases nodeId resetReason message h.ready with
    ⟨target, hcommand, -, hc⟩ | ⟨hcommand, -, -, hframe⟩
  · refine ⟨hc.ready, ?_, ?_⟩
    · rw [hc.handled, lastCommand_append, hcommand, hc.currentState]
      rfl
    · rw [hc.sampler, hc.currentState]
      split_ifs with hsame
      · exact runCallback_eq target s.sampler
      · rw [h.sampler, not_not.mp hsame]
  · rw [hframe]
    refine ⟨h.ready, ?_, h.sampler⟩
    rw [lastCommand_append, hcommand, Option.none_or]
    exact h.state

theorem settled_afterFrames (nodeId resetReason : UInt8) (frames : List CanMessage) :
    Settled nodeId (afterFrames nodeId resetReason frames) ∧
      (afterFrames nodeId resetReason frames).handled = frames := by
  induction frames using List.reverseRecOn with
  | nil => exact ⟨settled_start, rfl⟩
  | append_singleton frames message ih =>
    rw [afterFrames_append_singleton]
    refine ⟨ih.1.frame message, ?_⟩
    rcases dispatchFrame_cases nodeId resetReason message ih.1.ready with
      ⟨target, -, -, hc⟩ | ⟨-, -, -, hframe⟩
    · rw [hc.handled, ih.2]
    · rw [hframe, ih.2]

theorem toNat_and_timeValueMask (data : UInt64) :
    (data &&& canMasterTimeValueMask).toNat = data.toNat % 2 ^ 63 := by
  have hmask : canMasterTimeValueMask.toNat = 2 ^ 63 - 1 := by decide
  rw [UInt64.toNat_and, hmask, Nat.and_two_pow_sub_one_eq_mod]

theorem masterState_eq_active_iff (message : CanMessage) :
    masterState message = .active ↔ message.data.toNat.testBit 63 = true := by
  have hflag : canMasterTimeRecordingFlag.toNat = 2 ^ 63 := by decide
  have hzero : message.data &&& canMasterTimeRecordingFlag = 0 ↔
      message.data.toNat.testBit 63 = false := by
    rw [← UInt64.toNat_inj, UInt64.toNat_and, hflag, Nat.and_two_pow]
    cases message.data.toNat.testBit 63 <;> decide
  simp only [masterState, ne_eq, hzero, Bool.not_eq_false]
  split_ifs with hbit <;> simp [hbit]

/-- The part of convergence that one frame shows, from the node before it to what the dispatch
makes of it. -/
structure Converges (nodeId : UInt8) (s : Node) (message : CanMessage) (r : Node × List Effect) :
    Prop where
  sampler : r.1.sampler = true ↔ r.1.currentState = .active
  beacon : isBeacon message → (r.1.currentState = .active ↔ message.data.toNat.testBit 63 = true)
  starts : r.2.count .onStart =
    if s.currentState = .idle ∧ r.1.currentState = .active then 1 else 0
  stops : r.2.count .onStop =
    if s.currentState = .active ∧ r.1.currentState = .idle then 1 else 0
  reports : r.2.countP Effect.isReport =
    if isCommand nodeId message ∨ isBeacon message ∧ r.1.currentState ≠ s.currentState then 1 else 0
  reported : ∀ state reason, .report state reason ∈ r.2 → state = r.1.currentState
  clock : (r.2.filterMap Effect.clock).map UInt64.toNat =
    if isBeacon message then [message.data.toNat % 2 ^ 63] else []
  foreign : commandOf nodeId message = none →
    r = ({ s with handled := s.handled ++ [message] }, [])

theorem count_middle {x : Effect} {a b c : List Effect} (ha : x ∉ a) (hc : x ∉ c) :
    (a ++ (b ++ c)).count x = b.count x := by
  rw [List.count_append, List.count_append, List.count_eq_zero.mpr ha,
    List.count_eq_zero.mpr hc, Nat.zero_add, Nat.add_zero]

theorem Carried.converges {target : NodeState} {r : Node × List Effect}
    (hr : Settled nodeId r.1) (hcommand : commandOf nodeId message = some target)
    (hkind : isBeacon message ∨ isCommand nodeId message)
    (h : Carried nodeId s message target r) : Converges nodeId s message r := by
  obtain ⟨reason, heffects⟩ := h.effects
  have hbeacon : isBeacon message → masterState message = target := by
    intro hb
    simpa [(receive_of_isBeacon nodeId s hb).1] using hcommand
  refine ⟨by simp [hr.sampler], ?_, ?_, ?_, ?_, ?_, ?_, ?_⟩
  · intro hb
    rw [h.currentState, ← hbeacon hb]
    exact masterState_eq_active_iff message
  · rw [heffects, h.currentState, count_middle (by split_ifs <;> simp) (by split_ifs <;> simp)]
    cases target <;> cases s.currentState <;> rfl
  · rw [heffects, h.currentState, count_middle (by split_ifs <;> simp) (by split_ifs <;> simp)]
    cases target <;> cases s.currentState <;> rfl
  · have hdue : isCommand nodeId message ∨ isBeacon message ∧ target ≠ s.currentState ↔
        isCommand nodeId message ∨ target ≠ s.currentState := by
      constructor
      · exact Or.imp_right And.right
      · rintro (hc | hnews)
        · exact .inl hc
        · exact hkind.symm.imp_right fun hb => ⟨hb, hnews⟩
    rw [heffects, h.currentState, List.countP_append, List.countP_append, if_congr hdue rfl rfl]
    cases target <;> split_ifs <;> rfl
  · intro state why hmem
    rw [h.currentState]
    rw [heffects] at hmem
    cases target <;> split_ifs at hmem <;> simp_all [callbackEffect]
  · have hclock : r.2.filterMap Effect.clock =
        if isBeacon message then [message.data &&& canMasterTimeValueMask] else [] := by
      rw [heffects, List.filterMap_append, List.filterMap_append]
      cases target <;> split_ifs <;> rfl
    rw [hclock, ← toNat_and_timeValueMask]
    split_ifs <;> rfl
  · intro hnone
    rw [hcommand] at hnone
    cases hnone

theorem converges_frame (hs : Settled nodeId s) (message : CanMessage) :
    Converges nodeId s message (dispatchFrame nodeId resetReason s message) := by
  have hr : Settled nodeId (dispatchFrame nodeId resetReason s message).1 := hs.frame message
  rcases dispatchFrame_cases nodeId resetReason message hs.ready with
    ⟨target, hcommand, hkind, hc⟩ | ⟨-, hbeacon, hcommand, hframe⟩
  · exact hc.converges hr hcommand hkind
  · rw [hframe]
    refine ⟨by simp [hs.sampler], fun hb => absurd hb hbeacon, ?_, ?_, ?_, by simp, ?_,
      fun _ => rfl⟩
    · cases s.currentState <;> rfl
    · cases s.currentState <;> rfl
    · simp [hbeacon, hcommand]
    · simp [hbeacon]

/-- The last command again is no news. -/
theorem Settled.repeat_frame (hs : Settled nodeId s) (message : CanMessage) :
    let t := (dispatchFrame nodeId resetReason s message).1
    let u := dispatchFrame nodeId resetReason t message
    u.1.currentState = t.currentState ∧ u.1.sampler = t.sampler ∧
      .onStart ∉ u.2 ∧ .onStop ∉ u.2 := by
  intro t u
  have ht : Settled nodeId t := hs.frame message
  have hu : Settled nodeId u.1 := ht.frame message
  have hsame : u.1.currentState = t.currentState := by
    rcases dispatchFrame_cases nodeId resetReason message ht.ready with
      ⟨target, hcommand, -, hc⟩ | ⟨-, -, -, hframe⟩
    · rcases dispatchFrame_cases nodeId resetReason message hs.ready with
        ⟨before, hbefore, -, hc'⟩ | ⟨hnone, -⟩
      · obtain rfl : before = target := by simpa [hbefore] using hcommand
        exact hc.currentState.trans hc'.currentState.symm
      · rw [hnone] at hcommand
        cases hcommand
    · exact congrArg (fun r => r.1.currentState) hframe
  have hconverges : Converges nodeId t message u := converges_frame ht message
  refine ⟨hsame, by rw [hu.sampler, ht.sampler, hsame], ?_, ?_⟩
  · rw [← List.count_eq_zero, hconverges.starts, hsame]
    cases t.currentState <;> rfl
  · rw [← List.count_eq_zero, hconverges.stops, hsame]
    cases t.currentState <;> rfl

/-- After any frames from the start, the next one leaves `current_state` and the sampler where
the last command wants them, with the callbacks, the acknowledgement and the clock update that
this takes; and a copy of it right behind changes neither. -/
theorem dispatch_converges (nodeId resetReason : UInt8) (frames : List CanMessage)
    (message : CanMessage) :
    let s := afterFrames nodeId resetReason frames
    let r := dispatchFrame nodeId resetReason s message
    let again := dispatchFrame nodeId resetReason r.1 message
    Converges nodeId s message r ∧
      r.1.currentState = (lastCommand nodeId (frames ++ [message])).getD .idle ∧
      again.1.currentState = r.1.currentState ∧ again.1.sampler = r.1.sampler ∧
      .onStart ∉ again.2 ∧ .onStop ∉ again.2 := by
  intro s r again
  obtain ⟨hs, -⟩ := settled_afterFrames nodeId resetReason frames
  obtain ⟨hr, hhandled⟩ := settled_afterFrames nodeId resetReason (frames ++ [message])
  rw [afterFrames_append_singleton] at hr hhandled
  refine ⟨converges_frame hs message, ?_, hs.repeat_frame message⟩
  rw [← hhandled]
  exact hr.state

end BajaDaq.NodeConvergence
