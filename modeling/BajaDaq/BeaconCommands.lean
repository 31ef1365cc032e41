import BajaDaq.CommandObedience

/-!
# Beacons and commands on the bus

`beacon_task` builds its payload before it waits for the transmit mutex, while `app_control` sets
the flag and then sends a burst of commands. The bus keeps the order of transmission and may
lose frames; the node is the one of the dispatch task. The state adds the number of the
session, which tags the frames, and the frames delivered so far.
-/

namespace BajaDaq.BeaconCommands
open AppProtocol CommandObedience NodeDispatch TransitionRuns

def canCommandRepeatCount : ℕ := 5

structure Frame where
  message : CanMessage
  session : ℕ
  deriving DecidableEq, Repr

structure System where
  recording : Bool
  session : ℕ
  /-- copies of the current command that `send_command_burst` has still to send -/
  remaining : ℕ
  /-- the beacon that is built and not yet sent -/
  built : Option CanMessage
  bus : List Frame
  node : Node
  delivered : List Frame
  deriving DecidableEq, Repr

def System.start : System := ⟨false, 0, 0, none, [], .start, []⟩

/-- A frame is handed to the driver only if `sent`. -/
inductive Label where
  | startLogging
  | stopLogging
  | sendCommand (sent : Bool)
  | buildBeacon (timeUs : UInt64)
  | sendBeacon (sent : Bool)
  | lose (i : ℕ)
  | deliver
  | callback
  | report
  deriving DecidableEq, Repr

/-- The payload that `beacon_task` builds. -/
def beacon (timeUs : UInt64) (recording : Bool) : CanMessage :=
  let timeUs := timeUs &&& canMasterTimeValueMask
  ⟨canIdMasterTime, 8, if recording then timeUs ||| canMasterTimeRecordingFlag else timeUs⟩

/-- The identifier that `can_master_start_nodes` or `can_master_stop_nodes` sends. -/
def commandId (recording : Bool) : UInt32 := if recording then canIdStart else canIdStop

def System.transmit (s : System) (message : CanMessage) : System :=
  { s with bus := s.bus ++ [⟨message, s.session⟩] }

/-- A step of the node's dispatch. -/
def System.dispatch (s : System) (nodeId : UInt8) (a : NodeDispatch.Label) : Option System :=
  (NodeDispatch.step nodeId 0 s.node a).map (fun node => { s with node := node })

/-- The lifecycle mutex keeps a burst together; a session starts only after the last one was
stopped. -/
def step (nodeId : UInt8) (s : System) : Label → Option System
  | .startLogging =>
    if s.remaining = 0 ∧ s.recording = false then
      some { s with
        recording := true, session := s.session + 1, remaining := canCommandRepeatCount }
    else none
  | .stopLogging =>
    if s.remaining = 0 ∧ s.recording = true then
      some { s with recording := false, remaining := canCommandRepeatCount }
    else none
  | .sendCommand sent =>
    if s.remaining = 0 then none
    else
      let t := if sent then s.transmit ⟨commandId s.recording, 0, 0⟩ else s
      some { t with remaining := s.remaining - 1 }
  | .buildBeacon timeUs =>
    if s.built = none then some { s with built := beacon timeUs s.recording } else none
  | .sendBeacon sent =>
    match s.built with
    | none => none
    | some message =>
      let t := if sent then s.transmit message else s
      some { t with built := none }
  | .lose i => some { s with bus := s.bus.eraseIdx i }
  | .deliver =>
    match s.bus with
    | [] => none
    | f :: bus =>
      { s with bus := bus, delivered := s.delivered ++ [f] }.dispatch nodeId (.receive f.message)
  | .callback => s.dispatch nodeId .callback
  | .report => s.dispatch nodeId .report

/-- A frame of the current START burst while recording, of the last STOP burst otherwise. -/
def CurrentCommand (s : System) (f : Frame) : Prop :=
  f.session = s.session ∧ f.message.id = commandId s.recording

instance (s : System) (f : Frame) : Decidable (CurrentCommand s f) :=
  inferInstanceAs (Decidable (_ ∧ _))

/-- The node is about to execute `on_stop` after a START of the session that is still recording,
or `on_start` after a STOP of the session that has ended. -/
def Contradicted (s : System) : Prop :=
  (s.recording = true ∧ (∃ f ∈ s.delivered, f.session = s.session ∧ f.message.id = canIdStart) ∧
    ∃ reason, s.node.dispatch = .callback .idle reason) ∨
  (s.recording = false ∧ (∃ f ∈ s.delivered, f.session = s.session ∧ f.message.id = canIdStop) ∧
    ∃ reason, s.node.dispatch = .callback .active reason)

/-- The state that the flag stands for. -/
def flagState (recording : Bool) : NodeState := if recording then .active else .idle

/-- A beacon that disagrees with the flag is not transmitted behind a current command. -/
def BeaconsCurrent (s : System) : Label → Prop
  | .sendBeacon sent => sent = true → ∀ message ∈ s.built,
      masterState message = flagState s.recording ∨
        ∀ f ∈ s.delivered ++ s.bus, ¬ CurrentCommand s f
  | _ => True

instance (s : System) (a : Label) : Decidable (BeaconsCurrent s a) :=
  match a with
  | .sendBeacon sent => inferInstanceAs (Decidable (sent = true → ∀ message ∈ s.built, _ ∨ _))
  | .startLogging | .stopLogging | .sendCommand _ | .buildBeacon _ | .lose _ | .deliver
  | .callback | .report => isTrue trivial

variable {nodeId : UInt8} {s t : System}

theorem commandOf_command (nodeId : UInt8) (recording : Bool) (message : CanMessage)
    (hid : message.id = commandId recording) (hdlc : message.dlc = 0) :
    commandOf nodeId message = some (flagState recording) := by
  cases recording <;> simp [commandOf, Addressed, hid, hdlc, commandId, flagState,
    canIdStart, canIdStop, canIdMasterTime]

theorem commandOf_beacon (nodeId : UInt8) (message : CanMessage)
    (hid : message.id = canIdMasterTime) (hdlc : message.dlc = 8) :
    commandOf nodeId message = some (masterState message) := by
  simp [commandOf, hid, hdlc]

/-- The frames that were delivered or are on the bus: commands have no payload, no STOP of a
recording session exists yet, and behind a current command all frames agree with it. -/
structure FramesAgree (nodeId : UInt8) (s : System) : Prop where
  form : ∀ f ∈ s.delivered ++ s.bus,
    f.message.id = canIdMasterTime ∧ f.message.dlc = 8 ∨ f.message.dlc = 0
  numbered : ∀ f ∈ s.delivered ++ s.bus, f.session ≤ s.session
  unstopped : s.recording = true → ∀ f ∈ s.delivered ++ s.bus,
    f.session = s.session → f.message.id ≠ canIdStop
  agree : (s.delivered ++ s.bus).Pairwise (fun c f => CurrentCommand s c →
    commandOf nodeId f.message = some (flagState s.recording))

structure SystemInvariant (nodeId : UInt8) (s : System) : Prop where
  frames : FramesAgree nodeId s
  built : ∀ message ∈ s.built, message.id = canIdMasterTime ∧ message.dlc = 8
  handled : s.node.handled = s.delivered.map Frame.message
  dispatch : DispatchInvariant nodeId s.node

theorem commandOf_current (hI : FramesAgree nodeId s) {f : Frame} (hf : f ∈ s.delivered ++ s.bus)
    (hc : CurrentCommand s f) : commandOf nodeId f.message = some (flagState s.recording) := by
  rcases hI.form f hf with ⟨hid, -⟩ | hdlc
  · have hcommand := hc.2
    rw [hid] at hcommand
    cases hr : s.recording <;>
      simp [hr, commandId, canIdMasterTime, canIdStart, canIdStop] at hcommand
  · exact commandOf_command _ _ _ hc.2 hdlc

/-- Once a current command is delivered, the last command is the one the flag stands for. -/
theorem commanded_of_delivered (hI : SystemInvariant nodeId s) {f : Frame}
    (hf : f ∈ s.delivered) (hc : CurrentCommand s f) :
    commanded nodeId s.node = flagState s.recording := by
  have hcommand := commandOf_current hI.frames (List.mem_append_left _ hf) hc
  obtain ⟨l, r, hsplit⟩ := List.append_of_mem hf
  have hagree := (List.pairwise_append.mp hI.frames.agree).1
  rw [hsplit] at hagree
  have hrest := (List.pairwise_cons.mp (List.pairwise_append.mp hagree).2.1).1
  have hlast : lastCommand nodeId s.node.handled = some (flagState s.recording) := by
    rw [hI.handled, hsplit, List.map_append, List.map_cons]
    refine lastCommand_of_agree hcommand ?_
    intro m hm
    obtain ⟨g, hg, rfl⟩ := List.mem_map.mp hm
    exact hrest g hg hc
  rw [commanded, hlast, Option.getD_some]

theorem not_contradicted (hI : SystemInvariant nodeId s) : ¬ Contradicted s := by
  rintro (⟨hr, ⟨f, hf, hsession, hid⟩, reason, hpc⟩ | ⟨hr, ⟨f, hf, hsession, hid⟩, reason, hpc⟩)
  · have hcommanded := commanded_of_delivered hI hf ⟨hsession, by rw [hid, hr]; rfl⟩
    have hdispatch := hI.dispatch
    simp [DispatchInvariant, hpc, hcommanded, hr, flagState] at hdispatch
  · have hcommanded := commanded_of_delivered hI hf ⟨hsession, by rw [hid, hr]; rfl⟩
    have hdispatch := hI.dispatch
    simp [DispatchInvariant, hpc, hcommanded, hr, flagState] at hdispatch

/-- A transmitted frame that agrees with the flag, or that no current command precedes. -/
theorem framesAgree_transmit (hI : FramesAgree nodeId s) {message : CanMessage}
    (hform : message.id = canIdMasterTime ∧ message.dlc = 8 ∨ message.dlc = 0)
    (hstop : s.recording = true → message.id ≠ canIdStop)
    (hagree : commandOf nodeId message = some (flagState s.recording) ∨
      ∀ f ∈ s.delivered ++ s.bus, ¬ CurrentCommand s f) :
    FramesAgree nodeId (s.transmit message) := by
  have hframes : ∀ f ∈ s.delivered ++ (s.bus ++ [⟨message, s.session⟩]),
      f ∈ s.delivered ++ s.bus ∨ f = ⟨message, s.session⟩ := by
    intro f hf
    rw [← List.append_assoc] at hf
    rcases List.mem_append.mp hf with hf | hf
    · exact .inl hf
    · exact .inr (List.mem_singleton.mp hf)
  constructor
  · intro f hf
    rcases hframes f hf with hf | rfl
    · exact hI.form f hf
    · exact hform
  · intro f hf
    rcases hframes f hf with hf | rfl
    · exact hI.numbered f hf
    · exact Nat.le_refl _
  · intro hr f hf hsession
    rcases hframes f hf with hf | rfl
    · exact hI.unstopped hr f hf hsession
    · exact hstop hr
  · have hsplit : (s.transmit message).delivered ++ (s.transmit message).bus =
        (s.delivered ++ s.bus) ++ [⟨message, s.session⟩] := (List.append_assoc _ _ _).symm
    rw [hsplit]
    refine List.pairwise_append.mpr ⟨hI.agree, List.pairwise_singleton _ _, ?_⟩
    intro c hc f hf hcurrent
    obtain rfl := List.mem_singleton.mp hf
    exact hagree.resolve_right (fun hnone => hnone c hc hcurrent)

/-- Losing frames keeps the rest in order. -/
theorem framesAgree_sublist (hI : FramesAgree nodeId s) {bus : List Frame}
    (hsub : bus.Sublist s.bus) : FramesAgree nodeId { s with bus := bus } := by
  have hall : (s.delivered ++ bus).Sublist (s.delivered ++ s.bus) :=
    (List.Sublist.refl _).append hsub
  exact ⟨fun f hf => hI.form f (hall.subset hf), fun f hf => hI.numbered f (hall.subset hf),
    fun hr f hf => hI.unstopped hr f (hall.subset hf), hI.agree.sublist hall⟩

/-- A change of the flag leaves no current command among the frames. -/
theorem framesAgree_flag (hI : FramesAgree nodeId s) {recording : Bool} {session remaining : ℕ}
    (hnumber : s.session ≤ session)
    (hnone : ∀ f ∈ s.delivered ++ s.bus, f.session = session → f.message.id ≠ commandId recording)
    (hstop : recording = true → ∀ f ∈ s.delivered ++ s.bus,
      f.session = session → f.message.id ≠ canIdStop) :
    FramesAgree nodeId
      { s with recording := recording, session := session, remaining := remaining } := by
  refine ⟨hI.form, fun f hf => Nat.le_trans (hI.numbered f hf) hnumber, hstop, ?_⟩
  refine List.Pairwise.imp_of_mem ?_ hI.agree
  intro c f hc _ _ hcurrent
  exact absurd hcurrent.2 (hnone c hc hcurrent.1)

theorem beacon_id (timeUs : UInt64) (recording : Bool) :
    (beacon timeUs recording).id = canIdMasterTime ∧ (beacon timeUs recording).dlc = 8 := ⟨rfl, rfl⟩

/-- A step of the dispatch keeps what the node has carried out. -/
theorem systemInvariant_dispatch (hI : SystemInvariant nodeId s) {a : NodeDispatch.Label}
    (ha : a = .callback ∨ a = .report) (h : s.dispatch nodeId a = some t) :
    SystemInvariant nodeId t := by
  obtain ⟨node, hnode, rfl⟩ := Option.map_eq_some_iff.mp h
  have hfree : StoresHarmless s.node a := by
    rcases ha with rfl | rfl <;> trivial
  have hhandled : node.handled = s.node.handled := by
    rcases ha with rfl | rfl <;> simp only [NodeDispatch.step] at hnode
    · split at hnode
      next => obtain rfl := Option.some.inj hnode; rfl
      next => cases hnode
    · split at hnode
      next => obtain rfl := Option.some.inj hnode; rfl
      next => cases hnode
  exact ⟨⟨hI.frames.form, hI.frames.numbered, hI.frames.unstopped, hI.frames.agree⟩, hI.built,
    hhandled.trans hI.handled, dispatchInvariant_step hI.dispatch hfree hnode⟩

theorem systemInvariant_deliver (hI : SystemInvariant nodeId s) {f : Frame} {bus : List Frame}
    (hbus : s.bus = f :: bus)
    (h : { s with bus := bus, delivered := s.delivered ++ [f] }.dispatch nodeId
      (.receive f.message) = some t) : SystemInvariant nodeId t := by
  obtain ⟨node, hnode, rfl⟩ := Option.map_eq_some_iff.mp h
  have hframes : (s.delivered ++ [f]) ++ bus = s.delivered ++ s.bus := by
    rw [hbus, List.append_assoc, List.singleton_append]
  have hdispatch := dispatchInvariant_step hI.dispatch (a := .receive f.message) trivial hnode
  have hhandled : node.handled = s.node.handled ++ [f.message] := by
    simp only [NodeDispatch.step] at hnode
    split_ifs at hnode
    obtain rfl := Option.some.inj hnode
    exact (receive_cases nodeId s.node f.message).2.2.1
  refine ⟨⟨?_, ?_, ?_, ?_⟩, hI.built, ?_, hdispatch⟩
  · exact hframes ▸ hI.frames.form
  · exact hframes ▸ hI.frames.numbered
  · exact hframes ▸ hI.frames.unstopped
  · exact hframes ▸ hI.frames.agree
  · rw [hhandled, hI.handled, List.map_append, List.map_singleton]

theorem systemInvariant_step {a : Label} (hI : SystemInvariant nodeId s)
    (hC : BeaconsCurrent s a) (h : step nodeId s a = some t) : SystemInvariant nodeId t := by
  cases a with
  | startLogging =>
    simp only [step] at h
    split_ifs at h with hidle
    obtain rfl := Option.some.inj h
    have hnew : ∀ f ∈ s.delivered ++ s.bus, f.session ≠ s.session + 1 := by
      intro f hf heq
      have hle := hI.frames.numbered f hf
      omega
    exact ⟨framesAgree_flag hI.frames (Nat.le_succ _) (fun f hf heq => absurd heq (hnew f hf))
      (fun _ f hf heq => absurd heq (hnew f hf)), hI.built, hI.handled, hI.dispatch⟩
  | stopLogging =>
    simp only [step] at h
    split_ifs at h with hrunning
    obtain rfl := Option.some.inj h
    exact ⟨framesAgree_flag hI.frames (Nat.le_refl _) (hI.frames.unstopped hrunning.2) nofun,
      hI.built, hI.handled, hI.dispatch⟩
  | sendCommand sent =>
    simp only [step] at h
    by_cases hdone : s.remaining = 0
    · simp [hdone] at h
    rw [if_neg hdone] at h
    obtain rfl := Option.some.inj h
    cases sent with
    | false =>
      exact ⟨⟨hI.frames.form, hI.frames.numbered, hI.frames.unstopped, hI.frames.agree⟩, hI.built,
        hI.handled, hI.dispatch⟩
    | true =>
      have hcommand := commandOf_command nodeId s.recording
        ⟨commandId s.recording, 0, 0⟩ rfl rfl
      have hstart : s.recording = true → commandId s.recording ≠ canIdStop := by
        intro hr
        rw [hr]
        decide
      have hframes := framesAgree_transmit hI.frames (.inr rfl) hstart (.inl hcommand)
      exact ⟨⟨hframes.form, hframes.numbered, hframes.unstopped, hframes.agree⟩, hI.built,
        hI.handled, hI.dispatch⟩
  | buildBeacon timeUs =>
    simp only [step] at h
    split_ifs at h
    obtain rfl := Option.some.inj h
    refine ⟨⟨hI.frames.form, hI.frames.numbered, hI.frames.unstopped, hI.frames.agree⟩, ?_,
      hI.handled, hI.dispatch⟩
    rintro message ⟨⟩
    exact beacon_id timeUs s.recording
  | sendBeacon sent =>
    simp only [step] at h
    cases hb : s.built with
    | none => simp [hb] at h
    | some message =>
      simp only [hb] at h
      obtain rfl := Option.some.inj h
      cases sent with
      | false =>
        exact ⟨⟨hI.frames.form, hI.frames.numbered, hI.frames.unstopped, hI.frames.agree⟩, nofun,
          hI.handled, hI.dispatch⟩
      | true =>
        obtain ⟨hid, hdlc⟩ := hI.built message hb
        have hagree := hC rfl message hb
        rw [← Option.some_inj, ← commandOf_beacon nodeId message hid hdlc] at hagree
        have hstop : s.recording = true → message.id ≠ canIdStop := by
          intro _
          rw [hid]
          decide
        have hframes := framesAgree_transmit hI.frames (.inl ⟨hid, hdlc⟩) hstop hagree
        exact ⟨⟨hframes.form, hframes.numbered, hframes.unstopped, hframes.agree⟩, nofun,
          hI.handled, hI.dispatch⟩
  | lose i =>
    simp only [step] at h
    obtain rfl := Option.some.inj h
    exact ⟨framesAgree_sublist hI.frames (List.eraseIdx_sublist _ _), hI.built, hI.handled,
      hI.dispatch⟩
  | deliver =>
    simp only [step] at h
    split at h
    next => cases h
    next f bus hbus => exact systemInvariant_deliver hI hbus h
  | callback => exact systemInvariant_dispatch hI (.inl rfl) h
  | report => exact systemInvariant_dispatch hI (.inr rfl) h

theorem systemInvariant_start : SystemInvariant nodeId .start where
  frames := ⟨nofun, nofun, nofun, List.Pairwise.nil⟩
  built := nofun
  handled := rfl
  dispatch := ⟨rfl, rfl⟩

/-- In a run whose beacons are current when they are transmitted no callback contradicts a
command. -/
theorem not_contradicted_of_run {as : List Label}
    (h : Run (step nodeId) BeaconsCurrent System.start as s) : ¬ Contradicted s :=
  not_contradicted
    (h.invariant systemInvariant_start (fun _ _ _ hI hC => systemInvariant_step hI hC))

/-- A session that starts between two beacons, the second copy of START being lost. -/
def startBetweenBeacons : List Label :=
  [.buildBeacon 0, .sendBeacon true, .startLogging, .sendCommand true, .sendCommand true, .deliver,
    .deliver, .callback, .report, .lose 0, .buildBeacon 100000, .sendBeacon true, .deliver]

theorem startBetweenBeacons_kept :
    ∃ s, Run (step 1) BeaconsCurrent System.start startBetweenBeacons s ∧ ¬ Contradicted s := by
  have h : Run (step 1) BeaconsCurrent System.start startBetweenBeacons _ := Run.of_exec rfl
  exact ⟨_, h, not_contradicted_of_run h⟩

/-- The beacon is built before the flag is set and sent behind the first START. -/
def staleIdleBeacon : List Label :=
  [.buildBeacon 0, .startLogging, .sendCommand true, .sendBeacon true, .deliver, .callback,
    .report, .deliver]

/-- The beacon is built before the flag is cleared and sent behind the first STOP. -/
def staleRecordingBeacon : List Label :=
  [.startLogging, .sendCommand true, .sendCommand true, .sendCommand true, .sendCommand true,
    .sendCommand true, .deliver, .callback, .report, .deliver, .report, .deliver, .report,
    .deliver, .report, .deliver, .report, .buildBeacon 0, .stopLogging, .sendCommand true,
    .sendBeacon true, .deliver, .callback, .report, .deliver]

/-- Behind a START the node is about to stop, behind a STOP to start. -/
theorem staleBeacons_contradict :
    (∃ s, Run (step 1) Free System.start staleIdleBeacon s ∧
      s.node.dispatch = .callback .idle .beaconSync ∧ Contradicted s) ∧
    (∃ s, Run (step 1) Free System.start staleRecordingBeacon s ∧
      s.node.dispatch = .callback .active .beaconSync ∧ Contradicted s) := by
  refine ⟨⟨_, Run.of_exec_free rfl, rfl, .inl ⟨rfl, ?_, _, rfl⟩⟩,
    ⟨_, Run.of_exec_free rfl, rfl, .inr ⟨rfl, ?_, _, rfl⟩⟩⟩
  · exact ⟨⟨startFrame, 1⟩, by decide, rfl, rfl⟩
  · exact ⟨⟨stopFrame, 1⟩, by decide, rfl, rfl⟩

end BajaDaq.BeaconCommands
