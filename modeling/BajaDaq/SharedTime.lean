import BajaDaq.BeaconCommands
import BajaDaq.SampleTimes

/-!
# The time that the nodes share

`beacon_task`, the bus with any losses and delays, and on every node `dispatch_task` with
`time_sync.c`. An instant is physical time, of any linear order; a clock is what
`esp_timer_get_time` returns at an instant. A frame is tagged with the instant its beacon was
built, and a node keeps the instants of the beacon in force.
-/

namespace BajaDaq.SharedTime
open AppProtocol ClockDiscipline SamplePipeline SampleTimes TransitionRuns
open BeaconCommands (beacon)
open LittleEndian (bytesOf length_bytesOf valueOf_bytesOf)

variable {ι T : Type*} [LinearOrder T]

/-- The clocks of the master and the nodes. The difference between the master's and a node's
clock changes by at most `drift` between two instants. -/
structure Clocks (ι T : Type*) [LinearOrder T] where
  master : T → ℤ
  node : ι → T → ℤ
  drift : T → T → ℤ
  master_mono : ∀ s t, s ≤ t → master s ≤ master t
  drift_le : ∀ i s t, |master t - master s - (node i t - node i s)| ≤ drift s t

structure Tagged (α T : Type*) where
  content : α
  builtAt : Option T

/-- What a node's offset was computed from: when the beacon was built, and when the node's clock
was read. -/
structure Sync (T : Type*) where
  builtAt : T
  readAt : T

structure NodeTime (T : Type*) where
  rxQueue : List (Tagged CanMessage T)
  /-- an offset of `time_sync_update` that is not stored yet -/
  computed : Option (ℤ × Option (Sync T))
  masterOffsetUs : ℤ
  inForce : Option (Sync T)

structure System (ι T : Type*) where
  now : T
  built : Option (Tagged TwaiFrame T)
  bus : List (Tagged TwaiFrame T)
  nodes : ι → NodeTime T

def System.start (now : T) : System ι T := ⟨now, none, [], fun _ => ⟨[], none, 0, none⟩⟩

/-- Other frames are commands and samples; `heard` tells who receives a frame. A time that is
converted may have been captured at any instant before. -/
inductive Label (ι T : Type*) where
  | buildBeacon (t : T) (recording : Bool)
  | sendBeacon (sent : Bool)
  | sendOther (frame : TwaiFrame)
  | broadcast (heard : ι → Bool)
  | dispatch (i : ι) (t : T)
  | store (i : ι)
  | stamp (i : ι) (captured : T) (timestampMs : Int32)

def canRxQueueLength : ℕ := 16

/-- The frame of `beacon_task`. -/
def beaconFrame (timeUs : UInt64) (recording : Bool) : TwaiFrame :=
  ⟨canIdMasterTime, 8, bytesOf 8 (beacon timeUs recording).data.toNat⟩

/-- The argument of `on_time_beacon`, if `dispatch_task` calls it. -/
def timeBeacon (message : CanMessage) : Option UInt64 :=
  if message.id = canIdMasterTime ∧ message.dlc = 8 then
    some (message.data &&& canMasterTimeValueMask)
  else none

/-- `xQueueSendFromISR` in `receive_callback`; a full queue loses the frame. -/
def NodeTime.receive (n : NodeTime T) (frame : Tagged TwaiFrame T) : NodeTime T :=
  if n.rxQueue.length < canRxQueueLength then
    { n with rxQueue := n.rxQueue ++ [⟨receiveCallback frame.content, frame.builtAt⟩] }
  else n

def setNode [DecidableEq ι] (s : System ι T) (i : ι) (n : NodeTime T) : System ι T :=
  { s with nodes := Function.update s.nodes i n }

def step [DecidableEq ι] (clocks : Clocks ι T) (s : System ι T) : Label ι T → Option (System ι T)
  | .buildBeacon t recording =>
    if s.built.isNone ∧ s.now ≤ t ∧ 0 ≤ clocks.master t ∧ clocks.master t < 2 ^ 63 then
      some { s with
        now := t, built := some ⟨beaconFrame (.ofNat (clocks.master t).toNat) recording, some t⟩ }
    else none
  | .sendBeacon sent =>
    s.built.map fun frame =>
      { s with built := none, bus := if sent then s.bus ++ [frame] else s.bus }
  | .sendOther frame =>
    if frame.id = canIdMasterTime then none else some { s with bus := s.bus ++ [⟨frame, none⟩] }
  | .broadcast heard =>
    match s.bus with
    | [] => none
    | frame :: bus =>
      some { s with
        bus := bus
        nodes := fun i => if heard i then (s.nodes i).receive frame else s.nodes i }
  | .dispatch i t =>
    match (s.nodes i).rxQueue with
    | [] => none
    | message :: rest =>
      if (s.nodes i).computed.isNone ∧ s.now ≤ t then
        let computed := (timeBeacon message.content).map fun masterTimeUs =>
          (timeSyncUpdate masterTimeUs (clocks.node i t),
            message.builtAt.map fun builtAt => ⟨builtAt, t⟩)
        some (setNode { s with now := t } i
          { s.nodes i with rxQueue := rest, computed := computed })
      else none
  | .store i =>
    (s.nodes i).computed.map fun computed =>
      setNode s i { s.nodes i with
        computed := none, masterOffsetUs := computed.1, inForce := computed.2 }
  | .stamp i captured timestampMs =>
    if captured ≤ s.now ∧ timestampMs =
        timeSyncTimestampMsAt (s.nodes i).masterOffsetUs (clocks.node i captured) then some s
    else none

theorem receiveCallback_bytes (id : UInt32) (data : UInt64) :
    receiveCallback ⟨id, 8, bytesOf 8 data.toNat⟩ = ⟨id, 8, data⟩ := by
  have hdata : gatherBytes (bytesOf 8 data.toNat) 8 = data := by
    rw [← UInt64.toNat_inj, toNat_gatherBytes _ (Nat.le_refl 8) (by rw [length_bytesOf]),
      List.take_of_length_le (by rw [length_bytesOf]), valueOf_bytesOf]
    exact Nat.mod_eq_of_lt data.toNat_lt
  have hbuffer : (bytesOf 8 data.toNat).take 8 = bytesOf 8 data.toNat :=
    List.take_of_length_le (by rw [length_bytesOf])
  simp only [receiveCallback, hbuffer]
  exact congrArg (CanMessage.mk id 8) hdata

theorem toNat_canMasterTimeValueMask : canMasterTimeValueMask.toNat = 2 ^ 63 - 1 := by decide

/-- The mask takes the flag away again. -/
theorem mask_beacon {timeUs : UInt64} (h : timeUs.toNat < 2 ^ 63) (recording : Bool) :
    (beacon timeUs recording).data &&& canMasterTimeValueMask = timeUs := by
  have hflag : canMasterTimeRecordingFlag.toNat = 2 ^ 63 := by decide
  have hmask : (timeUs &&& canMasterTimeValueMask).toNat = timeUs.toNat := by
    rw [UInt64.toNat_and, toNat_canMasterTimeValueMask, Nat.and_two_pow_sub_one_eq_mod,
      Nat.mod_eq_of_lt h]
  rw [← UInt64.toNat_inj, UInt64.toNat_and, toNat_canMasterTimeValueMask,
    Nat.and_two_pow_sub_one_eq_mod]
  cases recording with
  | false =>
    change (timeUs &&& canMasterTimeValueMask).toNat % 2 ^ 63 = _
    rw [hmask, Nat.mod_eq_of_lt h]
  | true =>
    change ((timeUs &&& canMasterTimeValueMask) ||| canMasterTimeRecordingFlag).toNat % 2 ^ 63 = _
    rw [UInt64.toNat_or, hmask, hflag, Nat.or_mod_two_pow, Nat.mod_self, Nat.or_zero,
      Nat.mod_eq_of_lt h]

theorem timeBeacon_beaconFrame {timeUs : UInt64} (h : timeUs.toNat < 2 ^ 63) (recording : Bool) :
    timeBeacon (receiveCallback (beaconFrame timeUs recording)) = some timeUs := by
  rw [beaconFrame, receiveCallback_bytes, timeBeacon, if_pos ⟨rfl, rfl⟩, mask_beacon h]

variable {clocks : Clocks ι T} {s t : System ι T}

/-- A beacon that was built at an instant carries the master's time at that instant. -/
def Carries (clocks : Clocks ι T) (builtAt : Option T) (message : CanMessage) : Prop :=
  match builtAt with
  | none => timeBeacon message = none
  | some b => 0 ≤ clocks.master b ∧ clocks.master b < 2 ^ 63 ∧
      timeBeacon message = some (.ofNat (clocks.master b).toNat)

/-- The offset is the distance from the node's clock at one instant to the master's at another. -/
structure IsOffset (clocks : Clocks ι T) (now : T) (i : ι) (offsetUs : ℤ) (sync : Sync T) :
    Prop where
  eq : offsetUs = clocks.master sync.builtAt - clocks.node i sync.readAt
  built_le : sync.builtAt ≤ sync.readAt
  read_le : sync.readAt ≤ now

theorem IsOffset.mono {now later : T} {i : ι} {offsetUs : ℤ} {sync : Sync T}
    (h : IsOffset clocks now i offsetUs sync) (hle : now ≤ later) :
    IsOffset clocks later i offsetUs sync :=
  ⟨h.eq, h.built_le, h.read_le.trans hle⟩

/-- What a node has taken of the beacons. -/
structure SoundNode (clocks : Clocks ι T) (now : T) (i : ι) (n : NodeTime T) : Prop where
  queued : ∀ message ∈ n.rxQueue, Carries clocks message.builtAt message.content
  computed : ∀ offsetUs sync, n.computed = some (offsetUs, sync) →
    ∃ source, sync = some source ∧ IsOffset clocks now i offsetUs source
  inForce : ∀ sync, n.inForce = some sync → IsOffset clocks now i n.masterOffsetUs sync

theorem SoundNode.mono {now later : T} {i : ι} {n : NodeTime T} (h : SoundNode clocks now i n)
    (hle : now ≤ later) : SoundNode clocks later i n where
  queued := h.queued
  computed offsetUs sync hcomputed := by
    obtain ⟨source, hsync, hoffset⟩ := h.computed offsetUs sync hcomputed
    exact ⟨source, hsync, hoffset.mono hle⟩
  inForce sync hsync := (h.inForce sync hsync).mono hle

theorem soundNode_receive {now : T} {i : ι} {n : NodeTime T} (h : SoundNode clocks now i n)
    {frame : Tagged TwaiFrame T}
    (hframe : Carries clocks frame.builtAt (receiveCallback frame.content)) :
    SoundNode clocks now i (n.receive frame) := by
  unfold NodeTime.receive
  split
  · refine ⟨?_, h.computed, h.inForce⟩
    intro message hmessage
    rcases List.mem_append.mp hmessage with hmessage | hmessage
    · exact h.queued message hmessage
    · rw [List.mem_singleton.mp hmessage]
      exact hframe
  · exact h

/-- When the beacons of a node were built: in force, computed, queued. -/
def nodePath (n : NodeTime T) : List T :=
  (n.inForce.map Sync.builtAt).toList ++ ((n.computed.bind Prod.snd).map Sync.builtAt).toList ++
    n.rxQueue.filterMap Tagged.builtAt

/-- Behind them the beacons on the bus and the one that is not sent. -/
def path (s : System ι T) (i : ι) : List T :=
  nodePath (s.nodes i) ++ s.bus.filterMap Tagged.builtAt ++ (s.built.bind Tagged.builtAt).toList

structure Sound (clocks : Clocks ι T) (s : System ι T) : Prop where
  built : ∀ frame ∈ s.built, Carries clocks frame.builtAt (receiveCallback frame.content)
  bus : ∀ frame ∈ s.bus, Carries clocks frame.builtAt (receiveCallback frame.content)
  node : ∀ i, SoundNode clocks s.now i (s.nodes i)
  sorted : ∀ i, (path s i).Pairwise (· ≤ ·)
  past : ∀ i, ∀ b ∈ path s i, b ≤ s.now

theorem sound_start (now : T) : Sound clocks (System.start now) where
  built := by simp [System.start]
  bus := by simp [System.start]
  node _ := ⟨by simp [System.start], by simp [System.start], by simp [System.start]⟩
  sorted := by simp [System.start, path, nodePath]
  past := by simp [System.start, path, nodePath]

theorem sound_buildBeacon (h : Sound clocks s) {b : T} {recording : Bool} (hbuilt : s.built = none)
    (hnow : s.now ≤ b) (hnonneg : 0 ≤ clocks.master b) (hlt : clocks.master b < 2 ^ 63) :
    Sound clocks { s with
      now := b
      built := some ⟨beaconFrame (.ofNat (clocks.master b).toNat) recording, some b⟩ } := by
  have hpath : ∀ i, path { s with
      now := b
      built := some ⟨beaconFrame (.ofNat (clocks.master b).toNat) recording, some b⟩ } i =
      path s i ++ [b] := by
    intro i
    simp [path, hbuilt]
  have htime : (UInt64.ofNat (clocks.master b).toNat).toNat < 2 ^ 63 := by
    have hnat : (clocks.master b).toNat < 2 ^ 63 := by omega
    rw [UInt64.toNat_ofNat_of_lt' (hnat.trans (by decide))]
    exact hnat
  refine ⟨?_, h.bus, fun i => (h.node i).mono hnow, ?_, ?_⟩
  · rintro frame hframe
    obtain rfl := Option.some.inj hframe
    exact ⟨hnonneg, hlt, timeBeacon_beaconFrame htime recording⟩
  · intro i
    rw [hpath]
    refine List.pairwise_append.mpr ⟨h.sorted i, List.pairwise_singleton _ _, ?_⟩
    intro a ha x hx
    rw [List.mem_singleton.mp hx]
    exact (h.past i a ha).trans hnow
  · intro i a ha
    rw [hpath] at ha
    rcases List.mem_append.mp ha with ha | ha
    · exact (h.past i a ha).trans hnow
    · exact (List.mem_singleton.mp ha).le

/-- In the other steps the paths only lose entries. -/
theorem Sound.of_sublist (h : Sound clocks s) (hnow : s.now ≤ t.now)
    (hpath : ∀ i, (path t i).Sublist (path s i))
    (hbuilt : ∀ frame ∈ t.built, Carries clocks frame.builtAt (receiveCallback frame.content))
    (hbus : ∀ frame ∈ t.bus, Carries clocks frame.builtAt (receiveCallback frame.content))
    (hnode : ∀ i, SoundNode clocks t.now i (t.nodes i)) : Sound clocks t where
  built := hbuilt
  bus := hbus
  node := hnode
  sorted i := (h.sorted i).sublist (hpath i)
  past i b hb := (h.past i b ((hpath i).subset hb)).trans hnow

theorem sound_sendBeacon (h : Sound clocks s) {frame : Tagged TwaiFrame T}
    (hbuilt : s.built = some frame) (sent : Bool) :
    Sound clocks { s with built := none, bus := if sent then s.bus ++ [frame] else s.bus } := by
  refine h.of_sublist le_rfl ?_ (fun _ hnone => (by cases hnone)) ?_ h.node
  · intro i
    cases sent with
    | true => cases hb : frame.builtAt <;> simp [path, hbuilt, hb]
    | false => simp [path]
  · intro x hx
    cases sent with
    | true =>
      rcases List.mem_append.mp hx with hx | hx
      · exact h.bus x hx
      · rw [List.mem_singleton.mp hx]
        exact h.built frame hbuilt
    | false => exact h.bus x hx

theorem sound_sendOther (h : Sound clocks s) {frame : TwaiFrame}
    (hid : frame.id ≠ canIdMasterTime) :
    Sound clocks { s with bus := s.bus ++ [⟨frame, none⟩] } := by
  refine h.of_sublist le_rfl ?_ h.built ?_ h.node
  · intro i
    simp [path]
  · intro x hx
    rcases List.mem_append.mp hx with hx | hx
    · exact h.bus x hx
    · rw [List.mem_singleton.mp hx]
      exact if_neg fun hbeacon => hid hbeacon.1

omit [LinearOrder T] in
theorem nodePath_receive (n : NodeTime T) (frame : Tagged TwaiFrame T) :
    (nodePath (n.receive frame)).Sublist (nodePath n ++ frame.builtAt.toList) := by
  unfold NodeTime.receive
  split
  · cases frame.builtAt <;> simp [nodePath]
  · exact List.sublist_append_left _ _

theorem sound_broadcast (h : Sound clocks s) {frame : Tagged TwaiFrame T}
    {bus : List (Tagged TwaiFrame T)} (hbus : s.bus = frame :: bus) (heard : ι → Bool) :
    Sound clocks { s with
      bus := bus
      nodes := fun i => if heard i then (s.nodes i).receive frame else s.nodes i } := by
  have hframe := h.bus frame (hbus ▸ List.mem_cons_self)
  refine h.of_sublist le_rfl (fun i => ?_) h.built
    (fun x hx => h.bus x (hbus ▸ List.mem_cons_of_mem _ hx)) (fun i => ?_)
  · have hnode : (nodePath (if heard i then (s.nodes i).receive frame else s.nodes i)).Sublist
        (nodePath (s.nodes i) ++ frame.builtAt.toList) := by
      split
      · exact nodePath_receive _ _
      · exact List.sublist_append_left _ _
    have hall : path s i = nodePath (s.nodes i) ++ frame.builtAt.toList ++
        (bus.filterMap Tagged.builtAt ++ (s.built.bind Tagged.builtAt).toList) := by
      cases hb : frame.builtAt <;> simp [path, hbus, hb]
    rw [hall, path, List.append_assoc]
    exact hnode.append (List.Sublist.refl _)
  · dsimp only
    split
    · exact soundNode_receive (h.node i) hframe
    · exact h.node i

/-- The offset that a beacon gives. -/
theorem timeSyncUpdate_carried {b : T} {message : CanMessage} (h : Carries clocks (some b) message)
    (localUs : ℤ) : ∃ masterTimeUs, timeBeacon message = some masterTimeUs ∧
      timeSyncUpdate masterTimeUs localUs = clocks.master b - localUs := by
  obtain ⟨hnonneg, hlt, htime⟩ := h
  have hnat : (clocks.master b).toNat < 2 ^ 63 := by omega
  have hword : (UInt64.ofNat (clocks.master b).toNat).toNat = (clocks.master b).toNat :=
    UInt64.toNat_ofNat_of_lt' (hnat.trans (by decide))
  have hoffset := timeSyncUpdate_eq (hword.symm ▸ hnat) localUs
  exact ⟨_, htime, by omega⟩

theorem waiting_le (h : Sound clocks s) {i : ι} {sync : Sync T}
    (hsync : (s.nodes i).inForce = some sync) {b : T}
    (hb : b ∈ (s.nodes i).rxQueue.filterMap Tagged.builtAt ++ s.bus.filterMap Tagged.builtAt) :
    sync.builtAt ≤ b := by
  have hsorted := h.sorted i
  simp only [path, nodePath, hsync, Option.map_some, Option.toList_some, List.append_assoc,
    List.singleton_append] at hsorted
  refine (List.pairwise_cons.mp hsorted).1 b ?_
  rcases List.mem_append.mp hb with hb | hb
  · exact List.mem_append_right _ (List.mem_append_left _ hb)
  · exact List.mem_append_right _ (List.mem_append_right _ (List.mem_append_left _ hb))

section Nodes
variable [DecidableEq ι]

/-- A step of one node. -/
theorem sound_setNode (h : Sound clocks s) {now : T} (hnow : s.now ≤ now) {i : ι} {n : NodeTime T}
    (hn : SoundNode clocks now i n) (hpath : (nodePath n).Sublist (nodePath (s.nodes i))) :
    Sound clocks (setNode { s with now := now } i n) := by
  refine h.of_sublist hnow (fun j => ?_) h.built h.bus (fun j => ?_)
  · refine (List.Sublist.append ?_ (List.Sublist.refl _)).append (List.Sublist.refl _)
    by_cases hj : j = i
    · subst hj
      simpa [setNode] using hpath
    · simp [setNode, hj]
  · by_cases hj : j = i
    · subst hj
      simpa [setNode] using hn
    · simpa [setNode, hj] using (h.node j).mono hnow

theorem sound_dispatch (h : Sound clocks s) {i : ι} {now : T} (hnow : s.now ≤ now)
    {message : Tagged CanMessage T} {rest : List (Tagged CanMessage T)}
    (hqueue : (s.nodes i).rxQueue = message :: rest) (hidle : (s.nodes i).computed = none) :
    Sound clocks (setNode { s with now := now } i { s.nodes i with
      rxQueue := rest
      computed := (timeBeacon message.content).map fun masterTimeUs =>
        (timeSyncUpdate masterTimeUs (clocks.node i now),
          message.builtAt.map fun builtAt => ⟨builtAt, now⟩) }) := by
  have hn := (h.node i).mono hnow
  have hcarries := hn.queued message (hqueue ▸ List.mem_cons_self)
  have hrest : ∀ m ∈ rest, Carries clocks m.builtAt m.content :=
    fun m hm => hn.queued m (hqueue ▸ List.mem_cons_of_mem _ hm)
  cases hb : message.builtAt with
  | none =>
    rw [hb] at hcarries
    have hnone : timeBeacon message.content = none := hcarries
    rw [hnone]
    refine sound_setNode h hnow ⟨hrest, fun _ _ hc => (by cases hc), hn.inForce⟩ ?_
    simp [nodePath, hqueue, hidle, hb]
  | some b =>
    rw [hb] at hcarries
    obtain ⟨masterTimeUs, htime, hoffset⟩ := timeSyncUpdate_carried hcarries (clocks.node i now)
    have hbuilt : b ≤ s.now := by
      refine h.past i b ?_
      simp [path, nodePath, hqueue, hb]
    rw [htime, Option.map_some, Option.map_some, hoffset]
    refine sound_setNode h hnow ⟨hrest, ?_, hn.inForce⟩ ?_
    · rintro offsetUs sync hcomputed
      obtain ⟨rfl, rfl⟩ := Prod.mk.inj (Option.some.inj hcomputed)
      exact ⟨⟨b, now⟩, rfl, rfl, hbuilt.trans hnow, le_rfl⟩
    · simp [nodePath, hqueue, hidle, hb]

theorem sound_store (h : Sound clocks s) {i : ι} {computed : ℤ × Option (Sync T)}
    (hcomputed : (s.nodes i).computed = some computed) :
    Sound clocks (setNode s i { s.nodes i with
      computed := none, masterOffsetUs := computed.1, inForce := computed.2 }) := by
  have hn := h.node i
  obtain ⟨offsetUs, sync⟩ := computed
  obtain ⟨source, rfl, hoffset⟩ := hn.computed offsetUs sync hcomputed
  refine sound_setNode h le_rfl ⟨hn.queued, fun _ _ hc => (by cases hc), ?_⟩ ?_
  · intro sync hinForce
    obtain rfl : source = sync := Option.some.inj hinForce
    exact hoffset
  · simp [nodePath, hcomputed]

theorem sound_step (h : Sound clocks s) {label : Label ι T} (hs : step clocks s label = some t) :
    Sound clocks t := by
  cases label with
  | buildBeacon b recording =>
    obtain ⟨⟨hbuilt, hnow, hnonneg, hlt⟩, ht⟩ := Option.ite_none_right_eq_some.mp hs
    obtain rfl := Option.some.inj ht
    exact sound_buildBeacon h (Option.isNone_iff_eq_none.mp hbuilt) hnow hnonneg hlt
  | sendBeacon sent =>
    obtain ⟨frame, hbuilt, rfl⟩ := Option.map_eq_some_iff.mp hs
    exact sound_sendBeacon h hbuilt sent
  | sendOther frame =>
    obtain ⟨hid, ht⟩ := Option.ite_none_left_eq_some.mp hs
    obtain rfl := Option.some.inj ht
    exact sound_sendOther h hid
  | broadcast heard =>
    simp only [step] at hs
    split at hs
    · cases hs
    · obtain rfl := Option.some.inj hs
      exact sound_broadcast h ‹_› heard
  | dispatch i now =>
    simp only [step] at hs
    split at hs
    · cases hs
    · obtain ⟨⟨hidle, hnow⟩, ht⟩ := Option.ite_none_right_eq_some.mp hs
      obtain rfl := Option.some.inj ht
      exact sound_dispatch h hnow ‹_› (Option.isNone_iff_eq_none.mp hidle)
  | store i =>
    obtain ⟨computed, hcomputed, rfl⟩ := Option.map_eq_some_iff.mp hs
    exact sound_store h hcomputed
  | stamp i captured timestampMs =>
    obtain ⟨-, ht⟩ := Option.ite_none_right_eq_some.mp hs
    obtain rfl := Option.some.inj ht
    exact h

theorem sound_of_run {start : T} {labels : List (Label ι T)}
    (h : Run (step clocks) Free (.start start) labels s) : Sound clocks s :=
  h.invariant (sound_start start) (fun _ _ _ hs _ => sound_step hs)

/-- The offset of a node is replaced only by the one that was computed. -/
theorem inForce_step {i : ι} {label : Label ι T} (hs : step clocks s label = some t) :
    (t.nodes i).inForce = (s.nodes i).inForce ∨
      ∃ computed, (s.nodes i).computed = some computed ∧ (t.nodes i).inForce = computed.2 := by
  cases label with
  | buildBeacon b recording =>
    obtain ⟨-, ht⟩ := Option.ite_none_right_eq_some.mp hs
    obtain rfl := Option.some.inj ht
    exact .inl rfl
  | sendBeacon sent =>
    obtain ⟨frame, -, rfl⟩ := Option.map_eq_some_iff.mp hs
    exact .inl rfl
  | sendOther frame =>
    obtain ⟨-, ht⟩ := Option.ite_none_left_eq_some.mp hs
    obtain rfl := Option.some.inj ht
    exact .inl rfl
  | broadcast heard =>
    simp only [step] at hs
    split at hs
    · cases hs
    · obtain rfl := Option.some.inj hs
      left
      dsimp only
      split
      · unfold NodeTime.receive
        split <;> rfl
      · rfl
  | dispatch j now =>
    simp only [step] at hs
    split at hs
    · cases hs
    · obtain ⟨-, ht⟩ := Option.ite_none_right_eq_some.mp hs
      obtain rfl := Option.some.inj ht
      left
      by_cases hj : i = j
      · subst hj
        simp [setNode]
      · simp [setNode, hj]
  | store j =>
    obtain ⟨computed, hcomputed, rfl⟩ := Option.map_eq_some_iff.mp hs
    by_cases hj : i = j
    · subst hj
      exact .inr ⟨computed, hcomputed, by simp [setNode]⟩
    · exact .inl (by simp [setNode, hj])
  | stamp j captured timestampMs =>
    obtain ⟨-, ht⟩ := Option.ite_none_right_eq_some.mp hs
    obtain rfl := Option.some.inj ht
    exact .inl rfl

theorem inForce_le_step (h : Sound clocks s) {i : ι} {label : Label ι T}
    (hs : step clocks s label = some t) {sync : Sync T} (hsync : (s.nodes i).inForce = some sync) :
    ∃ later, (t.nodes i).inForce = some later ∧ sync.builtAt ≤ later.builtAt := by
  rcases inForce_step (i := i) hs with hsame | ⟨⟨offsetUs, found⟩, hcomputed, hstored⟩
  · exact ⟨sync, hsame.trans hsync, le_rfl⟩
  · obtain ⟨source, rfl, -⟩ := (h.node i).computed offsetUs found hcomputed
    refine ⟨source, hstored, ?_⟩
    have hsorted := h.sorted i
    simp only [path, nodePath, hsync, hcomputed, Option.map_some, Option.toList_some,
      Option.bind_some, List.append_assoc, List.singleton_append] at hsorted
    exact (List.pairwise_cons.mp hsorted).1 _ List.mem_cons_self

/-- A node never goes back to a beacon that was built before the one in force. -/
theorem inForce_le_of_run (h : Sound clocks s) {labels : List (Label ι T)}
    (hrun : Run (step clocks) Free s labels t) {i : ι} {sync : Sync T}
    (hsync : (s.nodes i).inForce = some sync) :
    ∃ later, (t.nodes i).inForce = some later ∧ sync.builtAt ≤ later.builtAt := by
  have hkept : Sound clocks t ∧
      ∃ later, (t.nodes i).inForce = some later ∧ sync.builtAt ≤ later.builtAt := by
    refine hrun.invariant (I := fun t => Sound clocks t ∧
      ∃ later, (t.nodes i).inForce = some later ∧ sync.builtAt ≤ later.builtAt)
      ⟨h, sync, hsync, le_rfl⟩ ?_
    rintro s label t ⟨hsound, current, hcurrent, hle⟩ - hs
    obtain ⟨later, hlater, hle'⟩ := inForce_le_step hsound hs hcurrent
    exact ⟨sound_step hsound hs, later, hlater, hle.trans hle'⟩
  exact hkept.2

/-- In every run, whatever frames are lost and however long they wait: a timestamp of a node with a
beacon in force is a time in milliseconds that is behind the master's clock at the capture by at
most the time that this beacon took, and off by the drift since then; the UTC time that the logger
stores beside the sample keeps these bounds up to 2 ms. The beacon in force is never older than one
that was before, nor newer than one that still waits. -/
theorem stamp_of_run (clocks : Clocks ι T) {start : T} {labels : List (Label ι T)}
    {s s' : System ι T} (h : Run (step clocks) Free (.start start) labels s) {i : ι} {captured : T}
    {timestampMs : Int32} (hs : step clocks s (.stamp i captured timestampMs) = some s')
    {sync : Sync T} (hsync : (s.nodes i).inForce = some sync) :
    let delayUs := clocks.master sync.readAt - clocks.master sync.builtAt
    let driftUs := clocks.drift sync.readAt captured
    let masterUs :=
      clocks.node i captured + (clocks.master sync.builtAt - clocks.node i sync.readAt)
    timestampMs = Int32.ofInt (masterUs.tdiv 1000) ∧ 0 ≤ delayUs ∧
      clocks.master captured - masterUs ≤ delayUs + driftUs ∧
      masterUs - clocks.master captured ≤ driftUs ∧
      (∀ (clock : Clock) (nowUs : ℤ) (canId : UInt32) (value : Int32),
        0 ≤ nowUs → 0 ≤ masterUs → |masterUs / 1000 - nowUs / 1000| < 2 ^ 31 →
        1000 ≤ clockDisciplineUtcUs clock nowUs →
        let capturedUtcUs :=
          clockDisciplineUtcUs clock nowUs - (nowUs - clocks.master captured)
        let storedMs := absoluteClockSampleUtc clock nowUs
          (upperWord (receiveCallback (sendTask ⟨canId, timestampMs, value⟩)).data)
        capturedUtcUs - 1000 * storedMs < delayUs + driftUs + 2000 ∧
          1000 * storedMs - capturedUtcUs < driftUs + 2000) ∧
      (∀ b ∈ (s.nodes i).rxQueue.filterMap Tagged.builtAt ++ s.bus.filterMap Tagged.builtAt,
        sync.builtAt ≤ b) ∧
      ∀ (labels' : List (Label ι T)) (t : System ι T), Run (step clocks) Free s labels' t →
        ∃ later, (t.nodes i).inForce = some later ∧ sync.builtAt ≤ later.builtAt := by
  intro delayUs driftUs masterUs
  have hsound := sound_of_run h
  obtain ⟨hoffset, hbuilt, -⟩ := (hsound.node i).inForce sync hsync
  obtain ⟨⟨-, hresult⟩, -⟩ := Option.ite_none_right_eq_some.mp hs
  have hdelay : 0 ≤ delayUs := Int.sub_nonneg_of_le (clocks.master_mono _ _ hbuilt)
  have hdrift := abs_le.mp (clocks.drift_le i sync.readAt captured)
  have hstamp : timestampMs = Int32.ofInt (masterUs.tdiv 1000) := by
    rw [hresult, timeSyncTimestampMsAt, hoffset]
  have hbehind : clocks.master captured - masterUs ≤ delayUs + driftUs := by omega
  have hahead : masterUs - clocks.master captured ≤ driftUs := by omega
  refine ⟨hstamp, hdelay, hbehind, hahead, ?_, fun b hb => waiting_le hsound hsync hb,
    fun labels' t hrun => inForce_le_of_run hsound hrun hsync⟩
  intro clock nowUs canId value hnow hmaster hnear hutc capturedUtcUs storedMs
  have hstored : storedMs =
      clockDisciplineUtcUs clock nowUs / 1000 + masterUs / 1000 - nowUs / 1000 := by
    change absoluteClockSampleUtc clock nowUs
      (upperWord (receiveCallback (sendTask ⟨canId, timestampMs, value⟩)).data) = _
    rw [upperWord_received, hstamp, toUInt32_int32_ofInt]
    exact absoluteClockSampleUtc_eq hnow hmaster hnear hutc
  omega

end Nodes

/-- Node `i` started `i + 3` seconds after the master, and gains 50 µs in a second. -/
def bootedLater : Clocks ℕ ℤ where
  master t := t
  node i t := t + t / 20000 - (i + 3) * 1000000
  drift s t := |t - s| / 20000 + 1
  master_mono _ _ hst := hst
  drift_le i s t := by
    rw [abs_le]
    rcases abs_cases (t - s) with ⟨h, hle⟩ | ⟨h, hlt⟩
    · rw [h]
      constructor <;> omega
    · rw [h]
      constructor <;> omega

/-- Two beacons of which node 1 hears only the first, 300 µs late, and a sample 80 ms later. It is
converted 700 µs after its capture, by a clock that was set at 1 s. -/
def heardOnce : List (Label ℕ ℤ) :=
  [.buildBeacon 5000000 true, .sendBeacon true, .broadcast fun _ => true,
    .sendOther ⟨canIdStart, 0, []⟩, .dispatch 1 5000300, .store 1, .buildBeacon 5100000 true,
    .sendBeacon true, .broadcast fun _ => true, .broadcast fun i => i != 1]

theorem heardOnce_stamp :
    (5080 : Int32) = Int32.ofInt ((1080554 + (5000000 - 1000550) : ℤ).tdiv 1000) ∧
      5080300 - (1080554 + (5000000 - 1000550) : ℤ) ≤ 300 + (80000 / 20000 + 1) ∧
      (1080554 + (5000000 - 1000550) : ℤ) - 5080300 ≤ 80000 / 20000 + 1 ∧
      ∃ storedMs : ℤ, storedMs = absoluteClockSampleUtc (jumpTo 1000000 1789065723000000) 5081000
        (upperWord (receiveCallback (sendTask ⟨0x064, 5080, 7⟩)).data) ∧
        (1789065727081000 - (5081000 - 5080300)) - 1000 * storedMs <
          300 + (80000 / 20000 + 1) + 2000 ∧
        1000 * storedMs - (1789065727081000 - (5081000 - 5080300)) < 80000 / 20000 + 1 + 2000 := by
  have heval : ((exec (step bootedLater) (.start 0) heardOnce).bind fun s =>
      (step bootedLater s (.stamp 1 5080300 5080)).map fun _ =>
        (s.nodes 1).inForce.map fun sync => (sync.builtAt, sync.readAt)) =
      some (some (5000000, 5000300)) := by
    decide +kernel
  obtain ⟨s, hrun, hmap⟩ := Option.bind_eq_some_iff.mp heval
  obtain ⟨s', hs, hforce⟩ := Option.map_eq_some_iff.mp hmap
  obtain ⟨⟨builtAt, readAt⟩, hsync, htimes⟩ := Option.map_eq_some_iff.mp hforce
  obtain ⟨rfl, rfl⟩ := Prod.mk.inj htimes
  obtain ⟨hstamp, -, hbehind, hahead, hutc, -⟩ :=
    stamp_of_run bootedLater (Run.of_exec_free hrun) hs hsync
  have hstored := hutc (jumpTo 1000000 1789065723000000) 5081000 0x064 7 (by decide) (by decide)
    (by decide) (by decide)
  exact ⟨hstamp, hbehind, hahead, _, rfl, hstored⟩

end BajaDaq.SharedTime
