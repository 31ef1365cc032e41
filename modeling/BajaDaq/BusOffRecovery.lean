import BajaDaq.TransitionRuns
import Mathlib.Algebra.Group.Nat.Defs
import Mathlib.Data.Nat.Notation

/-!
# Recovery from bus-off

`state_change_callback` and the loop of `recovery_task`, in the sensor node and in the master. A
poll takes its snapshot of `bus_off_generation`, reads the status and may request recovery in
separate steps, between which the controller does what it likes; a bus-off is counted before the
status shows it. The state keeps the bus-offs and the successful requests so far, newest first, and
the polls that have ended.
-/

namespace BajaDaq.BusOffRecovery
open TransitionRuns

/-- `twai_error_state_t`. -/
inductive ErrorState where
  | active
  | warning
  | passive
  | busOff
  deriving DecidableEq, Repr

/-- The two copies of `recovery_task`; only the node has samples to discard. -/
inductive Task where
  | sensorNode
  | master
  deriving DecidableEq, Repr

inductive Event where
  | busOff
  | recovered
  deriving DecidableEq, Repr

/-- The calls of a poll: `on_bus_off` with the number of samples produced until then, and
`twai_node_recover` with the samples that are pending. -/
inductive Action where
  | discard (produced : ℕ)
  | recover (ok : Bool) (pending : List ℕ)
  deriving DecidableEq, Repr

/-- A poll that has ended: the events before its snapshot, the status it read (`none` if the read
failed) and its calls. -/
structure Poll where
  before : List Event
  status : Option ErrorState
  actions : List Action
  deriving DecidableEq, Repr

/-- Where `recovery_task` is in a poll, with its snapshot and the events before it. -/
inductive RecoveryPc where
  | snapshot
  | read (generation : UInt32) (before : List Event)
  | discard (generation : UInt32) (before : List Event)
  | recover (generation : UInt32) (before : List Event) (actions : List Action)
  deriving DecidableEq, Repr

structure System where
  status : ErrorState
  /-- a bus-off has been counted that the status has not shown yet -/
  entered : Bool
  busOffGeneration : UInt32
  recovering : Bool
  recoveryGeneration : UInt32
  pc : RecoveryPc
  /-- the numbers of the queued samples, and how many there have been -/
  pending : List ℕ
  produced : ℕ
  history : List Event
  polls : List Poll
  deriving DecidableEq, Repr

def System.start : System := ⟨.active, false, 0, false, 0, .snapshot, [], 0, [], []⟩

inductive Label where
  | stateChangeCallback
  | showBusOff
  | leaveBusOff (status : ErrorState)
  | sample
  | send
  | snapshot
  | getInfo (ok : Bool)
  | onBusOff
  | recover (ok : Bool)
  deriving DecidableEq, Repr

/-- The end of a poll. -/
def System.finish (s : System) (poll : Poll) : System :=
  { s with pc := .snapshot, polls := s.polls ++ [poll] }

/-- `twai_node_get_info` and the branches on its result. -/
def getInfo (task : Task) (s : System) (generation : UInt32) (before : List Event) (ok : Bool) :
    System :=
  if ok then
    if s.status = .busOff ∧ (!s.recovering ∨ generation ≠ s.recoveryGeneration) then
      match task with
      | .sensorNode => { s with pc := .discard generation before }
      | .master => { s with pc := .recover generation before [] }
    else if s.recovering ∧ s.status ≠ .busOff then
      { s with recovering := false }.finish ⟨before, some s.status, []⟩
    else s.finish ⟨before, some s.status, []⟩
  else s.finish ⟨before, none, []⟩

/-- `twai_node_recover` and what the task stores after it. -/
def recover (s : System) (generation : UInt32) (before : List Event) (actions : List Action)
    (ok : Bool) : System :=
  { s with
    recovering := ok
    recoveryGeneration := if ok then generation else s.recoveryGeneration
    history := if ok then .recovered :: s.history else s.history }.finish
      ⟨before, some .busOff, actions ++ [Action.recover ok s.pending]⟩

def step (task : Task) (s : System) : Label → Option System
  | .stateChangeCallback => some { s with
      entered := true
      busOffGeneration := s.busOffGeneration + 1
      history := .busOff :: s.history }
  | .showBusOff =>
    if s.entered then some { s with status := .busOff, entered := false } else none
  | .leaveBusOff status => if status ≠ .busOff then some { s with status := status } else none
  | .sample =>
    match task with
    | .sensorNode =>
      some { s with pending := s.pending ++ [s.produced], produced := s.produced + 1 }
    | .master => none
  | .send => some { s with pending := s.pending.tail }
  | .snapshot =>
    match s.pc with
    | .snapshot => some { s with pc := .read s.busOffGeneration s.history }
    | _ => none
  | .getInfo ok =>
    match s.pc with
    | .read generation before => some (getInfo task s generation before ok)
    | _ => none
  | .onBusOff =>
    match s.pc with
    | .discard generation before => some { s with
        pending := []
        pc := .recover generation before [.discard s.produced] }
    | _ => none
  | .recover ok =>
    match s.pc with
    | .recover generation before actions => some (recover s generation before actions ok)
    | _ => none

/-- A request has succeeded after every bus-off. -/
def RecoveredSince (events : List Event) : Prop :=
  ∃ newer older, events = newer ++ .recovered :: older ∧ .busOff ∉ newer

/-- The calls of a poll that requests recovery; in the node the samples pending at the request are
younger than the discard. -/
def Requests (task : Task) (actions : List Action) : Prop :=
  match task with
  | .sensorNode => ∃ produced ok pending,
      actions = [.discard produced, .recover ok pending] ∧ ∀ sample ∈ pending, produced ≤ sample
  | .master => ∃ ok pending, actions = [.recover ok pending]

/-- The generation is the number of bus-offs at the snapshot of a request that has succeeded. -/
def Covers (generation : UInt32) (events : List Event) : Prop :=
  ∃ newer older n, events = newer ++ .recovered :: older ∧ n ≤ older.count .busOff ∧
    generation = UInt32.ofNat n

theorem Covers.cons {generation : UInt32} {events : List Event} (h : Covers generation events)
    (event : Event) : Covers generation (event :: events) := by
  obtain ⟨newer, older, n, rfl, hle, hn⟩ := h
  exact ⟨event :: newer, older, n, rfl, hle, hn⟩

/-- A snapshot equal to the recovery generation: no bus-off since the request. -/
theorem Covers.recoveredSince {generation : UInt32} {events : List Event}
    (h : Covers generation events) (hsnapshot : generation = UInt32.ofNat (events.count .busOff))
    (hfew : events.count .busOff < 2 ^ 32) : RecoveredSince events := by
  obtain ⟨newer, older, n, hevents, hle, hn⟩ := h
  have hcount : events.count .busOff = newer.count .busOff + older.count .busOff := by
    rw [hevents, List.count_append, List.count_cons_of_ne (by decide)]
  have hn_lt : n < 2 ^ 32 := by omega
  have hsame : n = events.count .busOff := by
    have hmod := congrArg UInt32.toNat (hn.symm.trans hsnapshot)
    rwa [UInt32.toNat_ofNat_of_lt' hn_lt, UInt32.toNat_ofNat_of_lt' hfew] at hmod
  refine ⟨newer, older, hevents, List.count_eq_zero.mp ?_⟩
  omega

/-- The snapshot of the poll in progress. -/
def RecoveryPc.taken : RecoveryPc → Option (UInt32 × List Event)
  | .snapshot => none
  | .read generation before | .discard generation before | .recover generation before _ =>
    some (generation, before)

/-- The calls so far of a poll that is about to request recovery. -/
def Prepared (task : Task) (actions : List Action) (pending : List ℕ) (produced : ℕ) : Prop :=
  match task with
  | .sensorNode => ∃ discarded ≤ produced,
      actions = [.discard discarded] ∧ ∀ sample ∈ pending, discarded ≤ sample
  | .master => actions = []

/-- What is done before the request; only the node comes to a discard. -/
def Ready (task : Task) (pc : RecoveryPc) (pending : List ℕ) (produced : ℕ) : Prop :=
  match pc with
  | .discard _ _ => task = .sensorNode
  | .recover _ _ actions => Prepared task actions pending produced
  | _ => True

structure PollSound (task : Task) (poll : Poll) : Prop where
  requested : poll.status = some .busOff → Requests task poll.actions ∨
    (poll.before.count .busOff < 2 ^ 32 → RecoveredSince poll.before)
  calls : poll.actions = [] ∨ Requests task poll.actions

structure RecoveryInvariant (task : Task) (s : System) : Prop where
  generation : s.busOffGeneration = UInt32.ofNat (s.history.count .busOff)
  covered : s.recovering = true → Covers s.recoveryGeneration s.history
  snapshot : ∀ generation before, s.pc.taken = some (generation, before) →
    before <:+ s.history ∧ generation = UInt32.ofNat (before.count .busOff) ∧
      (s.recovering = true → Covers s.recoveryGeneration before)
  ready : Ready task s.pc s.pending s.produced
  polls : ∀ poll ∈ s.polls, poll.before <:+ s.history ∧ PollSound task poll

variable {task : Task} {s t : System}

theorem recoveryInvariant_start (task : Task) : RecoveryInvariant task .start where
  generation := rfl
  covered := fun h => nomatch h
  snapshot := fun _ _ h => nomatch h
  ready := trivial
  polls := fun _ h => nomatch h

theorem Prepared.mono {actions : List Action} {pending pending' : List ℕ} {produced produced' : ℕ}
    (h : Prepared task actions pending produced) (hle : produced ≤ produced')
    (hpending : ∀ sample ∈ pending', sample ∈ pending ∨ produced ≤ sample) :
    Prepared task actions pending' produced' := by
  cases task with
  | sensorNode =>
    obtain ⟨discarded, hdiscarded, hactions, hall⟩ := h
    refine ⟨discarded, Nat.le_trans hdiscarded hle, hactions, fun sample hsample => ?_⟩
    rcases hpending sample hsample with hold | hnew
    · exact hall sample hold
    · exact Nat.le_trans hdiscarded hnew
  | master => exact h

theorem Ready.mono {pc : RecoveryPc} {pending pending' : List ℕ} {produced produced' : ℕ}
    (h : Ready task pc pending produced) (hle : produced ≤ produced')
    (hpending : ∀ sample ∈ pending', sample ∈ pending ∨ produced ≤ sample) :
    Ready task pc pending' produced' := by
  cases pc with
  | snapshot => exact h
  | read generation before => exact h
  | discard generation before => exact h
  | recover generation before actions => exact Prepared.mono h hle hpending

theorem Prepared.requests {actions : List Action} {pending : List ℕ} {produced : ℕ}
    (h : Prepared task actions pending produced) (ok : Bool) :
    Requests task (actions ++ [.recover ok pending]) := by
  cases task with
  | sensorNode =>
    obtain ⟨discarded, -, rfl, hall⟩ := h
    exact ⟨discarded, ok, pending, rfl, hall⟩
  | master =>
    obtain rfl : actions = [] := h
    exact ⟨ok, pending, rfl⟩

/-- A step of the controller, of the sampler or of the node's transmitter. -/
theorem RecoveryInvariant.outside (hI : RecoveryInvariant task s) (hpc : t.pc = s.pc)
    (hrecovering : t.recovering = s.recovering)
    (hrecoveryGeneration : t.recoveryGeneration = s.recoveryGeneration) (hpolls : t.polls = s.polls)
    (hgeneration : t.busOffGeneration = UInt32.ofNat (t.history.count .busOff))
    (hhistory : t.history = s.history ∨ t.history = .busOff :: s.history)
    (hproduced : s.produced ≤ t.produced)
    (hpending : ∀ sample ∈ t.pending, sample ∈ s.pending ∨ s.produced ≤ sample) :
    RecoveryInvariant task t := by
  have hsuffix : s.history <:+ t.history := by
    rcases hhistory with h | h
    · exact h ▸ List.suffix_rfl
    · exact h ▸ List.suffix_cons _ _
  refine ⟨hgeneration, ?_, ?_, ?_, ?_⟩
  · intro h
    rw [hrecovering] at h
    rw [hrecoveryGeneration]
    rcases hhistory with heq | heq
    · rw [heq]
      exact hI.covered h
    · rw [heq]
      exact (hI.covered h).cons .busOff
  · intro generation before h
    rw [hpc] at h
    obtain ⟨hbefore, hgen, hcovers⟩ := hI.snapshot generation before h
    rw [hrecovering, hrecoveryGeneration]
    exact ⟨hbefore.trans hsuffix, hgen, hcovers⟩
  · rw [hpc]
    exact hI.ready.mono hproduced hpending
  · intro poll hpoll
    rw [hpolls] at hpoll
    obtain ⟨hbefore, hsound⟩ := hI.polls poll hpoll
    exact ⟨hbefore.trans hsuffix, hsound⟩

/-- The end of a poll without a request. -/
theorem RecoveryInvariant.finish (hI : RecoveryInvariant task s) {poll : Poll} {recovering : Bool}
    (hrecovering : recovering = true → s.recovering = true) (hbefore : poll.before <:+ s.history)
    (hsound : PollSound task poll) :
    RecoveryInvariant task ({ s with recovering := recovering }.finish poll) where
  generation := hI.generation
  covered := fun h => hI.covered (hrecovering h)
  snapshot := fun _ _ h => nomatch h
  ready := trivial
  polls := by
    intro p hp
    rcases List.mem_append.mp hp with hp | hp
    · exact hI.polls p hp
    · obtain rfl := List.mem_singleton.mp hp
      exact ⟨hbefore, hsound⟩

/-- The poll goes on with the same snapshot. -/
theorem RecoveryInvariant.proceed (hI : RecoveryInvariant task s) {pc : RecoveryPc}
    {pending : List ℕ} (htaken : pc.taken = s.pc.taken)
    (hready : Ready task pc pending s.produced) :
    RecoveryInvariant task { s with pc := pc, pending := pending } where
  generation := hI.generation
  covered := hI.covered
  snapshot := fun generation before h => hI.snapshot generation before (htaken ▸ h)
  ready := hready
  polls := hI.polls

theorem recoveryInvariant_getInfo (hI : RecoveryInvariant task s) {generation : UInt32}
    {before : List Event} (hpc : s.pc = .read generation before) (ok : Bool) :
    RecoveryInvariant task (getInfo task s generation before ok) := by
  have htaken : s.pc.taken = some (generation, before) := by rw [hpc]; rfl
  obtain ⟨hbefore, hgeneration, hcovers⟩ := hI.snapshot generation before htaken
  unfold getInfo
  split
  · split
    · cases task with
      | sensorNode => exact hI.proceed (by rw [htaken]; rfl) rfl
      | master => exact hI.proceed (by rw [htaken]; rfl) rfl
    · next hnone =>
      split
      · next hdone =>
        exact hI.finish (fun h => nomatch h) hbefore
          ⟨fun hstatus => absurd (Option.some.inj hstatus) hdone.2, Or.inl rfl⟩
      · refine hI.finish id hbefore ⟨fun hstatus => Or.inr fun hfew => ?_, Or.inl rfl⟩
        -- The status is bus-off, so the snapshot is that of a request that has succeeded.
        have hbusOff : s.status = .busOff := Option.some.inj hstatus
        have hrecovering : s.recovering = true := by
          by_contra h
          exact hnone ⟨hbusOff, Or.inl (by simpa using h)⟩
        have hsame : generation = s.recoveryGeneration := by
          by_contra h
          exact hnone ⟨hbusOff, Or.inr h⟩
        exact (hcovers hrecovering).recoveredSince (hsame.symm.trans hgeneration) hfew
  · exact hI.finish id hbefore ⟨fun hstatus => (nomatch hstatus), Or.inl rfl⟩

theorem recoveryInvariant_recover (hI : RecoveryInvariant task s) {generation : UInt32}
    {before : List Event} {actions : List Action} (hpc : s.pc = .recover generation before actions)
    (ok : Bool) : RecoveryInvariant task (recover s generation before actions ok) := by
  have htaken : s.pc.taken = some (generation, before) := by rw [hpc]; rfl
  obtain ⟨hbefore, hgeneration, -⟩ := hI.snapshot generation before htaken
  have hsuffix : s.history <:+ (if ok then .recovered :: s.history else s.history) := by
    split
    · exact List.suffix_cons _ _
    · exact List.suffix_rfl
  have hcount : (if ok then .recovered :: s.history else s.history).count Event.busOff =
      s.history.count .busOff := by
    split
    · exact List.count_cons_of_ne (by decide)
    · rfl
  have hprepared : Prepared task actions s.pending s.produced := by
    have hready := hI.ready
    rwa [hpc] at hready
  have hrequests := hprepared.requests ok
  refine ⟨?_, ?_, (fun _ _ h => nomatch h), trivial, ?_⟩
  · rw [recover, System.finish, hcount]
    exact hI.generation
  · intro h
    obtain rfl : ok = true := h
    exact ⟨[], s.history, before.count Event.busOff, rfl, hbefore.sublist.count_le _, hgeneration⟩
  · intro poll hpoll
    rcases List.mem_append.mp hpoll with hpoll | hpoll
    · obtain ⟨hsub, hsound⟩ := hI.polls poll hpoll
      exact ⟨hsub.trans hsuffix, hsound⟩
    · obtain rfl := List.mem_singleton.mp hpoll
      exact ⟨hbefore.trans hsuffix, fun _ => Or.inl hrequests, Or.inr hrequests⟩

theorem recoveryInvariant_step {label : Label} (hI : RecoveryInvariant task s)
    (h : step task s label = some t) : RecoveryInvariant task t := by
  cases label with
  | stateChangeCallback =>
    obtain rfl := Option.some.inj h
    refine hI.outside rfl rfl rfl rfl ?_ (Or.inr rfl) (Nat.le_refl _) (fun _ h => Or.inl h)
    dsimp only
    rw [hI.generation, List.count_cons_self, UInt32.ofNat_add]
    rfl
  | showBusOff =>
    simp only [step] at h
    split at h
    · obtain rfl := Option.some.inj h
      exact hI.outside rfl rfl rfl rfl hI.generation (Or.inl rfl) (Nat.le_refl _)
        (fun _ h => Or.inl h)
    · cases h
  | leaveBusOff status =>
    simp only [step] at h
    split at h
    · obtain rfl := Option.some.inj h
      exact hI.outside rfl rfl rfl rfl hI.generation (Or.inl rfl) (Nat.le_refl _)
        (fun _ h => Or.inl h)
    · cases h
  | sample =>
    cases task with
    | sensorNode =>
      obtain rfl := Option.some.inj h
      refine hI.outside rfl rfl rfl rfl hI.generation (Or.inl rfl) (Nat.le_succ _) ?_
      intro sample hsample
      rcases List.mem_append.mp hsample with hsample | hsample
      · exact Or.inl hsample
      · exact Or.inr (Nat.le_of_eq (List.mem_singleton.mp hsample).symm)
    | master => cases h
  | send =>
    obtain rfl := Option.some.inj h
    exact hI.outside rfl rfl rfl rfl hI.generation (Or.inl rfl) (Nat.le_refl _)
      (fun _ h => Or.inl (List.mem_of_mem_tail h))
  | snapshot =>
    simp only [step] at h
    split at h
    · next hpc =>
      obtain rfl := Option.some.inj h
      refine ⟨hI.generation, hI.covered, ?_, trivial, hI.polls⟩
      intro generation before htaken
      cases htaken
      exact ⟨List.suffix_rfl, hI.generation, hI.covered⟩
    · cases h
  | getInfo ok =>
    simp only [step] at h
    split at h
    · next generation before hpc =>
      obtain rfl := Option.some.inj h
      exact recoveryInvariant_getInfo hI hpc ok
    · cases h
  | onBusOff =>
    simp only [step] at h
    split at h
    · next generation before hpc =>
      obtain rfl := Option.some.inj h
      have hready := hI.ready
      rw [hpc] at hready
      obtain rfl : task = .sensorNode := hready
      exact hI.proceed (by rw [hpc]; rfl)
        ⟨s.produced, Nat.le_refl _, rfl, fun _ hsample => nomatch hsample⟩
    · cases h
  | recover ok =>
    simp only [step] at h
    split at h
    · next generation before actions hpc =>
      obtain rfl := Option.some.inj h
      exact recoveryInvariant_recover hI hpc ok
    · cases h

/-- With fewer than 2 ^ 32 bus-offs, every poll that reads bus-off requests recovery itself unless a
request has succeeded after every bus-off before its snapshot, and in the node every request comes
after a discard of the pending samples. -/
theorem busOff_recovered_of_run {labels : List Label} (h : Run (step task) Free .start labels s)
    (hfew : s.history.count .busOff < 2 ^ 32) :
    ∀ poll ∈ s.polls, (poll.status = some .busOff →
        Requests task poll.actions ∨ RecoveredSince poll.before) ∧
      (poll.actions = [] ∨ Requests task poll.actions) := by
  have hI := h.invariant (recoveryInvariant_start task)
    (fun _ _ _ hI _ hs => recoveryInvariant_step hI hs)
  intro poll hpoll
  obtain ⟨hbefore, hsound⟩ := hI.polls poll hpoll
  refine ⟨fun hstatus => ?_, hsound.calls⟩
  rcases hsound.requested hstatus with hrequests | hrecovered
  · exact Or.inl hrequests
  · exact Or.inr (hrecovered (Nat.lt_of_le_of_lt (hbefore.sublist.count_le _) hfew))

/-- A bus-off whose first request fails, and a second one before the status was seen healthy. -/
def busOffTwice : List Label :=
  [.sample, .stateChangeCallback, .showBusOff, .snapshot, .getInfo true, .onBusOff, .sample,
    .recover false, .snapshot, .getInfo true, .onBusOff, .recover true, .snapshot, .getInfo true,
    .leaveBusOff .active, .stateChangeCallback, .showBusOff, .snapshot, .getInfo true, .onBusOff,
    .recover true]

theorem busOffTwice_recovered :
    ∃ s, Run (step .sensorNode) Free .start busOffTwice s ∧
      s.polls.map (fun poll => poll.actions.length) = [2, 2, 0, 2] ∧
      ∀ poll ∈ s.polls, (poll.status = some .busOff →
          Requests .sensorNode poll.actions ∨ RecoveredSince poll.before) ∧
        (poll.actions = [] ∨ Requests .sensorNode poll.actions) := by
  have h : Run (step .sensorNode) Free .start busOffTwice _ := Run.of_exec_free rfl
  exact ⟨_, h, rfl, busOff_recovered_of_run h (by decide)⟩

end BajaDaq.BusOffRecovery
