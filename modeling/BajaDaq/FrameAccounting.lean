import BajaDaq.RacingCounter
import BajaDaq.SamplePipeline
import BajaDaq.SessionIsolation

/-!
# What becomes of every frame that the master receives

`receive_callback` and its queue, `dispatch_task` with `handle_can_message`, the GPS task with
`handle_gps_sample`, and `data_logger_enqueue`, called by both tasks, in front of the logger. The
state adds a history: the messages that the receive queue took and those that it refused, the
messages handled, and the fate of every sample offered to the logger.
-/

namespace BajaDaq.FrameAccounting
open AppProtocol LoggerSessions RacingCounter SamplePipeline SessionIsolation TransitionRuns
open LogFiles (QueuedSample recordBytes utcBytes)

def canRxQueueLength : ℕ := 256

/-- The tasks that call `data_logger_enqueue`. -/
inductive Producer where
  | dispatch
  | gps
  deriving DecidableEq, Repr

/-- Where such a task stands: outside `data_logger_enqueue`, in front of its test of the state,
between the test and the send, or in `queue_drops++`. -/
inductive Pc where
  | idle
  | offer (message : CanMessage)
  | send (message : CanMessage)
  | count
  deriving DecidableEq, Repr

/-- The sample inside `data_logger_enqueue`. -/
def Pc.undecided : Pc → List CanMessage
  | .offer message | .send message => [message]
  | .idle | .count => []

/-- The sample that has passed the test of the state. -/
def Pc.tested : Pc → Option CanMessage
  | .send message => some message
  | _ => none

inductive Outcome where
  | notRunning
  | refused
  | accepted (queued : Tagged)
  deriving DecidableEq, Repr

structure Fate where
  producer : Producer
  message : CanMessage
  outcome : Outcome
  deriving DecidableEq, Repr

def Fate.queued (fate : Fate) : Option Tagged :=
  match fate.outcome with
  | .accepted queued => some queued
  | _ => none

structure Master where
  rxQueue : List CanMessage
  rxDrops : UInt32
  pc : Producer → Pc
  logger : Logger Producer
  queueDrops : Counter Producer UInt32
  received : List CanMessage
  refusedFrames : List CanMessage
  handled : List CanMessage
  emitted : List CanMessage
  fates : List Fate

namespace Master

def start : Master := ⟨[], 0, fun _ => .idle, .start, .start 0, [], [], [], [], []⟩

def goto (s : Master) (p : Producer) (pc : Pc) : Master :=
  { s with pc := Function.update s.pc p pc }

def settle (s : Master) (p : Producer) (message : CanMessage) (outcome : Outcome) : Master :=
  { s with fates := s.fates ++ [⟨p, message, outcome⟩] }

/-- The samples that the task has offered to the logger. -/
def offered (s : Master) : Producer → List CanMessage
  | .dispatch => s.handled.filter fun message => handleCanMessage message = .sample
  | .gps => s.emitted

def decidedOf (s : Master) (p : Producer) : List CanMessage :=
  (s.fates.filter fun fate => fate.producer = p).map Fate.message

/-- The samples that the logger's queue has refused. -/
def refusals (s : Master) : ℕ := s.fates.countP fun fate => fate.outcome = .refused

def isCounting (s : Master) (p : Producer) : ℕ := if s.pc p = .count then 1 else 0

/-- The refusals whose increment has not been stored. -/
def counting (s : Master) : ℕ := s.isCounting .dispatch + s.isCounting .gps

end Master

/-- `emit_sample` of the GPS task. -/
def isGpsSample (message : CanMessage) : Bool :=
  (message.id == canIdGpsSpeed || message.id == canIdGpsLatitude ||
    message.id == canIdGpsLongitude) && message.dlc == 8

inductive Label where
  /-- `twai_node_receive_from_isr` returns a frame -/
  | receive (frame : TwaiFrame)
  | handle
  | emit (message : CanMessage)
  | test (p : Producer) (utcMs : Int64)
  | send (p : Producer)
  | loadDrops (p : Producer)
  | storeDrops (p : Producer)
  /-- a step of the control task or of the writer -/
  | logger (a : LoggerSessions.Label Producer)
  deriving DecidableEq, Repr

def isEnqueue : LoggerSessions.Label Producer → Bool
  | .test .. | .send _ => true
  | _ => false

def step (s : Master) (a : Label) : Option Master :=
  match a with
  | .receive frame =>
    let message := receiveCallback frame
    if s.rxQueue.length < canRxQueueLength then
      some { s with
        rxQueue := s.rxQueue ++ [message], received := s.received ++ [message] }
    else
      some { s with
        rxDrops := s.rxDrops + 1, refusedFrames := s.refusedFrames ++ [message] }
  | .handle =>
    match s.pc .dispatch, s.rxQueue with
    | .idle, message :: rest =>
      let s := { s with rxQueue := rest, handled := s.handled ++ [message] }
      some (if handleCanMessage message = .sample then s.goto .dispatch (.offer message) else s)
    | _, _ => none
  | .emit message =>
    if s.pc .gps = .idle ∧ isGpsSample message then
      some ({ s with emitted := s.emitted ++ [message] }.goto .gps (.offer message))
    else none
  | .test p utcMs =>
    match s.pc p with
    | .offer message =>
      (LoggerSessions.step s.logger (.test p ⟨message, utcMs⟩)).map fun logger =>
        let t := { s with logger := logger }
        if s.logger.state = .running then t.goto p (.send message)
        else (t.settle p message .notRunning).goto p .idle
    | _ => none
  | .send p =>
    match s.pc p, s.logger.pending p with
    | .send message, some queued =>
      (LoggerSessions.step s.logger (.send p)).map fun logger =>
        let t := { s with logger := logger }
        if s.logger.queue.length < logQueueLength then
          (t.settle p message (.accepted queued)).goto p .idle
        else (t.settle p message .refused).goto p .count
    | _, _ => none
  | .loadDrops p =>
    if s.pc p = .count ∧ s.queueDrops.loaded p = none then
      some { s with queueDrops := s.queueDrops.load p }
    else none
  | .storeDrops p =>
    (s.queueDrops.store (· + 1) p).map fun queueDrops =>
      { s with queueDrops := queueDrops }.goto p .idle
  | .logger a =>
    if isEnqueue a then none
    else (LoggerSessions.step s.logger a).map fun logger => { s with logger := logger }

section Master
variable (s : Master) (p q : Producer)

@[simp] theorem pc_goto (pc : Pc) : (s.goto p pc).pc q = if q = p then pc else s.pc q :=
  Function.update_apply s.pc p pc q

@[simp] theorem offered_goto (pc : Pc) : (s.goto p pc).offered q = s.offered q := by
  cases q <;> rfl

@[simp] theorem offered_logger (logger : Logger Producer) :
    Master.offered { s with logger := logger } q = s.offered q := by
  cases q <;> rfl

@[simp] theorem decidedOf_goto (pc : Pc) : (s.goto p pc).decidedOf q = s.decidedOf q := rfl

@[simp] theorem offered_settle (message : CanMessage) (outcome : Outcome) :
    (s.settle p message outcome).offered q = s.offered q := by
  cases q <;> rfl

@[simp] theorem decidedOf_settle (message : CanMessage) (outcome : Outcome) :
    (s.settle p message outcome).decidedOf q =
      s.decidedOf q ++ if q = p then [message] else [] := by
  simp only [Master.decidedOf, Master.settle, List.filter_append, List.map_append]
  by_cases hq : q = p
  · subst hq
    simp
  · simp [hq, Ne.symm hq]

end Master

/-- Whatever the writer does, it leaves the samples of the producers alone, does not fill the
queue, and at most closes the files of the session. -/
structure WriterFrame (s t : Logger Producer) : Prop where
  pending : t.pending = s.pending
  accepted : t.accepted = s.accepted
  queue : t.queue.length ≤ s.queue.length
  closed : t.closed = s.closed ∨
    s.writer = .close ∧ ∃ log utc, t.closed = s.closed ++ [⟨s.session, log, utc⟩]

theorem writerFrame_of_step {s t : Logger Producer} {due : Bool} (h : s.writerStep due = some t) :
    WriterFrame s t := by
  unfold Logger.writerStep at h
  split at h
  next =>
    split at h
    next =>
      obtain rfl := Option.some.inj h
      exact ⟨rfl, rfl, le_rfl, .inl rfl⟩
    next hqueue =>
      obtain rfl := Option.some.inj h
      exact ⟨rfl, rfl, by simp [hqueue], .inl rfl⟩
  next =>
    obtain rfl := of_unlessMutexHeld h
    exact ⟨rfl, rfl, le_rfl, .inl rfl⟩
  next => split_ifs at h <;> obtain rfl := Option.some.inj h <;> exact ⟨rfl, rfl, le_rfl, .inl rfl⟩
  next =>
    obtain rfl := of_unlessMutexHeld h
    split <;> exact ⟨rfl, rfl, le_rfl, .inl rfl⟩
  next =>
    obtain rfl := of_unlessMutexHeld h
    exact ⟨rfl, rfl, le_rfl, .inl rfl⟩
  next => split_ifs at h <;> obtain rfl := Option.some.inj h <;> exact ⟨rfl, rfl, le_rfl, .inl rfl⟩
  next =>
    obtain rfl := of_unlessMutexHeld h
    exact ⟨rfl, rfl, le_rfl, .inl rfl⟩
  next hw =>
    obtain rfl := of_unlessMutexHeld h
    exact ⟨rfl, rfl, le_rfl, .inr ⟨hw, _, _, rfl⟩⟩
  next =>
    obtain rfl := Option.some.inj h
    exact ⟨rfl, rfl, le_rfl, .inl rfl⟩

theorem writerFrame_of_control {s t : Logger Producer} {a : LoggerSessions.Label Producer}
    (ha : isEnqueue a = false) (h : LoggerSessions.step s a = some t) : WriterFrame s t := by
  cases a with
  | test p x => cases ha
  | send p => cases ha
  | create c =>
    simp only [LoggerSessions.step] at h
    split_ifs at h
    cases c <;> obtain rfl := Option.some.inj h <;> exact ⟨rfl, rfl, le_rfl, .inl rfl⟩
  | write due => exact writerFrame_of_step h
  | reset =>
    simp only [LoggerSessions.step] at h
    split_ifs at h
    obtain rfl := Option.some.inj h
    exact ⟨rfl, rfl, Nat.zero_le _, .inl rfl⟩
  | start | publish | stop =>
    simp only [LoggerSessions.step] at h
    split_ifs at h <;> obtain rfl := Option.some.inj h <;> exact ⟨rfl, rfl, le_rfl, .inl rfl⟩

/-- The samples of one task: those decided and the one that it holds. -/
structure TaskAccounted (s : Master) (p : Producer) : Prop where
  offered : s.offered p = s.decidedOf p ++ (s.pc p).undecided
  tested : (s.logger.pending p).map (fun queued => queued.sample.message) = (s.pc p).tested
  loaded : s.queueDrops.loaded p ≠ none → s.pc p = .count

structure Accounted (s : Master) : Prop where
  received : s.received = s.handled ++ s.rxQueue
  rx_drops : s.rxDrops = .ofNat s.refusedFrames.length
  task : ∀ p, TaskAccounted s p
  accepted : s.logger.accepted = s.fates.filterMap Fate.queued
  queued : ∀ fate ∈ s.fates, ∀ queued ∈ fate.queued, queued.sample.message = fate.message
  refusals : s.refusals = s.queueDrops.stores + s.counting
  behind : Behind UInt32.ofNat s.queueDrops

theorem accounted_start : Accounted .start where
  received := rfl
  rx_drops := rfl
  task p := ⟨by cases p <;> rfl, rfl, absurd rfl⟩
  accepted := rfl
  queued := by simp [Master.start]
  refusals := rfl
  behind := behind_start

variable {s t : Master} {p q : Producer}

/-- A step of another task. -/
theorem TaskAccounted.other (h : TaskAccounted s q) (hpc : t.pc q = s.pc q)
    (hoffered : t.offered q = s.offered q) (hdecided : t.decidedOf q = s.decidedOf q)
    (hpending : t.logger.pending q = s.logger.pending q)
    (hloaded : t.queueDrops.loaded q = s.queueDrops.loaded q) : TaskAccounted t q where
  offered := by rw [hoffered, hdecided, hpc, h.offered]
  tested := by rw [hpending, hpc, h.tested]
  loaded := by
    rw [hloaded, hpc]
    exact h.loaded

theorem counting_goto (p : Producer) (pc : Pc) :
    (s.goto p pc).counting + s.isCounting p =
      s.counting + if pc = .count then 1 else 0 := by
  cases p <;> simp [Master.counting, Master.isCounting] <;> omega

theorem isCounting_of_ne (h : s.pc p ≠ .count) : s.isCounting p = 0 := if_neg h

theorem loaded_eq_none (h : TaskAccounted s p) (hpc : s.pc p ≠ .count) :
    s.queueDrops.loaded p = none :=
  not_not.mp (mt h.loaded hpc)

theorem accounted_receive (h : Accounted s) {frame : TwaiFrame}
    (hs : step s (.receive frame) = some t) : Accounted t := by
  simp only [step] at hs
  split at hs <;> obtain rfl := Option.some.inj hs
  · refine { h with
      received := by simp [h.received]
      task := fun q => (h.task q).other rfl ?_ rfl rfl rfl }
    cases q <;> rfl
  · refine { h with
      rx_drops := by simp [h.rx_drops, UInt32.ofNat_add]
      task := fun q => (h.task q).other rfl ?_ rfl rfl rfl }
    cases q <;> rfl

theorem offered_handled (s : Master) (rest : List CanMessage) (message : CanMessage) :
    Master.offered { s with rxQueue := rest, handled := s.handled ++ [message] } .dispatch =
      s.offered .dispatch ++ if handleCanMessage message = .sample then [message] else [] := by
  simp only [Master.offered, List.filter_append]
  by_cases hsample : handleCanMessage message = .sample <;> simp [hsample]

theorem accounted_handle (h : Accounted s) (hs : step s .handle = some t) : Accounted t := by
  simp only [step] at hs
  split at hs
  next message rest hpc hqueue =>
    have hreceived : s.received = (s.handled ++ [message]) ++ rest := by
      simp [h.received, hqueue]
    have hold := h.task .dispatch
    have hidle : s.pc .dispatch ≠ .count := by simp [hpc]
    have hoffered := offered_handled s rest message
    have hdecided : s.offered .dispatch = s.decidedOf .dispatch := by
      simp [hold.offered, hpc, Pc.undecided]
    split at hs
    next hsample =>
      obtain rfl := Option.some.inj hs
      rw [if_pos hsample, hdecided] at hoffered
      refine { h with received := hreceived, task := ?_, refusals := ?_ }
      · intro q
        cases q with
        | dispatch =>
          refine ⟨hoffered, ?_, fun hne => absurd (loaded_eq_none hold hidle) hne⟩
          rw [pc_goto, if_pos rfl]
          exact hold.tested.trans (by rw [hpc]; rfl)
        | gps => exact (h.task .gps).other rfl rfl rfl rfl rfl
      · have hcount := counting_goto (s := s) .dispatch (.offer message)
        rw [isCounting_of_ne hidle, if_neg (by simp)] at hcount
        exact h.refusals.trans (congrArg _ hcount.symm)
    next hsample =>
      obtain rfl := Option.some.inj hs
      rw [if_neg hsample, List.append_nil] at hoffered
      refine { h with received := hreceived, task := ?_ }
      intro q
      cases q with
      | dispatch => exact hold.other rfl hoffered rfl rfl rfl
      | gps => exact (h.task .gps).other rfl rfl rfl rfl rfl
  next => cases hs

theorem accounted_emit (h : Accounted s) {message : CanMessage}
    (hs : step s (.emit message) = some t) : Accounted t := by
  simp only [step] at hs
  split at hs
  next hemit =>
    obtain rfl := Option.some.inj hs
    have hpc := hemit.1
    have hold := h.task .gps
    have hidle : s.pc .gps ≠ .count := by simp [hpc]
    have hdecided : s.offered .gps = s.decidedOf .gps := by
      simp [hold.offered, hpc, Pc.undecided]
    refine { h with task := ?_, refusals := ?_ }
    · intro q
      cases q with
      | dispatch => exact (h.task .dispatch).other rfl rfl rfl rfl rfl
      | gps =>
        refine ⟨congrArg (· ++ [message]) hdecided, ?_,
          fun hne => absurd (loaded_eq_none hold hidle) hne⟩
        rw [pc_goto, if_pos rfl]
        exact hold.tested.trans (by rw [hpc]; rfl)
    · have hcount := counting_goto (s := s) .gps (.offer message)
      rw [isCounting_of_ne hidle, if_neg (by simp)] at hcount
      exact h.refusals.trans (congrArg _ hcount.symm)
  next => cases hs

theorem refusals_settle (message : CanMessage) (outcome : Outcome) :
    (s.settle p message outcome).refusals =
      s.refusals + if outcome = .refused then 1 else 0 := by
  simp [Master.refusals, Master.settle, List.countP_append, List.countP_cons]

theorem tested_of_undecided {pc : Pc} (h : pc.undecided = []) : pc.tested = none := by
  cases pc with
  | send message => cases h
  | idle | offer | count => rfl

/-- A task leaves `data_logger_enqueue`, or its send is refused. -/
theorem accounted_settle (h : Accounted s) {message : CanMessage} {outcome : Outcome} {pc : Pc}
    {logger : Logger Producer} (hold : (s.pc p).undecided = [message])
    (hnew : pc.undecided = []) (htested : logger.pending p = none)
    (hothers : ∀ q ≠ p, logger.pending q = s.logger.pending q)
    (hcount : pc = .count ↔ outcome = .refused)
    (haccepted : logger.accepted =
      s.logger.accepted ++ (Fate.queued ⟨p, message, outcome⟩).toList)
    (hqueued : ∀ queued ∈ Fate.queued ⟨p, message, outcome⟩, queued.sample.message = message) :
    Accounted (({ s with logger := logger }.settle p message outcome).goto p pc) := by
  have hpc : s.pc p ≠ .count := by
    intro hs
    rw [hs] at hold
    cases hold
  have hloaded := loaded_eq_none (h.task p) hpc
  refine { h with task := ?_, accepted := ?_, queued := ?_, refusals := ?_ }
  · intro q
    by_cases hq : q = p
    · subst hq
      refine ⟨?_, ?_, fun hne => absurd hloaded hne⟩
      · simp only [offered_goto, offered_settle, offered_logger, decidedOf_goto, decidedOf_settle,
          pc_goto, if_true, hnew, List.append_nil]
        exact (h.task q).offered.trans (congrArg _ hold)
      · rw [pc_goto, if_pos rfl, tested_of_undecided hnew]
        exact congrArg _ htested
    · refine (h.task q).other ?_ ?_ ?_ (hothers q hq) rfl
      · rw [pc_goto, if_neg hq]
        rfl
      · rw [offered_goto, offered_settle, offered_logger]
      · rw [decidedOf_goto, decidedOf_settle, if_neg hq, List.append_nil]
        rfl
  · have hlast : [(⟨p, message, outcome⟩ : Fate)].filterMap Fate.queued =
        (Fate.queued ⟨p, message, outcome⟩).toList := by
      cases outcome <;> rfl
    exact haccepted.trans (by rw [h.accepted, ← hlast, ← List.filterMap_append]; rfl)
  · intro fate hfate
    rcases List.mem_append.mp hfate with hfate | hfate
    · exact h.queued fate hfate
    · obtain rfl := List.mem_singleton.mp hfate
      exact hqueued
  · have hrefusals := refusals_settle (s := { s with logger := logger }) (p := p) message outcome
    have hgoto := counting_goto (s := s) p pc
    rw [isCounting_of_ne hpc] at hgoto
    simp only [hcount] at hgoto
    have hold := h.refusals
    change (Master.settle { s with logger := logger } p message outcome).refusals =
      s.queueDrops.stores + (s.goto p pc).counting
    rw [hrefusals]
    change s.refusals + _ = _
    omega

theorem accounted_test (h : Accounted s) {utcMs : Int64} (hs : step s (.test p utcMs) = some t) :
    Accounted t := by
  simp only [step] at hs
  split at hs
  next message hpc =>
    have hold := h.task p
    have hpending : s.logger.pending p = none := by
      have htested := hold.tested
      rw [hpc] at htested
      exact Option.map_eq_none_iff.mp htested
    have hcount : s.pc p ≠ .count := by simp [hpc]
    simp only [LoggerSessions.step, hpending, if_true] at hs
    by_cases hrunning : s.logger.state = .running
    · simp only [hrunning, if_true, Option.map_some] at hs
      obtain rfl := Option.some.inj hs
      refine { h with task := ?_, refusals := ?_ }
      · intro q
        by_cases hq : q = p
        · subst hq
          refine ⟨?_, ?_, fun hne => absurd (loaded_eq_none hold hcount) hne⟩
          · simp only [offered_goto, offered_logger, pc_goto, if_true]
            exact hold.offered.trans (by rw [hpc]; rfl)
          · rw [pc_goto, if_pos rfl]
            exact congrArg _ (Function.update_self ..)
        · refine (h.task q).other ?_ ?_ rfl (Function.update_of_ne hq ..) rfl
          · rw [pc_goto, if_neg hq]
          · rw [offered_goto, offered_logger]
      · have hgoto := counting_goto (s := s) p (.send message)
        rw [isCounting_of_ne hcount, if_neg (by simp)] at hgoto
        exact h.refusals.trans (congrArg _ hgoto.symm)
    · simp only [hrunning, if_false, Option.map_some] at hs
      obtain rfl := Option.some.inj hs
      exact accounted_settle h (by rw [hpc]; rfl) rfl hpending (fun _ _ => rfl) (by simp)
        (List.append_nil _).symm (by simp [Fate.queued])
  next => cases hs

theorem accounted_send (h : Accounted s) (hs : step s (.send p) = some t) : Accounted t := by
  simp only [step] at hs
  split at hs
  next message queued hpc hpending =>
    have hmessage : queued.sample.message = message := by
      have htested := (h.task p).tested
      rw [hpc, hpending] at htested
      exact Option.some.inj htested
    have hupdate : Function.update s.logger.pending p none p = none := Function.update_self ..
    have hothers : ∀ q ≠ p, Function.update s.logger.pending p none q = s.logger.pending q :=
      fun q hq => Function.update_of_ne hq ..
    simp only [LoggerSessions.step, hpending] at hs
    by_cases hroom : s.logger.queue.length < logQueueLength
    · simp only [hroom, if_true, Option.map_some] at hs
      obtain rfl := Option.some.inj hs
      refine accounted_settle h (by rw [hpc]; rfl) rfl hupdate hothers (by simp) rfl ?_
      intro x hx
      obtain rfl := Option.some.inj hx
      exact hmessage
    · simp only [hroom, if_false, Option.map_some] at hs
      obtain rfl := Option.some.inj hs
      exact accounted_settle h (by rw [hpc]; rfl) rfl hupdate hothers (by simp)
        (List.append_nil _).symm (by simp [Fate.queued])
  next => cases hs

theorem accounted_loadDrops (h : Accounted s) (hs : step s (.loadDrops p) = some t) :
    Accounted t := by
  simp only [step] at hs
  split at hs
  next hcount =>
    obtain rfl := Option.some.inj hs
    refine { h with task := ?_, behind := h.behind.load p }
    intro q
    have hq := h.task q
    refine ⟨?_, hq.tested, ?_⟩
    · cases q <;> exact hq.offered
    · rw [Counter.loaded_load]
      split
      next hpq => exact fun _ => hpq ▸ hcount.1
      next => exact hq.loaded
  next => cases hs

theorem accounted_storeDrops (h : Accounted s) (hs : step s (.storeDrops p) = some t) :
    Accounted t := by
  obtain ⟨queueDrops, hstore, rfl⟩ := Option.map_eq_some_iff.mp hs
  have hbehind := h.behind.store (fun n => (UInt32.ofNat_add n 1).symm) hstore
  obtain ⟨v, hv, -, hstores, hloaded⟩ := Counter.store_eq_some hstore
  have hpc : s.pc p = .count := (h.task p).loaded (by simp [hv])
  refine { h with task := ?_, refusals := ?_, behind := hbehind }
  · intro q
    by_cases hq : q = p
    · subst hq
      have hold := h.task q
      have hoffered : s.offered q = s.decidedOf q := by
        simp [hold.offered, hpc, Pc.undecided]
      refine ⟨?_, ?_, fun hne => absurd ((hloaded q).trans (if_pos rfl)) hne⟩
      · rw [pc_goto, if_pos rfl, Pc.undecided, List.append_nil]
        cases q <;> exact hoffered
      · rw [pc_goto, if_pos rfl]
        exact hold.tested.trans (by rw [hpc]; rfl)
    · refine (h.task q).other ?_ ?_ rfl rfl ?_
      · rw [pc_goto, if_neg hq]
      · cases q <;> rfl
      · exact (hloaded q).trans (if_neg hq)
  · have hgoto := counting_goto (s := s) p .idle
    have hone : s.isCounting p = 1 := if_pos hpc
    rw [if_neg (by simp)] at hgoto
    have hold := h.refusals
    change s.refusals = queueDrops.stores + (s.goto p .idle).counting
    omega

theorem accounted_logger (h : Accounted s) {a : LoggerSessions.Label Producer}
    (hs : step s (.logger a) = some t) : Accounted t := by
  simp only [step] at hs
  split at hs
  next => cases hs
  next ha =>
    obtain ⟨logger, hlogger, rfl⟩ := Option.map_eq_some_iff.mp hs
    have hframe := writerFrame_of_control (by simpa using ha) hlogger
    refine { h with accepted := hframe.accepted.trans h.accepted, task := ?_ }
    intro q
    exact (h.task q).other rfl (offered_logger ..) rfl (congrFun hframe.pending q) rfl

theorem accounted_step {a : Label} (h : Accounted s) (hs : step s a = some t) : Accounted t := by
  cases a with
  | receive frame => exact accounted_receive h hs
  | handle => exact accounted_handle h hs
  | emit message => exact accounted_emit h hs
  | test p utcMs => exact accounted_test h hs
  | send p => exact accounted_send h hs
  | loadDrops p => exact accounted_loadDrops h hs
  | storeDrops p => exact accounted_storeDrops h hs
  | logger a => exact accounted_logger h hs

theorem accounted_of_run {C : Master → Label → Prop} {labels : List Label}
    (h : Run step C .start labels s) : Accounted s :=
  h.invariant accounted_start fun _ _ _ hI _ hs => accounted_step hI hs

/-- An increment of `queue_drops` begins while no other is going on. -/
def Apart (s : Master) : Label → Prop
  | .loadDrops p => ∀ q, s.queueDrops.loaded q ≠ none → q = p
  | _ => True

/-- What a step does to the counter and to the logger; only a test or a send touches a sample inside
`data_logger_enqueue`. -/
structure StepParts (s t : Master) (a : Label) : Prop where
  queue_drops : t.queueDrops = s.queueDrops ∨
    (∃ p, a = .loadDrops p ∧ t.queueDrops = s.queueDrops.load p) ∨
    ∃ p, s.queueDrops.store (· + 1) p = some t.queueDrops
  logger : t.logger = s.logger ∨ ∃ b, LoggerSessions.step s.logger b = some t.logger ∧
    ∀ p, b = .send p → a = .send p
  untouched : (∀ p utcMs, a ≠ .test p utcMs) → (∀ p, a ≠ .send p) →
    t.fates = s.fates ∧ t.logger.pending = s.logger.pending

theorem stepParts_of_step {a : Label} (hs : step s a = some t) : StepParts s t a := by
  cases a with
  | receive frame =>
    simp only [step] at hs
    split_ifs at hs <;> obtain rfl := Option.some.inj hs <;>
      exact ⟨.inl rfl, .inl rfl, fun _ _ => ⟨rfl, rfl⟩⟩
  | handle =>
    simp only [step] at hs
    split at hs
    · obtain rfl := Option.some.inj hs
      split <;> exact ⟨.inl rfl, .inl rfl, fun _ _ => ⟨rfl, rfl⟩⟩
    · cases hs
  | emit message =>
    simp only [step] at hs
    split_ifs at hs
    obtain rfl := Option.some.inj hs
    exact ⟨.inl rfl, .inl rfl, fun _ _ => ⟨rfl, rfl⟩⟩
  | test p utcMs =>
    simp only [step] at hs
    split at hs
    next message _ =>
      obtain ⟨logger, hlogger, rfl⟩ := Option.map_eq_some_iff.mp hs
      split <;> exact ⟨.inl rfl, .inr ⟨.test p ⟨message, utcMs⟩, hlogger, nofun⟩,
        fun hne _ => absurd rfl (hne p utcMs)⟩
    next => cases hs
  | send p =>
    simp only [step] at hs
    split at hs
    next =>
      obtain ⟨logger, hlogger, rfl⟩ := Option.map_eq_some_iff.mp hs
      have hsend : ∀ q, LoggerSessions.Label.send p = .send q → Label.send p = .send q :=
        fun q hq => congrArg _ (LoggerSessions.Label.send.inj hq)
      split <;> exact ⟨.inl rfl, .inr ⟨.send p, hlogger, hsend⟩, fun _ hne => absurd rfl (hne p)⟩
    next => cases hs
  | loadDrops p =>
    simp only [step] at hs
    split_ifs at hs
    obtain rfl := Option.some.inj hs
    exact ⟨.inr (.inl ⟨p, rfl, rfl⟩), .inl rfl, fun _ _ => ⟨rfl, rfl⟩⟩
  | storeDrops p =>
    obtain ⟨queueDrops, hstore, rfl⟩ := Option.map_eq_some_iff.mp hs
    exact ⟨.inr (.inr ⟨p, hstore⟩), .inl rfl, fun _ _ => ⟨rfl, rfl⟩⟩
  | logger a =>
    simp only [step] at hs
    split_ifs at hs with ha
    obtain ⟨logger, hlogger, rfl⟩ := Option.map_eq_some_iff.mp hs
    have hframe := writerFrame_of_control (by simpa using ha) hlogger
    exact ⟨.inl rfl, .inr ⟨a, hlogger, fun p hp => by simp [hp, isEnqueue] at ha⟩,
      fun _ _ => ⟨rfl, hframe.pending⟩⟩

theorem exact_step {a : Label} (h : Exact UInt32.ofNat s.queueDrops) (hC : Apart s a)
    (hs : step s a = some t) : Exact UInt32.ofNat t.queueDrops := by
  rcases (stepParts_of_step hs).queue_drops with hsame | ⟨p, rfl, hload⟩ | ⟨p, hstore⟩
  · rw [hsame]
    exact h
  · rw [hload]
    exact h.load hC
  · exact h.store (fun n => (UInt32.ofNat_add n 1).symm) hstore

/-- `rx_drops` counts the refused messages, modulo 2^32. `queue_drops` never counts more samples
than were refused, and some once a refusal has been counted; it counts them all if no two tasks
increment it at a time. -/
theorem dropCounts_of_run {labels : List Label} (h : Run step Free .start labels s) :
    s.rxDrops = .ofNat s.refusedFrames.length ∧
      ∃ n, s.queueDrops.value = .ofNat n ∧ n + s.counting ≤ s.refusals ∧
        (s.counting < s.refusals → 0 < n) ∧
        (Run step Apart .start labels s → n + s.counting = s.refusals) := by
  have hI := accounted_of_run h
  have hrefusals := hI.refusals
  refine ⟨hI.rx_drops, ?_⟩
  by_cases hapart : Run step Apart .start labels s
  · have hexact : Exact UInt32.ofNat s.queueDrops :=
      hapart.invariant exact_start fun _ _ _ hE hC hs => exact_step hE hC hs
    exact ⟨s.queueDrops.stores, hexact.value, by omega, by omega, fun _ => by omega⟩
  · obtain ⟨n, hn, hvalue, hpos⟩ := hI.behind.value
    exact ⟨n, hvalue, by omega, fun hlt => hpos (by omega), fun hrun => absurd hrun hapart⟩

/-- 3000 rpm of the engine, 1000 ms after the master has started. -/
def engineFrame : TwaiFrame := sendTask ⟨canIdEngineRpm, 1000, 3000⟩

def startSession : List Label :=
  [.logger .start, .logger (.create .created), .logger .reset, .logger .publish]

def enqueueFrame : List Label :=
  [.receive engineFrame, .handle, .test .dispatch 1700000000000, .send .dispatch]

def enqueueSpeed : List Label := [.emit ⟨canIdGpsSpeed, 8, 0⟩, .test .gps 0, .send .gps]

/-- Both tasks find the queue full, and load `queue_drops` before either stores it. -/
def refusedTwice : List Label :=
  startSession ++ (List.replicate 257 enqueueSpeed).flatten ++ enqueueFrame ++
    [.loadDrops .dispatch, .loadDrops .gps, .storeDrops .dispatch, .storeDrops .gps]

theorem refusedTwice_dropCounts : ∃ s, Run step Free .start refusedTwice s ∧ s.refusals = 2 ∧
    s.queueDrops.value = 1 ∧ ∃ n, s.queueDrops.value = .ofNat n ∧ n ≤ 2 ∧ 0 < n := by
  have heval : (exec step .start refusedTwice).map (fun s =>
      (s.refusals, s.queueDrops.value, s.counting)) = some (2, 1, 0) := by
    decide +kernel
  obtain ⟨s, hs, hcounts⟩ := Option.map_eq_some_iff.mp heval
  obtain ⟨hrefusals, hrest⟩ := Prod.mk.inj hcounts
  obtain ⟨hdrops, hcounting⟩ := Prod.mk.inj hrest
  obtain ⟨n, hvalue, hle, hpos, -⟩ := (dropCounts_of_run (Run.of_exec_free hs)).2
  exact ⟨s, Run.of_exec_free hs, hrefusals, hdrops, n, hvalue, by omega, hpos (by omega)⟩

/-- A send that finds room comes while the session its task saw running is being drained. -/
def InSession (s : Master) : Label → Prop
  | .send p => SendsInSession s.logger (.send p)
  | _ => True

instance (s : Master) (a : Label) : Decidable (InSession s a) :=
  match a with
  | .send p => inferInstanceAs (Decidable (SendsInSession s.logger (.send p)))
  | .receive _ | .handle | .emit _ | .test .. | .loadDrops _ | .storeDrops _ | .logger _ =>
    isTrue trivial

/-- The samples of a session, in the order in which the logger's queue took them. -/
def Master.recordedIn (s : Master) (session : ℕ) : List QueuedSample :=
  ((s.fates.filterMap Fate.queued).filter fun queued => queued.session = session).map
    Tagged.sample

/-- The files closed so far belong to earlier and earlier sessions. -/
def ClosedInOrder (s : Logger Producer) : Prop :=
  (s.closed.map ClosedFiles.session).Pairwise (· < ·)

theorem closed_of_step {s t : Logger Producer} {b : LoggerSessions.Label Producer}
    (hs : LoggerSessions.step s b = some t) : t.closed = s.closed ∨
      s.writer = .close ∧ ∃ log utc, t.closed = s.closed ++ [⟨s.session, log, utc⟩] := by
  cases b with
  | test p x =>
    simp only [LoggerSessions.step] at hs
    split_ifs at hs <;> obtain rfl := Option.some.inj hs <;> exact .inl rfl
  | send p =>
    simp only [LoggerSessions.step] at hs
    split at hs
    · cases hs
    · split_ifs at hs <;> obtain rfl := Option.some.inj hs <;> exact .inl rfl
  | start | create | reset | publish | stop | write =>
    exact (writerFrame_of_control rfl hs).closed

theorem closedInOrder_step {s t : Logger Producer} {b : LoggerSessions.Label Producer}
    (hI : SessionInvariant s) (h : ClosedInOrder s) (hs : LoggerSessions.step s b = some t) :
    ClosedInOrder t := by
  rcases closed_of_step hs with hclosed | ⟨hwriter, log, utc, hclosed⟩
  · rw [ClosedInOrder, hclosed]
    exact h
  · have hstate : s.state ≠ .idle := by
      rw [hI.finishing (by rw [hwriter]; rfl)]
      nofun
    have hopened : opened s = true := by
      rw [opened_of_active hI hstate, hwriter]
      rfl
    rw [ClosedInOrder, hclosed, List.map_append, List.pairwise_append]
    refine ⟨h, List.pairwise_singleton _ _, ?_⟩
    intro n hn m hm
    obtain ⟨c, hc, rfl⟩ := List.mem_map.mp hn
    obtain rfl := List.mem_singleton.mp hm
    refine Nat.lt_of_le_of_ne (hI.closed_numbered c hc) fun heq => ?_
    have hover := hI.closed_over c hc heq
    rw [hopened] at hover
    cases hover

/-- What a step does to the samples inside `data_logger_enqueue` and to the fates. -/
inductive Handles (u v : Master) : Label → Prop where
  | other {a : Label} (hfates : v.fates = u.fates)
      (hpending : v.logger.pending = u.logger.pending) : Handles u v a
  | tested {p : Producer} {message : CanMessage} {utcMs : Int64}
      (hheld : u.pc p = .offer message) (hstate : u.logger.state = .running)
      (hfates : v.fates = u.fates)
      (hpending : v.logger.pending =
        Function.update u.logger.pending p (some ⟨⟨message, utcMs⟩, u.logger.session⟩)) :
      Handles u v (.test p utcMs)
  | turnedAway {p : Producer} {message : CanMessage} {utcMs : Int64}
      (hheld : u.pc p = .offer message) (hstate : u.logger.state ≠ .running)
      (hnone : u.logger.pending p = none)
      (hfates : v.fates = u.fates ++ [⟨p, message, .notRunning⟩])
      (hpending : v.logger.pending = u.logger.pending) : Handles u v (.test p utcMs)
  | refused {p : Producer} {x : Tagged} (hsends : u.logger.pending p = some x)
      (hfull : logQueueLength ≤ u.logger.queue.length)
      (hfates : v.fates = u.fates ++ [⟨p, x.sample.message, .refused⟩])
      (hpending : v.logger.pending = Function.update u.logger.pending p none) :
      Handles u v (.send p)
  | accepted {p : Producer} {x : Tagged} (hsends : u.logger.pending p = some x)
      (hroom : u.logger.queue.length < logQueueLength)
      (hqueue : v.logger.queue = u.logger.queue ++ [x])
      (hfates : v.fates = u.fates ++ [⟨p, x.sample.message, .accepted x⟩])
      (hpending : v.logger.pending = Function.update u.logger.pending p none) :
      Handles u v (.send p)

theorem handles_test (h : Accounted s) {utcMs : Int64} (hs : step s (.test p utcMs) = some t) :
    Handles s t (.test p utcMs) := by
  simp only [step] at hs
  split at hs
  next message hpc =>
    have hnone : s.logger.pending p = none := by
      have htested := (h.task p).tested
      rw [hpc] at htested
      exact Option.map_eq_none_iff.mp htested
    simp only [LoggerSessions.step, hnone, if_true] at hs
    by_cases hrunning : s.logger.state = .running
    · simp only [hrunning, if_true, Option.map_some] at hs
      obtain rfl := Option.some.inj hs
      exact .tested hpc hrunning rfl rfl
    · simp only [hrunning, if_false, Option.map_some] at hs
      obtain rfl := Option.some.inj hs
      exact .turnedAway hpc hrunning hnone rfl rfl
  next => cases hs

theorem handles_send (h : Accounted s) (hs : step s (.send p) = some t) :
    Handles s t (.send p) := by
  simp only [step] at hs
  split at hs
  next message x hpc hpending =>
    obtain rfl : x.sample.message = message := by
      have htested := (h.task p).tested
      rw [hpc, hpending] at htested
      exact Option.some.inj htested
    simp only [LoggerSessions.step, hpending] at hs
    by_cases hroom : s.logger.queue.length < logQueueLength
    · simp only [hroom, if_true, Option.map_some] at hs
      obtain rfl := Option.some.inj hs
      exact .accepted hpending hroom rfl rfl rfl
    · simp only [hroom, if_false, Option.map_some] at hs
      obtain rfl := Option.some.inj hs
      exact .refused hpending (not_lt.mp hroom) rfl rfl
  next => cases hs

theorem handles_step (h : Accounted s) {a : Label} (hs : step s a = some t) : Handles s t a := by
  have huntouched := (stepParts_of_step hs).untouched
  cases a with
  | test p utcMs => exact handles_test h hs
  | send p => exact handles_send h hs
  | receive | handle | emit | loadDrops | storeDrops | logger =>
    obtain ⟨hfates, hpending⟩ := huntouched (fun _ _ => by simp) (fun _ => by simp)
    exact .other hfates hpending

/-- The queue never holds more than it can. -/
theorem queue_le_step {s t : Logger Producer} {b : LoggerSessions.Label Producer}
    (h : s.queue.length ≤ logQueueLength) (hs : LoggerSessions.step s b = some t) :
    t.queue.length ≤ logQueueLength := by
  cases b with
  | test p x =>
    simp only [LoggerSessions.step] at hs
    split_ifs at hs <;> obtain rfl := Option.some.inj hs <;> exact h
  | send p =>
    simp only [LoggerSessions.step] at hs
    split at hs
    next => cases hs
    next =>
      split_ifs at hs with hroom <;> obtain rfl := Option.some.inj hs
      · rw [List.length_append]
        exact hroom
      · exact h
  | start | create | reset | publish | stop | write =>
    exact (writerFrame_of_control rfl hs).queue.trans h

theorem queue_le_of_run {C : Master → Label → Prop} {labels : List Label}
    (h : Run step C .start labels s) : s.logger.queue.length ≤ logQueueLength := by
  refine h.invariant (I := fun u => u.logger.queue.length ≤ logQueueLength) (Nat.zero_le _)
    fun u a v hu _ hs => ?_
  rcases (stepParts_of_step hs).logger with hsame | ⟨b, hb, -⟩
  · rw [hsame]
    exact hu
  · exact queue_le_step hu hb

/-- Earlier in the run, in front of its test of the state for the sample `x`, the task found the
logger running, and it has decided no other sample since. -/
def TestedRunning (labels : List Label) (u : Master) (p : Producer) (x : Tagged) : Prop :=
  ∃ earlier later w message utcMs, labels = earlier ++ .test p utcMs :: later ∧
    Run step InSession .start earlier w ∧ w.pc p = .offer message ∧
    w.logger.state = .running ∧ x = ⟨⟨message, utcMs⟩, w.logger.session⟩ ∧
    u.decidedOf p = w.decidedOf p

/-- The step with the label `a`, from `u` to `v`, decides a sample, and the logger is so that this
is its fate. -/
inductive Decides (before : List Label) (u v : Master) : Label → Fate → Prop where
  | notRunning {p : Producer} {message : CanMessage} {utcMs : Int64}
      (hheld : u.pc p = .offer message) (hstate : u.logger.state ≠ .running) :
      Decides before u v (.test p utcMs) ⟨p, message, .notRunning⟩
  | refused {p : Producer} {x : Tagged} (htested : TestedRunning before u p x)
      (hfull : u.logger.queue.length = logQueueLength) :
      Decides before u v (.send p) ⟨p, x.sample.message, .refused⟩
  | accepted {p : Producer} {x : Tagged} (htested : TestedRunning before u p x)
      (hroom : u.logger.queue.length < logQueueLength)
      (hqueue : v.logger.queue = u.logger.queue ++ [x]) :
      Decides before u v (.send p) ⟨p, x.sample.message, .accepted x⟩

/-- The fate with the index `i` was decided by one step of the run. -/
def DecidedInRun (labels : List Label) (s : Master) (i : ℕ) (fate : Fate) : Prop :=
  ∃ before a after u v, labels = before ++ a :: after ∧ Run step InSession .start before u ∧
    step u a = some v ∧ u.fates = s.fates.take i ∧ v.fates = s.fates.take (i + 1) ∧
    Decides before u v a fate

theorem decidedOf_of_fates (h : t.fates = s.fates) : t.decidedOf p = s.decidedOf p := by
  rw [Master.decidedOf, h]
  rfl

theorem decidedOf_append {fate : Fate} (h : t.fates = s.fates ++ [fate]) (hp : fate.producer ≠ p) :
    t.decidedOf p = s.decidedOf p := by
  simp [Master.decidedOf, h, List.filter_append, hp]

theorem TestedRunning.later {labels : List Label} {a : Label} {x : Tagged}
    (h : TestedRunning labels s p x) (hsame : t.decidedOf p = s.decidedOf p) :
    TestedRunning (labels ++ [a]) t p x := by
  obtain ⟨earlier, later, w, message, utcMs, rfl, hrun, hheld, hstate, hx, hdecided⟩ := h
  refine ⟨earlier, later ++ [a], w, message, utcMs, ?_, hrun, hheld, hstate, hx,
    hsame.trans hdecided⟩
  rw [List.append_assoc, List.cons_append]

/-- Every sample that is about to be sent was tested while the logger was running. -/
theorem testedRunning_of_run {labels : List Label} (h : Run step InSession .start labels s)
    {x : Tagged} (hx : s.logger.pending p = some x) : TestedRunning labels s p x := by
  induction h with
  | nil => cases hx
  | @snoc u v labels a hrun hc hs ih =>
    cases handles_step (accounted_of_run hrun) hs with
    | other hfates hpending =>
      rw [hpending] at hx
      exact (ih hx).later (decidedOf_of_fates hfates)
    | @tested q message utcMs hheld hstate hfates hpending =>
      rw [hpending, Function.update_apply] at hx
      split at hx
      next hpq =>
        obtain rfl := hpq
        exact ⟨labels, [], u, message, utcMs, rfl, hrun, hheld, hstate, (Option.some.inj hx).symm,
          decidedOf_of_fates hfates⟩
      next => exact (ih hx).later (decidedOf_of_fates hfates)
    | @turnedAway q message utcMs hheld hstate hnone hfates hpending =>
      rw [hpending] at hx
      have hother : q ≠ p := by
        rintro rfl
        rw [hnone] at hx
        cases hx
      exact (ih hx).later (decidedOf_append hfates hother)
    | @refused q y hsends hfull hfates hpending
    | @accepted q y hsends hroom hqueue hfates hpending =>
      rw [hpending, Function.update_apply] at hx
      split at hx
      next => cases hx
      next hother => exact (ih hx).later (decidedOf_append hfates (Ne.symm hother))

theorem decides_of_handles {before : List Label} {a : Label} {fate : Fate}
    (hrun : Run step InSession .start before s) (h : Handles s t a)
    (hfate : t.fates = s.fates ++ [fate]) : Decides before s t a fate := by
  have hlast : ∀ other : Fate, t.fates = s.fates ++ [other] → fate = other := fun other hother =>
    List.singleton_inj.mp (List.append_cancel_left (hfate.symm.trans hother))
  cases h with
  | other hfates | tested _ _ hfates =>
    rw [hfates] at hfate
    simp at hfate
  | turnedAway hheld hstate _ hfates =>
    rw [hlast _ hfates]
    exact .notRunning hheld hstate
  | refused hsends hfull hfates =>
    rw [hlast _ hfates]
    exact .refused (testedRunning_of_run hrun hsends) (le_antisymm (queue_le_of_run hrun) hfull)
  | accepted hsends hroom hqueue hfates =>
    rw [hlast _ hfates]
    exact .accepted (testedRunning_of_run hrun hsends) hroom hqueue

theorem fates_of_handles {a : Label} (h : Handles s t a) :
    t.fates = s.fates ∨ ∃ fate, t.fates = s.fates ++ [fate] := by
  cases h with
  | other hfates | tested _ _ hfates => exact .inl hfates
  | turnedAway _ _ _ hfates | refused _ _ hfates | accepted _ _ _ hfates => exact .inr ⟨_, hfates⟩

theorem DecidedInRun.later {labels : List Label} {a : Label} {i : ℕ} {fate : Fate}
    (h : DecidedInRun labels s i fate) (hi : i < s.fates.length) {rest : List Fate}
    (hfates : t.fates = s.fates ++ rest) : DecidedInRun (labels ++ [a]) t i fate := by
  obtain ⟨before, b, after, u, v, rfl, hrun, hs, hu, hv, hdecides⟩ := h
  refine ⟨before, b, after ++ [a], u, v, by simp, hrun, hs, ?_, ?_, hdecides⟩
  · rw [hfates, List.take_append_of_le_length hi.le, hu]
  · rw [hfates, List.take_append_of_le_length hi, hv]

theorem decided_of_run {labels : List Label} (h : Run step InSession .start labels s) {i : ℕ}
    {fate : Fate} (hfate : s.fates[i]? = some fate) : DecidedInRun labels s i fate := by
  induction h with
  | nil => cases hfate
  | @snoc u v labels a hrun hc hs ih =>
    have hhandles := handles_step (accounted_of_run hrun) hs
    rcases fates_of_handles hhandles with hsame | ⟨last, hlast⟩
    · rw [hsame] at hfate
      have hi := (List.getElem?_eq_some_iff.mp hfate).1
      exact (ih hfate).later hi (hsame.trans (List.append_nil _).symm)
    · rcases lt_trichotomy i u.fates.length with hi | rfl | hi
      · rw [hlast, List.getElem?_append_left hi] at hfate
        exact (ih hfate).later hi hlast
      · rw [hlast, List.getElem?_concat_length] at hfate
        obtain rfl := Option.some.inj hfate
        refine ⟨labels, a, [], u, v, rfl, hrun, hs, ?_, ?_, decides_of_handles hrun hhandles hlast⟩
        · rw [hlast, List.take_left]
        · rw [hlast, List.take_of_length_le (by simp)]
      · rw [hlast, List.getElem?_eq_none (by simp; omega)] at hfate
        cases hfate

/-- Every frame that the receive queue took is handled once, in the order of arrival, or still
waits. Every sample that a task offers to the logger is, in order, still with the task or decided,
by one step: offered while nothing is recorded, refused by the full queue, or taken for a session,
the last two after a test that found the logger running. The files of the session hold exactly the
samples taken for it. -/
theorem frames_of_run {labels : List Label} (h : Run step InSession .start labels s) :
    s.received = s.handled ++ s.rxQueue ∧
      (∀ p, s.offered p = s.decidedOf p ++ (s.pc p).undecided) ∧
      (∀ i fate, s.fates[i]? = some fate → DecidedInRun labels s i fate) ∧
      (∀ fate ∈ s.fates, ∀ queued ∈ fate.queued, queued.sample.message = fate.message) ∧
      (∀ c ∈ s.logger.closed, c.log = (s.recordedIn c.session).flatMap recordBytes ∧
        c.utc = (s.recordedIn c.session).flatMap utcBytes) ∧
      (s.logger.closed.map ClosedFiles.session).Pairwise (· < ·) := by
  have hI := accounted_of_run h
  have hlogger : SessionInvariant s.logger ∧ ClosedInOrder s.logger := by
    refine h.invariant (I := fun u : Master => SessionInvariant u.logger ∧ ClosedInOrder u.logger)
      ⟨sessionInvariant_start, .nil⟩ fun u a v hu hC hs => ?_
    rcases (stepParts_of_step hs).logger with hsame | ⟨b, hb, hsend⟩
    · rw [hsame]
      exact hu
    · refine ⟨sessionInvariant_step hu.1 ?_ hb, closedInOrder_step hu.1 hu.2 hb⟩
      cases b with
      | send p =>
        obtain rfl := hsend p rfl
        exact hC
      | test | start | create | reset | publish | stop | write => trivial
  refine ⟨hI.received, fun p => (hI.task p).offered, fun _ _ => decided_of_run h, hI.queued, ?_,
    hlogger.2⟩
  intro c hc
  have hrecorded : s.recordedIn c.session = s.logger.acceptedIn c.session := by
    rw [Master.recordedIn, ← hI.accepted]
    rfl
  rw [hrecorded]
  exact hlogger.1.closed_exact c hc

/-- A sample of each task is recorded; a frame with the state of a node comes in between. -/
def recordedDrive : List Label :=
  startSession ++ enqueueFrame ++
    [.emit ⟨canIdGpsSpeed, 8, 0⟩, .test .gps 1700000000001, .receive ⟨0x0C5, 8, []⟩, .send .gps,
      .logger .stop, .handle] ++ List.replicate 11 (.logger (.write false))

theorem recordedDrive_frames : ∃ s, Run step InSession .start recordedDrive s ∧
    s.logger.closed.map (fun c => (c.session, c.log.length)) = [(1, 32)] ∧
    s.handled.length = 2 ∧ s.received = s.handled ++ s.rxQueue ∧
    ∀ c ∈ s.logger.closed, c.log = (s.recordedIn c.session).flatMap recordBytes := by
  have heval : (exec (Run.guarded step InSession) .start recordedDrive).map (fun s =>
      (s.logger.closed.map (fun c => (c.session, c.log.length)), s.handled.length)) =
        some ([(1, 32)], 2) := by
    decide +kernel
  obtain ⟨s, hs, hclosed⟩ := Option.map_eq_some_iff.mp heval
  obtain ⟨hfiles, hhandled⟩ := Prod.mk.inj hclosed
  obtain ⟨hreceived, -, -, -, hexact, -⟩ := frames_of_run (Run.of_exec hs)
  exact ⟨s, Run.of_exec hs, hfiles, hhandled, hreceived, fun c hc => (hexact c hc).1⟩

end BajaDaq.FrameAccounting
