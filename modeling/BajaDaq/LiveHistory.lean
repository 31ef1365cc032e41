import BajaDaq.LiveViewing
import Mathlib.Algebra.Group.Nat.Defs
import Mathlib.Data.Int.Order.Basic
import Mathlib.Data.List.Induction

/-!
# Viewing sessions over a history of calls

What the viewer promises, said without its cache or its deadline: a session is a successful
start in the history of calls, with everything that has happened since. The state of
`live_data.c` refines it, although it lets a session expire only inside later calls.
-/

namespace BajaDaq.LiveHistory
open AppProtocol LiveViewing

inductive Action where
  | start (random : UInt32)
  | snapshot (token : UInt32) (capacity : ℕ)
  | stop (token : UInt32)
  | forceStop
  | isEnabled
  | record (message : CanMessage)
  deriving DecidableEq, Repr

structure Call where
  nowUs : ℤ
  action : Action
  deriving DecidableEq, Repr

inductive Reply where
  | started (result : LiveDataResult) (token : Option UInt32)
  | copied (result : LiveDataResult) (samples : Option (List LiveSample))
  | stopped (result : LiveDataResult)
  | enabled (yes : Bool)
  | nothing
  deriving DecidableEq, Repr

def perform (d : LiveData) (c : Call) : LiveData × Reply :=
  match c.action with
  | .start random =>
    let r := liveDataStart d c.nowUs random
    (r.1, .started r.2.1 r.2.2)
  | .snapshot token capacity =>
    let r := liveDataSnapshot d token capacity c.nowUs
    (r.1, .copied r.2.1 r.2.2)
  | .stop token =>
    let r := liveDataStop d token c.nowUs
    (r.1, .stopped r.2)
  | .forceStop => (liveDataForceStop d, .nothing)
  | .isEnabled =>
    let r := liveDataIsEnabled d c.nowUs
    (r.1, .enabled r.2)
  | .record message => (liveDataRecord d message c.nowUs, .nothing)

/-- A call and what it replied. -/
structure Event extends Call where
  reply : Reply
  deriving DecidableEq, Repr

/-- The state and the history after some calls. -/
structure Viewer where
  data : LiveData
  history : List Event
  deriving DecidableEq, Repr

def Viewer.call (v : Viewer) (c : Call) : Viewer :=
  ⟨(perform v.data c).1, v.history ++ [⟨c, (perform v.data c).2⟩]⟩

def Viewer.after (calls : List Call) : Viewer := calls.foldl Viewer.call ⟨.init, []⟩

theorem Viewer.after_append_singleton (calls : List Call) (c : Call) :
    Viewer.after (calls ++ [c]) = (Viewer.after calls).call c := by
  simp [Viewer.after]

def Event.starts (e : Event) (token : UInt32) : Prop :=
  ∃ random, e.action = .start random ∧ e.reply = .started .ok (some token)

/-- What ends the session before it: its own stop, a forced one or the next start. -/
def Event.Ends (e : Event) : Prop :=
  (∃ token, e.starts token) ∨ e.reply = .stopped .ok ∨ e.action = .forceStop

def Event.renewal (e : Event) : Option ℤ :=
  match e.reply with
  | .copied .ok _ => some e.nowUs
  | _ => none

/-- The message of a record that the viewer takes for signal `i`. -/
def Event.accepted (i : ℕ) (e : Event) : Option CanMessage :=
  match e.action with
  | .record message =>
    if signals[i]? = some message.id ∧ 8 ≤ message.dlc then some message else none
  | _ => none

structure Session where
  token : UInt32
  startUs : ℤ
  since : List Event
  deriving DecidableEq, Repr

namespace Session

/-- The later of the start and the last successful snapshot. -/
def renewedUs (s : Session) : ℤ := (s.since.filterMap Event.renewal).foldl max s.startUs

def expiresUs (s : Session) : ℤ := s.renewedUs + liveDataLeaseUs

/-- The accepted records of signal `i`, oldest first. -/
def records (s : Session) (i : ℕ) : List CanMessage := s.since.filterMap (Event.accepted i)

/-- `s` is the session that the last successful start of `history` began and that no call
has ended since. -/
structure Of (history : List Event) (s : Session) : Prop where
  split : ∃ before e, history = before ++ e :: s.since ∧ e.starts s.token ∧ e.nowUs = s.startUs
  kept : ∀ e ∈ s.since, ¬ e.Ends

structure OpenAt (history : List Event) (nowUs : ℤ) (s : Session) : Prop where
  of : s.Of history
  live : nowUs < s.expiresUs

end Session

/-- What a sample says about the accepted records of its signal. -/
structure Describes (records : List CanMessage) (sample : LiveSample) : Prop where
  valid : sample.valid = false ↔ records = []
  sequence : sample.sequence.toNat = records.length % 2 ^ 32
  last : ∀ m, records.getLast? = some m →
    sample.value = m.data.toUInt32.toInt32 ∧ sample.timestampMs = (m.data >>> 32).toUInt32

/-- The replies that the history allows. -/
def Conforms (history : List Event) (nowUs : ℤ) : Action → Reply → Prop
  | .start _, .started result token =>
    (result = .ok ↔ ¬ ∃ s, Session.OpenAt history nowUs s) ∧
      (result = .ok → ∃ t, token = some t ∧ t ≠ 0)
  | .snapshot token capacity, .copied result samples => liveDataSignalCount ≤ capacity →
    (result = .ok ↔ ∃ s, Session.OpenAt history nowUs s ∧ s.token = token) ∧
      (result = .ok → token ≠ 0) ∧
      ∀ s, Session.OpenAt history nowUs s → s.token = token → ∃ copy, samples = some copy ∧
        copy.length = liveDataSignalCount ∧
        ∀ i (h : i < copy.length), Describes (s.records i) copy[i]
  | .stop token, .stopped result =>
    (result = .ok ↔ ∃ s, Session.OpenAt history nowUs s ∧ s.token = token) ∧
      (result = .ok → token ≠ 0)
  | .isEnabled, .enabled yes => yes = true ↔ ∃ s, Session.OpenAt history nowUs s
  | .forceStop, .nothing => True
  | .record _, .nothing => True
  | _, _ => False

/-- A call that reports a failure; a snapshot into a short array reads nothing at all. -/
def Fails : Action → Reply → Prop
  | .start _, .started result _ => result ≠ .ok
  | .snapshot _ capacity, .copied result _ => liveDataSignalCount ≤ capacity ∧ result ≠ .ok
  | .stop _, .stopped result => result ≠ .ok
  | _, _ => False

def sampleOf (records : List CanMessage) : LiveSample :=
  match records.getLast? with
  | none => ⟨0, 0, 0, 0, false⟩
  | some m => ⟨m.id, m.data.toUInt32.toInt32, (m.data >>> 32).toUInt32,
      UInt32.ofNat records.length, true⟩

theorem sampleOf_append_singleton (records : List CanMessage) (m : CanMessage) :
    sampleOf (records ++ [m]) = ⟨m.id, m.data.toUInt32.toInt32, (m.data >>> 32).toUInt32,
      (sampleOf records).sequence + 1, true⟩ := by
  rcases List.eq_nil_or_concat records with rfl | ⟨before, r, rfl⟩
  · rfl
  · simp only [sampleOf, List.concat_eq_append, List.getLast?_append, List.getLast?_singleton,
      List.length_append, List.length_singleton, Option.some_or, UInt32.ofNat_add]
    rfl

theorem describes_sampleOf (records : List CanMessage) : Describes records (sampleOf records) := by
  rcases List.eq_nil_or_concat records with rfl | ⟨before, r, rfl⟩
  · exact ⟨by simp [sampleOf], rfl, fun m hm => by simp at hm⟩
  · refine ⟨by simp [sampleOf], by simp [sampleOf], ?_⟩
    intro m hm
    obtain rfl : r = m := by simpa using hm
    simp [sampleOf]

namespace Session

def samples (s : Session) : List LiveSample :=
  (List.range liveDataSignalCount).map (fun i => sampleOf (s.records i))

/-- The state of `live_data.c` while `s` is open, and until its expiry is noticed. -/
def cache (s : Session) : LiveData := ⟨s.samples, true, s.token, s.expiresUs⟩

def push (s : Session) (e : Event) : Session := { s with since := s.since ++ [e] }

theorem length_samples (s : Session) : s.samples.length = liveDataSignalCount := by
  simp [samples]

theorem getElem_samples (s : Session) {i : ℕ} (h : i < s.samples.length) :
    s.samples[i] = sampleOf (s.records i) := by
  simp [samples]

theorem records_push (s : Session) (e : Event) (i : ℕ) :
    (s.push e).records i = s.records i ++ (e.accepted i).toList := by
  cases he : e.accepted i <;> simp [records, push, he]

theorem renewedUs_push (s : Session) (e : Event) :
    (s.push e).renewedUs = e.renewal.elim s.renewedUs (max s.renewedUs) := by
  cases he : e.renewal <;> simp [renewedUs, push, he]

theorem samples_push {s : Session} {e : Event} (h : ∀ i, e.accepted i = none) :
    (s.push e).samples = s.samples := by
  simp [samples, records_push, h]

theorem expiresUs_push {s : Session} {e : Event} (h : e.renewal = none) :
    (s.push e).expiresUs = s.expiresUs := by
  simp [expiresUs, renewedUs_push, h]

theorem cache_push {s : Session} {e : Event} (h : ∀ i, e.accepted i = none)
    (hr : e.renewal = none) : (s.push e).cache = s.cache := by
  simp only [cache, samples_push h, expiresUs_push hr]
  rfl

/-- A successful snapshot moves the deadline and nothing else. -/
theorem cache_renew {s : Session} {e : Event} {nowUs : ℤ} (h : ∀ i, e.accepted i = none)
    (hr : e.renewal = some nowUs) (hnow : s.renewedUs ≤ nowUs) :
    (s.push e).cache = { s.cache with leaseDeadlineUs := nowUs + liveDataLeaseUs } := by
  simp only [cache, samples_push h, expiresUs, renewedUs_push, hr, Option.elim_some,
    max_eq_right hnow]
  rfl

namespace Of

theorem started {history : List Event} {e : Event} {token : UInt32} (h : e.starts token) :
    Of (history ++ [e]) ⟨token, e.nowUs, []⟩ :=
  ⟨⟨history, e, rfl, h, rfl⟩, by simp⟩

theorem push {history : List Event} {s : Session} {e : Event} (h : s.Of history)
    (he : ¬ e.Ends) : (s.push e).Of (history ++ [e]) := by
  obtain ⟨before, b, hsplit, hb, hnow⟩ := h.split
  refine ⟨⟨before, b, ?_, hb, hnow⟩, ?_⟩
  · simp [hsplit, Session.push]
  · intro x hx
    rcases List.mem_append.mp hx with hx | hx
    · exact h.kept x hx
    · rwa [List.mem_singleton.mp hx]

/-- A session of a longer history has just been started, or it is an older one that the last
event has not ended. -/
theorem cases_append {history : List Event} {s : Session} {e : Event}
    (h : s.Of (history ++ [e])) :
    (e.starts s.token ∧ s = ⟨s.token, e.nowUs, []⟩) ∨
      ∃ r : Session, r.Of history ∧ ¬ e.Ends ∧ s = r.push e := by
  obtain ⟨before, b, hsplit, hb, hnow⟩ := h.split
  rcases List.eq_nil_or_concat s.since with hnil | ⟨since, x, hsince⟩
  · rw [hnil] at hsplit
    obtain ⟨-, heq⟩ := List.append_inj' hsplit rfl
    obtain rfl : e = b := by simpa using heq
    refine .inl ⟨hb, ?_⟩
    rw [hnow, ← hnil]
  · rw [hsince, List.concat_eq_append, ← List.cons_append, ← List.append_assoc] at hsplit
    obtain ⟨hhistory, heq⟩ := List.append_inj' hsplit rfl
    obtain rfl : e = x := by simpa using heq
    refine .inr ⟨⟨s.token, s.startUs, since⟩, ⟨⟨before, b, hhistory, hb, hnow⟩, ?_⟩, ?_, ?_⟩
    · intro y hy
      exact h.kept y (by simp [hsince, hy])
    · exact h.kept e (by simp [hsince])
    · rw [Session.push, ← List.concat_eq_append, ← hsince]

theorem eq {history : List Event} {s r : Session} (hs : s.Of history) (hr : r.Of history) :
    s = r := by
  induction history using List.reverseRecOn generalizing s r with
  | nil =>
    obtain ⟨before, b, hsplit, -⟩ := hs.split
    simp at hsplit
  | append_singleton history e ih =>
    rcases hs.cases_append with ⟨hst, hs⟩ | ⟨s', hs', hends, rfl⟩
    · rcases hr.cases_append with ⟨hrt, hr⟩ | ⟨r', -, hends, -⟩
      · obtain ⟨a, -, ha⟩ := hst
        obtain ⟨b, -, hb⟩ := hrt
        have htoken : s.token = r.token := by simpa [ha] using hb
        rw [hs, hr, htoken]
      · exact absurd (.inl ⟨_, hst⟩) hends
    · rcases hr.cases_append with ⟨hrt, -⟩ | ⟨r', hr', -, rfl⟩
      · exact absurd (.inl ⟨_, hrt⟩) hends
      · rw [ih hs' hr']

end Of
end Session

/-- The session `s` of the history is in the cache, whether or not it has run out. -/
structure Holds (history : List Event) (lastUs : ℤ) (d : LiveData) (s : Session) : Prop where
  of : s.Of history
  token_ne : s.token ≠ 0
  renewed : s.renewedUs ≤ lastUs
  cached : d = s.cache

structure Idle (history : List Event) (lastUs : ℤ) (d : LiveData) : Prop where
  cleared : d = .init
  expired : ∀ s : Session, s.Of history → s.expiresUs ≤ lastUs

def Refines (history : List Event) (lastUs : ℤ) (d : LiveData) : Prop :=
  (∃ s, Holds history lastUs d s) ∨ Idle history lastUs d

section
variable {history : List Event} {lastUs nowUs : ℤ} {d : LiveData} {s : Session} {e : Event}

/-- Expiry leaves a session that is open, or none. -/
theorem Refines.expire (h : Refines history lastUs d) (hnow : lastUs ≤ nowUs) :
    (∃ s, Holds history nowUs (expireLocked d nowUs) s ∧ nowUs < s.expiresUs) ∨
      Idle history nowUs (expireLocked d nowUs) := by
  rcases h with ⟨s, hs⟩ | h
  · obtain ⟨hof, htoken, hrenewed, rfl⟩ := hs
    by_cases hlive : nowUs < s.expiresUs
    · refine .inl ⟨s, ⟨hof, htoken, Int.le_trans hrenewed hnow, ?_⟩, hlive⟩
      exact if_neg fun hover => absurd hover.2 (not_le.mpr hlive)
    · refine .inr ⟨if_pos ⟨rfl, not_lt.mp hlive⟩, ?_⟩
      intro r hr
      rw [← hof.eq hr]
      exact not_lt.mp hlive
  · refine .inr ⟨?_, fun s hs => Int.le_trans (h.expired s hs) hnow⟩
    rw [h.cleared]
    rfl

theorem Holds.openAt (h : Holds history nowUs d s) (hlive : nowUs < s.expiresUs) :
    Session.OpenAt history nowUs s :=
  ⟨h.of, hlive⟩

theorem Idle.not_openAt (h : Idle history nowUs d) : ¬ ∃ s, Session.OpenAt history nowUs s := by
  rintro ⟨s, hs⟩
  exact absurd hs.live (not_lt.mpr (h.expired s hs.of))

/-- An event that neither ends nor renews a session nor adds a record to it. -/
structure Event.Quiet (e : Event) : Prop where
  kept : ¬ e.Ends
  renewal : e.renewal = none
  accepted : ∀ i, e.accepted i = none

theorem Holds.quiet (h : Holds history nowUs d s) (he : e.Quiet) :
    Holds (history ++ [e]) nowUs d (s.push e) := by
  refine ⟨h.of.push he.kept, h.token_ne, ?_, ?_⟩
  · rw [Session.renewedUs_push, he.renewal]
    exact h.renewed
  · rw [Session.cache_push he.accepted he.renewal]
    exact h.cached

theorem Idle.keep (h : Idle history nowUs d) (he : ¬ e.Ends) (hr : e.renewal = none) :
    Idle (history ++ [e]) nowUs d := by
  refine ⟨h.cleared, fun s hs => ?_⟩
  rcases hs.cases_append with ⟨hstart, -⟩ | ⟨r, hof, -, rfl⟩
  · exact absurd (.inl ⟨_, hstart⟩) he
  · rw [Session.expiresUs_push hr]
    exact h.expired r hof

theorem Refines.quiet (h : Refines history nowUs d) (he : e.Quiet) :
    Refines (history ++ [e]) nowUs d := by
  rcases h with ⟨s, hs⟩ | h
  · exact .inl ⟨_, hs.quiet he⟩
  · exact .inr (h.keep he.kept he.renewal)

/-- A stop of either kind leaves no session behind. -/
theorem Idle.ended (he : e.Ends) (hstart : ∀ token, ¬ e.starts token) :
    Idle (history ++ [e]) nowUs .init := by
  refine ⟨rfl, fun s hs => ?_⟩
  rcases hs.cases_append with ⟨h, -⟩ | ⟨r, -, h, -⟩
  · exact absurd h (hstart _)
  · exact absurd he h

theorem Refines.mono (h : Refines history lastUs d) (hnow : lastUs ≤ nowUs) :
    Refines history nowUs d := by
  rcases h with ⟨s, hs⟩ | h
  · exact .inl ⟨s, hs.of, hs.token_ne, Int.le_trans hs.renewed hnow, hs.cached⟩
  · exact .inr ⟨h.cleared, fun s hs => Int.le_trans (h.expired s hs) hnow⟩

end

/-- A call keeps the refinement, its reply is the one the history allows, and a failure only
lets the session expire. -/
structure Correct (v : Viewer) (c : Call) : Prop where
  refines : Refines (v.call c).history c.nowUs (v.call c).data
  conforms : Conforms v.history c.nowUs c.action (perform v.data c).2
  fails : Fails c.action (perform v.data c).2 →
    (perform v.data c).1 = expireLocked v.data c.nowUs

section
variable {v : Viewer} {lastUs nowUs : ℤ}

/-- A call that only lets the session expire. -/
theorem Correct.of_expire {c : Call} {reply : Reply} (h : Refines v.history lastUs v.data)
    (hnow : lastUs ≤ c.nowUs) (hcall : perform v.data c = (expireLocked v.data c.nowUs, reply))
    (hquiet : Event.Quiet ⟨c, reply⟩) (hreply : Conforms v.history c.nowUs c.action reply) :
    Correct v c := by
  have hexpired : Refines v.history c.nowUs (expireLocked v.data c.nowUs) := by
    rcases h.expire hnow with ⟨s, hs, -⟩ | hidle
    · exact .inl ⟨s, hs⟩
    · exact .inr hidle
  refine ⟨?_, ?_, ?_⟩
  · simp only [Viewer.call, hcall]
    exact hexpired.quiet hquiet
  · rwa [hcall]
  · rw [hcall]
    exact fun _ => rfl

theorem correct_start (random : UInt32) (h : Refines v.history lastUs v.data)
    (hnow : lastUs ≤ nowUs) : Correct v ⟨nowUs, .start random⟩ := by
  rcases h.expire hnow with ⟨s, hs, hlive⟩ | hidle
  · have hcall : perform v.data ⟨nowUs, .start random⟩ =
        (expireLocked v.data nowUs, .started .busy none) := by
      simp only [perform, liveDataStart, hs.cached]
      rfl
    refine .of_expire h hnow hcall ⟨?_, rfl, fun _ => rfl⟩ ⟨?_, by simp⟩
    · simp [Event.Ends, Event.starts]
    · simpa using ⟨s, hs.openAt hlive⟩
  · have hcall : perform v.data ⟨nowUs, .start random⟩ =
        ((⟨if random = 0 then 1 else random, nowUs, []⟩ : Session).cache,
          .started .ok (some (if random = 0 then 1 else random))) := by
      simp only [perform, liveDataStart, hidle.cleared]
      rfl
    have htoken : (if random = 0 then 1 else random) ≠ 0 := by
      split_ifs with hzero
      · decide
      · exact hzero
    refine ⟨?_, ?_, ?_⟩
    · simp only [Viewer.call, hcall]
      exact .inl ⟨_, .started ⟨random, rfl, rfl⟩, htoken, Int.le_refl _, rfl⟩
    · rw [hcall]
      exact ⟨by simpa using hidle.not_openAt, fun _ => ⟨_, rfl, htoken⟩⟩
    · rw [hcall]
      exact fun hfail => absurd rfl hfail

/-- A snapshot or a stop fails with another token than the session's. -/
theorem Holds.not_owner {history : List Event} {d : LiveData} {s : Session} {token : UInt32}
    (h : Holds history nowUs d s) (htoken : token ≠ s.token) :
    ¬ ∃ r, Session.OpenAt history nowUs r ∧ r.token = token := by
  rintro ⟨r, hr, rfl⟩
  exact htoken (congrArg Session.token (hr.of.eq h.of))

theorem Idle.not_owner {history : List Event} {d : LiveData} {token : UInt32}
    (h : Idle history nowUs d) : ¬ ∃ r, Session.OpenAt history nowUs r ∧ r.token = token := by
  rintro ⟨r, hr, -⟩
  exact h.not_openAt ⟨r, hr⟩

theorem correct_snapshot (token : UInt32) (capacity : ℕ) (h : Refines v.history lastUs v.data)
    (hnow : lastUs ≤ nowUs) : Correct v ⟨nowUs, .snapshot token capacity⟩ := by
  by_cases hcapacity : capacity < liveDataSignalCount
  · have hcall : perform v.data ⟨nowUs, .snapshot token capacity⟩ =
        (v.data, .copied .disabled none) := by
      simp only [perform, liveDataSnapshot, if_pos hcapacity]
    refine ⟨?_, ?_, ?_⟩
    · simp only [Viewer.call, hcall]
      exact (h.mono hnow).quiet ⟨by simp [Event.Ends, Event.starts], rfl, fun _ => rfl⟩
    · rw [hcall]
      exact fun hlarge => absurd hcapacity (Nat.not_lt.mpr hlarge)
    · rw [hcall]
      exact fun hfail => absurd hcapacity (Nat.not_lt.mpr hfail.1)
  rcases h.expire hnow with ⟨s, hs, hlive⟩ | hidle
  · by_cases htoken : token = s.token
    · subst htoken
      have hcall : perform v.data ⟨nowUs, .snapshot s.token capacity⟩ =
          ({ s.cache with leaseDeadlineUs := nowUs + liveDataLeaseUs },
            .copied .ok (some s.samples)) := by
        simp only [perform, liveDataSnapshot, if_neg hcapacity, hs.cached]
        simp [Session.cache, hs.token_ne]
      refine ⟨?_, ?_, ?_⟩
      · simp only [Viewer.call, hcall]
        refine .inl ⟨_, hs.of.push (by simp [Event.Ends, Event.starts]), hs.token_ne, ?_,
          (Session.cache_renew (fun _ => rfl) rfl hs.renewed).symm⟩
        rw [Session.renewedUs_push]
        exact Int.max_le.mpr ⟨hs.renewed, Int.le_refl _⟩
      · rw [hcall]
        refine fun _ => ⟨by simpa using ⟨s, hs.openAt hlive, rfl⟩, fun _ => hs.token_ne, ?_⟩
        intro r hr _
        rw [hr.of.eq hs.of]
        refine ⟨_, rfl, s.length_samples, fun i hi => ?_⟩
        rw [s.getElem_samples hi]
        exact describes_sampleOf _
      · rw [hcall]
        exact fun hfail => absurd rfl hfail.2
    · have hcall : perform v.data ⟨nowUs, .snapshot token capacity⟩ =
          (expireLocked v.data nowUs, .copied .invalidToken none) := by
        simp only [perform, liveDataSnapshot, if_neg hcapacity, hs.cached]
        simp [Session.cache, htoken]
      refine .of_expire h hnow hcall ⟨?_, rfl, fun _ => rfl⟩ fun _ => ⟨?_, by simp, ?_⟩
      · simp [Event.Ends, Event.starts]
      · simpa using hs.not_owner htoken
      · exact fun r hr hrt => absurd ⟨r, hr, hrt⟩ (hs.not_owner htoken)
  · have hcall : perform v.data ⟨nowUs, .snapshot token capacity⟩ =
        (expireLocked v.data nowUs, .copied .disabled none) := by
      simp only [perform, liveDataSnapshot, if_neg hcapacity, hidle.cleared]
      rfl
    refine .of_expire h hnow hcall ⟨?_, rfl, fun _ => rfl⟩ fun _ => ⟨?_, by simp, ?_⟩
    · simp [Event.Ends, Event.starts]
    · simpa using hidle.not_owner
    · exact fun r hr hrt => absurd ⟨r, hr, hrt⟩ hidle.not_owner

theorem correct_stop (token : UInt32) (h : Refines v.history lastUs v.data)
    (hnow : lastUs ≤ nowUs) : Correct v ⟨nowUs, .stop token⟩ := by
  rcases h.expire hnow with ⟨s, hs, hlive⟩ | hidle
  · by_cases htoken : token = s.token
    · subst htoken
      have hcall : perform v.data ⟨nowUs, .stop s.token⟩ = (.init, .stopped .ok) := by
        simp only [perform, liveDataStop, hs.cached]
        simp [Session.cache, hs.token_ne, clearLocked, LiveData.init]
      refine ⟨?_, ?_, ?_⟩
      · simp only [Viewer.call, hcall]
        exact .inr (.ended (.inr (.inl rfl)) (by simp [Event.starts]))
      · rw [hcall]
        exact ⟨by simpa using ⟨s, hs.openAt hlive, rfl⟩, fun _ => hs.token_ne⟩
      · rw [hcall]
        exact fun hfail => absurd rfl hfail
    · have hcall : perform v.data ⟨nowUs, .stop token⟩ =
          (expireLocked v.data nowUs, .stopped .invalidToken) := by
        simp only [perform, liveDataStop, hs.cached]
        simp [Session.cache, htoken]
      refine .of_expire h hnow hcall ⟨?_, rfl, fun _ => rfl⟩ ⟨?_, by simp⟩
      · simp [Event.Ends, Event.starts]
      · simpa using hs.not_owner htoken
  · have hcall : perform v.data ⟨nowUs, .stop token⟩ =
        (expireLocked v.data nowUs, .stopped .disabled) := by
      simp only [perform, liveDataStop, hidle.cleared]
      rfl
    refine .of_expire h hnow hcall ⟨?_, rfl, fun _ => rfl⟩ ⟨?_, by simp⟩
    · simp [Event.Ends, Event.starts]
    · simpa using hidle.not_owner

theorem correct_forceStop : Correct v ⟨nowUs, .forceStop⟩ := by
  refine ⟨?_, trivial, fun hfail => hfail.elim⟩
  exact .inr (.ended (.inr (.inr rfl)) (by simp [Event.starts]))

theorem correct_isEnabled (h : Refines v.history lastUs v.data) (hnow : lastUs ≤ nowUs) :
    Correct v ⟨nowUs, .isEnabled⟩ := by
  refine .of_expire h hnow rfl ⟨?_, rfl, fun _ => rfl⟩ ?_
  · simp [Event.Ends, Event.starts]
  · rcases h.expire hnow with ⟨s, hs, hlive⟩ | hidle
    · change (expireLocked v.data nowUs).enabled = true ↔ _
      rw [hs.cached]
      exact iff_of_true rfl ⟨s, hs.openAt hlive⟩
    · change (expireLocked v.data nowUs).enabled = true ↔ _
      rw [hidle.cleared]
      exact iff_of_false (by simp [LiveData.init]) hidle.not_openAt

/-- An accepted record goes to the sample of its signal. -/
theorem samples_push_record {s : Session} {message : CanMessage} {index : ℕ} {reply : Reply}
    (hindex : signalIndex message.id = some index) (hdlc : 8 ≤ message.dlc) :
    (s.push ⟨⟨nowUs, .record message⟩, reply⟩).samples = s.samples.modify index (fun sample =>
      ⟨message.id, message.data.toUInt32.toInt32, (message.data >>> 32).toUInt32,
        sample.sequence + 1, true⟩) := by
  apply List.ext_getElem
  · simp [Session.samples]
  intro i hi _
  rw [Session.getElem_samples, List.getElem_modify, Session.records_push]
  by_cases h : index = i
  · subst h
    simp only [Event.accepted, signalIndex_eq_some_iff.mp hindex, hdlc, and_self, if_true,
      Option.toList_some]
    rw [sampleOf_append_singleton, Session.getElem_samples]
  · have hnone : Event.accepted i ⟨⟨nowUs, .record message⟩, reply⟩ = none :=
      if_neg fun hi =>
        h (Option.some.inj (hindex.symm.trans (signalIndex_eq_some_iff.mpr hi.1)))
    rw [if_neg h, hnone, Option.toList_none, List.append_nil, Session.getElem_samples]

theorem correct_record (message : CanMessage) (h : Refines v.history lastUs v.data)
    (hnow : lastUs ≤ nowUs) : Correct v ⟨nowUs, .record message⟩ := by
  refine ⟨?_, trivial, fun hfail => hfail.elim⟩
  have hends : ¬ Event.Ends ⟨⟨nowUs, .record message⟩, .nothing⟩ := by
    simp [Event.Ends, Event.starts]
  by_cases haccept : ∃ index, signalIndex message.id = some index ∧ 8 ≤ message.dlc
  · obtain ⟨index, hindex, hdlc⟩ := haccept
    have hshort : ¬ message.dlc < 8 := Nat.not_lt.mpr hdlc
    rcases h.expire hnow with ⟨s, hs, hlive⟩ | hidle
    · refine .inl ⟨s.push _, hs.of.push hends, hs.token_ne, ?_, ?_⟩
      · rw [Session.renewedUs_push]
        exact hs.renewed
      · simp only [Viewer.call, perform, liveDataRecord, hindex, if_neg hshort, hs.cached]
        have hexpires : (s.push ⟨⟨nowUs, .record message⟩, .nothing⟩).expiresUs = s.expiresUs :=
          Session.expiresUs_push rfl
        simp only [Session.cache, if_true, samples_push_record hindex hdlc, hexpires]
        rfl
    · refine .inr (Idle.keep ⟨?_, hidle.expired⟩ hends rfl)
      simp only [Viewer.call, perform, liveDataRecord, hindex, if_neg hshort, hidle.cleared]
      rfl
  · have hrefused : ∀ i, Event.accepted i ⟨⟨nowUs, .record message⟩, .nothing⟩ = none := by
      intro i
      exact if_neg fun hi => haccept ⟨i, signalIndex_eq_some_iff.mpr hi.1, hi.2⟩
    have hsame : liveDataRecord v.data message nowUs = v.data := by
      unfold liveDataRecord
      cases hindex : signalIndex message.id with
      | none => rfl
      | some index =>
        exact if_pos (Nat.not_le.mp fun hdlc => haccept ⟨index, hindex, hdlc⟩)
    simp only [Viewer.call, perform, hsame]
    exact (h.mono hnow).quiet ⟨hends, rfl, hrefused⟩

theorem correct_call {c : Call} (h : Refines v.history lastUs v.data) (hnow : lastUs ≤ c.nowUs) :
    Correct v c := by
  obtain ⟨nowUs, action⟩ := c
  cases action with
  | start random => exact correct_start random h hnow
  | snapshot token capacity => exact correct_snapshot token capacity h hnow
  | stop token => exact correct_stop token h hnow
  | forceStop => exact correct_forceStop
  | isEnabled => exact correct_isEnabled h hnow
  | record message => exact correct_record message h hnow

end

/-- The calls are made at non-decreasing times. -/
def Chronological (calls : List Call) : Prop := calls.Pairwise fun b c => b.nowUs ≤ c.nowUs

instance (calls : List Call) : Decidable (Chronological calls) :=
  inferInstanceAs (Decidable (calls.Pairwise _))

theorem refines_after {calls : List Call} {nowUs : ℤ} (h : Chronological calls)
    (hnow : ∀ c ∈ calls, c.nowUs ≤ nowUs) :
    Refines (Viewer.after calls).history nowUs (Viewer.after calls).data := by
  induction calls using List.reverseRecOn generalizing nowUs with
  | nil =>
    refine .inr ⟨rfl, fun s hs => ?_⟩
    obtain ⟨before, e, hsplit, -⟩ := hs.split
    exact absurd hsplit (by simp [Viewer.after])
  | append_singleton calls c ih =>
    obtain ⟨hcalls, -, hlast⟩ := List.pairwise_append.mp h
    have hbefore : ∀ b ∈ calls, b.nowUs ≤ c.nowUs := fun b hb => hlast b hb c (by simp)
    rw [Viewer.after_append_singleton]
    exact (correct_call (ih hcalls hbefore) (Int.le_refl _)).refines.mono (hnow c (by simp))

/-- After any calls at non-decreasing times, the next one replies what the history allows,
and one that fails has only let the session expire. -/
theorem viewer_refines_history (calls : List Call) (c : Call)
    (h : Chronological (calls ++ [c])) :
    Conforms (Viewer.after calls).history c.nowUs c.action
        (perform (Viewer.after calls).data c).2 ∧
      (Fails c.action (perform (Viewer.after calls).data c).2 →
        (perform (Viewer.after calls).data c).1 =
          expireLocked (Viewer.after calls).data c.nowUs) := by
  obtain ⟨hcalls, -, hlast⟩ := List.pairwise_append.mp h
  have hrefines := refines_after hcalls fun b hb => hlast b hb c (by simp)
  have hcorrect := correct_call hrefines (Int.le_refl c.nowUs)
  exact ⟨hcorrect.conforms, hcorrect.fails⟩

/-- A second viewer asks exactly when the lease of the first one, renewed once, runs out. -/
def handover : List Call :=
  [⟨0, .start 7⟩, ⟨4000000, .record ⟨canIdEngineRpm, 8, 3000⟩⟩, ⟨5000000, .snapshot 7 15⟩,
    ⟨14999999, .start 8⟩]

theorem handover_refines : (perform (Viewer.after handover).data ⟨15000000, .start 9⟩).2 =
      .started .ok (some 9) ∧
    Conforms (Viewer.after handover).history 15000000 (.start 9)
      (perform (Viewer.after handover).data ⟨15000000, .start 9⟩).2 := by
  exact ⟨by decide, (viewer_refines_history handover ⟨15000000, .start 9⟩ (by decide)).1⟩

end BajaDaq.LiveHistory
