import BajaDaq.SamplePipeline
import BajaDaq.TransitionRuns

/-!
# The shared transmit buffer

`can_node_send` of the sensor node and `can_master_send` of the master, which differ only in their
timeouts. Any number of tasks call the function; a step of a call is one access to shared state or
one call of the driver, whose outcome is arbitrary. The driver keeps the pointers of a transmit
call that it has accepted until a wait returns `ESP_OK`, and reads the frame through them when it
puts it on the bus.
-/

namespace BajaDaq.CanTransmit
open AppProtocol TransitionRuns
open SamplePipeline (TwaiFrame)

/-- Where a call is: it is about to check its arguments, to take the mutex, and so on. -/
inductive SendPc where
  | check
  | take
  | testPending
  | waitPrevious
  | clearPrevious
  | copyPayload
  | fillFrame
  | transmit
  | setPending
  | waitOwn
  | clearOwn
  | give (error : EspErrT)
  | returned (error : EspErrT)
  deriving DecidableEq, Repr

/-- The call holds the mutex. -/
def SendPc.Locked : SendPc → Prop
  | .check | .take | .returned _ => False
  | _ => True

/-- A call with its arguments; `payload` is null or the memory from that address on. -/
structure Send where
  canId : UInt32
  payload : Option (ℕ → UInt8)
  length : UInt8
  pc : SendPc

/-- The bytes that the call is to send. -/
def Send.bytes (call : Send) : List UInt8 :=
  match call.payload with
  | some memory => (List.range call.length.toNat).map memory
  | none => []

/-- The frame that the call is to send. -/
def Send.frame (call : Send) : TwaiFrame := ⟨call.canId, call.length.toUInt16, call.bytes⟩

/-- `tx_frame`: the identifier and the length; `ide` is always false and the buffer `tx_payload`. -/
structure TxFrame where
  id : UInt32
  bufferLen : UInt8
  deriving DecidableEq, Repr

/-- A transmit call that the driver has accepted and keeps the pointers of: the call it comes from,
and whether its frame has been on the bus. -/
structure Kept where
  call : ℕ
  onBus : Bool
  deriving DecidableEq, Repr

/-- The state of the function and of the driver, with a record: the calls whose frames the driver
has accepted, the frames it has put on the bus and the calls they come from, and the calls whose
frames were kept when a wait returned `ESP_OK`. -/
structure Can where
  calls : List Send
  txMutex : Option ℕ
  txFrame : TxFrame
  txPayload : List UInt8
  txPending : Bool
  kept : List Kept
  accepted : List ℕ
  bus : List (ℕ × TwaiFrame)
  completed : List ℕ
  /-- a wait has returned `ESP_OK` although a kept frame had not been on the bus -/
  early : Bool

def Can.start : Can := ⟨[], none, ⟨0, 0⟩, List.replicate 8 0, false, [], [], [], [], false⟩

inductive Label where
  | call (canId : UInt32) (payload : Option (ℕ → UInt8)) (length : UInt8)
  /-- the next step of the call `i`; `outcome` is what the function called there returns -/
  | run (i : ℕ) (outcome : EspErrT)
  /-- the driver puts the frame of the `k`-th kept call on the bus -/
  | put (k : ℕ)

/-- `twai_node_transmit_wait_all_done` returns `ESP_OK`. -/
def Can.release (s : Can) : Can :=
  { s with
    kept := []
    completed := s.completed ++ s.kept.map Kept.call
    early := s.early || s.kept.any (!·.onBus) }

/-- `memcpy(tx_payload, payload, length)`. -/
def copied (txPayload bytes : List UInt8) : List UInt8 := bytes ++ txPayload.drop bytes.length

/-- What the driver reads through its pointers. -/
def Can.buffered (s : Can) : TwaiFrame :=
  ⟨s.txFrame.id, s.txFrame.bufferLen.toUInt16, s.txPayload.take s.txFrame.bufferLen.toNat⟩

def Can.goto (s : Can) (i : ℕ) (call : Send) (pc : SendPc) : Can :=
  { s with calls := s.calls.set i { call with pc := pc } }

/-- One step of the call `i`. -/
def sendStep (s : Can) (i : ℕ) (call : Send) (outcome : EspErrT) : Option Can :=
  match call.pc with
  | .check =>
    if call.length > 8 ∨ call.length > 0 ∧ call.payload.isNone then
      some (s.goto i call (.returned espErrInvalidArg))
    else some (s.goto i call .take)
  | .take =>
    if outcome ≠ espOk then some (s.goto i call (.returned espErrTimeout))
    else if s.txMutex = none then some (Can.goto { s with txMutex := some i } i call .testPending)
    else none
  | .testPending => some (s.goto i call (if s.txPending then .waitPrevious else .copyPayload))
  | .waitPrevious =>
    if outcome = espOk then some (s.release.goto i call .clearPrevious)
    else some (s.goto i call (.give outcome))
  | .clearPrevious => some (Can.goto { s with txPending := false } i call .copyPayload)
  | .copyPayload =>
    if call.length ≠ 0 then
      some (Can.goto { s with txPayload := copied s.txPayload call.bytes } i call .fillFrame)
    else some (s.goto i call .fillFrame)
  | .fillFrame =>
    some (Can.goto { s with txFrame := ⟨call.canId, call.length⟩ } i call .transmit)
  | .transmit =>
    if outcome = espOk then
      some (Can.goto { s with kept := s.kept ++ [⟨i, false⟩], accepted := s.accepted ++ [i] } i call
        .setPending)
    else some (s.goto i call (.give outcome))
  | .setPending => some (Can.goto { s with txPending := true } i call .waitOwn)
  | .waitOwn =>
    if outcome = espOk then some (s.release.goto i call .clearOwn)
    else some (s.goto i call (.give outcome))
  | .clearOwn => some (Can.goto { s with txPending := false } i call (.give espOk))
  | .give error => some (Can.goto { s with txMutex := none } i call (.returned error))
  | .returned _ => none

def step (s : Can) : Label → Option Can
  | .call canId payload length =>
    some { s with calls := s.calls ++ [⟨canId, payload, length, .check⟩] }
  | .run i outcome =>
    match s.calls[i]? with
    | some call => sendStep s i call outcome
    | none => none
  | .put k =>
    match s.kept[k]? with
    | some ⟨call, false⟩ => some { s with
        kept := s.kept.set k ⟨call, true⟩
        bus := s.bus ++ [(call, s.buffered)] }
    | _ => none

/-- The arguments have passed the check. -/
def Valid (call : Send) : Prop := call.bytes.length = call.length.toNat ∧ call.length.toNat ≤ 8

/-- The frame of the call has been completed. -/
def Completed (s : Can) (i : ℕ) : Prop :=
  i ∈ s.completed ∧ (s.early = false → i ∈ s.bus.map Prod.fst)

/-- What is known while a call is at a place. -/
def CallOk (s : Can) (i : ℕ) (call : Send) : Prop :=
  match call.pc with
  | .check => i ∉ s.accepted
  | .take => i ∉ s.accepted ∧ Valid call
  | .testPending => i ∉ s.accepted ∧ Valid call ∧ (s.txPending = false → s.kept = [])
  | .waitPrevious => i ∉ s.accepted ∧ Valid call ∧ s.txPending = true
  | .clearPrevious => i ∉ s.accepted ∧ Valid call ∧ s.kept = []
  | .copyPayload => i ∉ s.accepted ∧ Valid call ∧ s.kept = [] ∧ s.txPending = false
  | .fillFrame => i ∉ s.accepted ∧ Valid call ∧ s.kept = [] ∧ s.txPending = false ∧
      s.txPayload.take call.length.toNat = call.bytes
  | .transmit => i ∉ s.accepted ∧ s.kept = [] ∧ s.txPending = false ∧ s.buffered = call.frame
  | .setPending => ∃ onBus, s.kept = [⟨i, onBus⟩]
  | .waitOwn => (∃ onBus, s.kept = [⟨i, onBus⟩]) ∧ s.txPending = true
  | .clearOwn => s.kept = [] ∧ Completed s i
  | .give error => (s.txPending = false → s.kept = []) ∧ (error = espOk → Completed s i)
  | .returned error => error = espOk → Completed s i

/-- The calls and the mutex. -/
structure Control (s : Can) : Prop where
  call : ∀ i call, s.calls[i]? = some call → CallOk s i call
  holder : ∀ i call, s.calls[i]? = some call → (call.pc.Locked ↔ s.txMutex = some i)
  held : ∀ i, s.txMutex = some i → i < s.calls.length
  free : s.txMutex = none → s.txPending = false → s.kept = []

/-- The frame of the call `i`. -/
def Can.frameOf (s : Can) (i : ℕ) : Option TwaiFrame := s.calls[i]?.map Send.frame

/-- The driver: it keeps at most one frame, which the buffer still holds, and what it has put on
the bus is the frames of the calls. -/
structure Driver (s : Can) : Prop where
  payload : s.txPayload.length = 8
  single : s.kept.length ≤ 1
  kept : ∀ e ∈ s.kept, e.call ∈ s.accepted ∧ s.frameOf e.call = some s.buffered ∧
    (e.onBus = true ↔ e.call ∈ s.bus.map Prod.fst)
  bus : ∀ b ∈ s.bus, b.1 ∈ s.accepted ∧ s.frameOf b.1 = some b.2
  accepted : s.accepted.Nodup
  onBus : (s.bus.map Prod.fst).Nodup
  known : ∀ i ∈ s.accepted, i < s.calls.length

variable {s t : Can} {i : ℕ} {call : Send} {pc : SendPc}

theorem frameOf_goto (hi : s.calls[i]? = some call) (pc : SendPc) (j : ℕ) :
    (s.goto i call pc).frameOf j = s.frameOf j := by
  unfold Can.frameOf Can.goto
  dsimp only
  rw [List.getElem?_set]
  by_cases h : i = j
  · subst h
    have hlt : i < s.calls.length := (List.getElem?_eq_some_iff.mp hi).1
    rw [if_pos rfl, if_pos hlt, hi]
    rfl
  · rw [if_neg h]

/-- The calls outside the mutex know only of what has been accepted and completed. -/
theorem CallOk.of_unlocked {j : ℕ} (h : CallOk s j call) (hpc : ¬ call.pc.Locked)
    (haccepted : j ∈ t.accepted → j ∈ s.accepted) (hcompleted : j ∈ s.completed → j ∈ t.completed)
    (hearly : t.early = false → s.early = false) (hbus : t.bus = s.bus) : CallOk t j call := by
  unfold CallOk at h ⊢
  unfold SendPc.Locked at hpc
  cases hcall : call.pc <;> simp only [hcall, not_true_eq_false, not_false_eq_true] at h hpc ⊢
  case check => exact fun hj => h (haccepted hj)
  case take => exact ⟨fun hj => h.1 (haccepted hj), h.2⟩
  case returned error =>
    intro hok
    obtain ⟨hdone, hsent⟩ := h hok
    exact ⟨hcompleted hdone, fun he => hbus ▸ hsent (hearly he)⟩

/-- A call goes on to another place. -/
theorem Control.goto (h : Control s) (hi : s.calls[i]? = some call) (hcalls : t.calls = s.calls)
    (hself : CallOk t i { call with pc := pc })
    (hothers : ∀ j other, j ≠ i → s.calls[j]? = some other → CallOk t j other)
    (hlocked : pc.Locked ↔ t.txMutex = some i)
    (hmutex : ∀ j, j ≠ i → (t.txMutex = some j ↔ s.txMutex = some j))
    (hfree : t.txMutex = none → t.txPending = false → t.kept = []) :
    Control (t.goto i call pc) := by
  have hget (j : ℕ) (other : Send) (hj : (t.goto i call pc).calls[j]? = some other) :
      j = i ∧ other = { call with pc := pc } ∨ j ≠ i ∧ s.calls[j]? = some other := by
    unfold Can.goto at hj
    dsimp only at hj
    rw [hcalls, List.getElem?_set] at hj
    by_cases hij : i = j
    · have hlt : i < s.calls.length := (List.getElem?_eq_some_iff.mp hi).1
      rw [if_pos hij, if_pos hlt] at hj
      exact Or.inl ⟨hij.symm, (Option.some.inj hj).symm⟩
    · rw [if_neg hij] at hj
      exact Or.inr ⟨fun h => hij h.symm, hj⟩
  refine ⟨fun j other hj => ?_, fun j other hj => ?_, fun j hj => ?_, hfree⟩
  · rcases hget j other hj with ⟨rfl, rfl⟩ | ⟨hne, hj⟩
    · exact hself
    · exact hothers j other hne hj
  · rcases hget j other hj with ⟨rfl, rfl⟩ | ⟨hne, hj⟩
    · exact hlocked
    · exact (h.holder j other hj).trans (hmutex j hne).symm
  · have hlength : (t.goto i call pc).calls.length = s.calls.length :=
      (List.length_set ..).trans (congrArg List.length hcalls)
    rw [hlength]
    by_cases hij : j = i
    · exact hij ▸ (List.getElem?_eq_some_iff.mp hi).1
    · exact h.held j ((hmutex j hij).mp hj)

/-- A step of the call that holds the mutex, up to giving it back. -/
theorem Control.inside (h : Control s) (hi : s.calls[i]? = some call) (hlocked : call.pc.Locked)
    (hpc : pc.Locked) (hcalls : t.calls = s.calls) (hmutex : t.txMutex = s.txMutex)
    (haccepted : ∀ j ∈ t.accepted, j ∈ s.accepted ∨ j = i) (hcompleted : s.completed ⊆ t.completed)
    (hearly : t.early = false → s.early = false) (hbus : t.bus = s.bus)
    (hself : CallOk t i { call with pc := pc }) : Control (t.goto i call pc) := by
  have hholder : s.txMutex = some i := (h.holder i call hi).mp hlocked
  refine h.goto hi hcalls hself ?_ ?_ (fun j _ => by rw [hmutex]) ?_
  · intro j other hne hj
    have hout : ¬ other.pc.Locked := fun hother =>
      hne (Option.some.inj (((h.holder j other hj).mp hother).symm.trans hholder))
    exact (h.call j other hj).of_unlocked hout
      (fun hmem => (haccepted j hmem).resolve_right hne) (fun hmem => hcompleted hmem) hearly hbus
  · exact ⟨fun _ => hmutex.trans hholder, fun _ => hpc⟩
  · intro hfree
    rw [hmutex, hholder] at hfree
    cases hfree

/-- A step of a call that does not hold the mutex and does not take it. -/
theorem Control.outside (h : Control s) (hi : s.calls[i]? = some call) (hlocked : ¬ call.pc.Locked)
    (hpc : ¬ pc.Locked) (hself : CallOk s i { call with pc := pc }) :
    Control (s.goto i call pc) := by
  have hholder : s.txMutex ≠ some i := fun hm => hlocked ((h.holder i call hi).mpr hm)
  exact h.goto hi rfl hself (fun j other _ hj => h.call j other hj)
    ⟨fun hp => absurd hp hpc, fun hm => absurd hm hholder⟩ (fun _ _ => Iff.rfl) h.free

theorem Driver.congr (h : Driver s) (hframe : ∀ j, t.frameOf j = s.frameOf j)
    (hcalls : t.calls.length = s.calls.length) (haccepted : t.accepted = s.accepted)
    (hbus : t.bus = s.bus) (hpayload : t.txPayload.length = 8)
    (hkept : t.kept = [] ∨ t.kept = s.kept ∧ t.buffered = s.buffered) : Driver t := by
  refine ⟨hpayload, ?_, ?_, ?_, haccepted ▸ h.accepted, hbus ▸ h.onBus, ?_⟩
  · rcases hkept with hempty | ⟨hsame, -⟩
    · simp [hempty]
    · exact hsame ▸ h.single
  · intro e he
    rcases hkept with hempty | ⟨hsame, hbuffered⟩
    · simp [hempty] at he
    · rw [haccepted, hframe, hbus, hbuffered]
      exact h.kept e (hsame ▸ he)
  · intro b hb
    rw [haccepted, hframe]
    exact h.bus b (hbus ▸ hb)
  · rw [haccepted, hcalls]
    exact h.known

/-- The driver does not notice that a call goes on. -/
theorem Driver.goto (h : Driver t) (hi : t.calls[i]? = some call) (pc : SendPc) :
    Driver (t.goto i call pc) :=
  h.congr (frameOf_goto hi pc) List.length_set rfl rfl h.payload (Or.inr ⟨rfl, rfl⟩)

theorem Driver.release (h : Driver s) : Driver s.release :=
  h.congr (fun _ => rfl) rfl rfl rfl h.payload (Or.inl rfl)

/-- A wait that returns `ESP_OK` while the frame of the call is kept completes it. -/
theorem completed_release (h : Driver s) {onBus : Bool} (hkept : s.kept = [⟨i, onBus⟩]) :
    Completed s.release i := by
  have hsent := (h.kept ⟨i, onBus⟩ (by simp [hkept])).2.2
  refine ⟨by simp [Can.release, hkept], fun hearly => ?_⟩
  have honBus : onBus = true := by
    have hall : (s.early || s.kept.any (!·.onBus)) = false := hearly
    simpa [hkept] using (Bool.or_eq_false_iff.mp hall).2
  exact hsent.mp honBus

/-- The driver accepts the frame in the buffer. -/
theorem Driver.accept (h : Driver s) (hi : s.calls[i]? = some call) (hnew : i ∉ s.accepted)
    (hkept : s.kept = []) (hbuffered : s.buffered = call.frame) :
    Driver { s with kept := s.kept ++ [⟨i, false⟩], accepted := s.accepted ++ [i] } := by
  refine ⟨h.payload, by simp [hkept], ?_, ?_, ?_, h.onBus, ?_⟩
  · intro e he
    obtain rfl : e = ⟨i, false⟩ := by simpa [hkept] using he
    refine ⟨List.mem_append_right _ (List.mem_singleton_self i), ?_, ?_⟩
    · change s.calls[i]?.map Send.frame = some s.buffered
      rw [hi, hbuffered, Option.map_some]
    · refine ⟨nofun, fun hmem => ?_⟩
      obtain ⟨b, hb, hcall⟩ := List.mem_map.mp hmem
      have hsame : b.1 = i := hcall
      exact absurd (hsame ▸ (h.bus b hb).1) hnew
  · intro b hb
    exact ⟨List.mem_append_left _ (h.bus b hb).1, (h.bus b hb).2⟩
  · exact List.nodup_append.mpr ⟨h.accepted, by simp, fun j hj k hk => by
      rintro rfl
      exact hnew (List.mem_singleton.mp hk ▸ hj)⟩
  · intro j hj
    rcases List.mem_append.mp hj with hj | hj
    · exact h.known j hj
    · rw [List.mem_singleton.mp hj]
      exact (List.getElem?_eq_some_iff.mp hi).1

theorem Driver.kept_eq (h : Driver s) {k : ℕ} {e : Kept} (hk : s.kept[k]? = some e) :
    s.kept = [e] ∧ k = 0 := by
  have hlength := h.single
  match hs : s.kept with
  | [] => simp [hs] at hk
  | [e'] =>
    obtain rfl : k = 0 := by
      have hlt := (List.getElem?_eq_some_iff.mp hk).1
      rw [hs, List.length_singleton] at hlt
      omega
    rw [hs] at hk
    rw [Option.some.inj hk]
    exact ⟨rfl, rfl⟩
  | _ :: _ :: _ => simp [hs] at hlength

/-- The driver puts the frame that it keeps on the bus. -/
theorem Driver.put (h : Driver s) {k : ℕ} (hk : s.kept[k]? = some ⟨i, false⟩) :
    Driver { s with kept := s.kept.set k ⟨i, true⟩, bus := s.bus ++ [(i, s.buffered)] } := by
  obtain ⟨haccepted, hframe, hsent⟩ := h.kept _ (List.mem_of_getElem? hk)
  have hnot : i ∉ s.bus.map Prod.fst := fun h => nomatch hsent.mpr h
  obtain ⟨hsingle, rfl⟩ := h.kept_eq hk
  refine ⟨h.payload, by simp [hsingle], ?_, ?_, h.accepted, ?_, h.known⟩
  · intro e he
    obtain rfl : e = ⟨i, true⟩ := by simpa [hsingle] using he
    exact ⟨haccepted, hframe, by simp⟩
  · intro b hb
    rcases List.mem_append.mp hb with hb | hb
    · exact h.bus b hb
    · rw [List.mem_singleton.mp hb]
      exact ⟨haccepted, hframe⟩
  · rw [List.map_append]
    refine List.nodup_append.mpr ⟨h.onBus, by simp, fun j hj k hk hjk => ?_⟩
    obtain rfl : k = i := List.mem_singleton.mp hk
    exact hnot (hjk ▸ hj)

theorem Control.put (h : Control s) (hd : Driver s) {k : ℕ} (hk : s.kept[k]? = some ⟨i, false⟩) :
    Control { s with kept := s.kept.set k ⟨i, true⟩, bus := s.bus ++ [(i, s.buffered)] } := by
  obtain ⟨hkept, rfl⟩ := hd.kept_eq hk
  have hsome : s.kept ≠ [] := by simp [hkept]
  have hdone (j : ℕ) (hj : Completed s j) :
      Completed { s with kept := s.kept.set 0 ⟨i, true⟩, bus := s.bus ++ [(i, s.buffered)] } j := by
    refine ⟨hj.1, fun hearly => ?_⟩
    rw [List.map_append]
    exact List.mem_append_left _ (hj.2 hearly)
  refine ⟨fun j call hj => ?_, h.holder, h.held, fun hm hp => absurd (h.free hm hp) hsome⟩
  have hcall := h.call j call hj
  unfold CallOk at hcall ⊢
  cases hpc : call.pc <;> simp only [hpc] at hcall ⊢
  case check | take | waitPrevious => exact hcall
  case testPending => exact ⟨hcall.1, hcall.2.1, fun hp => absurd (hcall.2.2 hp) hsome⟩
  case clearPrevious => exact absurd hcall.2.2 hsome
  case copyPayload | fillFrame => exact absurd hcall.2.2.1 hsome
  case transmit => exact absurd hcall.2.1 hsome
  case clearOwn => exact absurd hcall.1 hsome
  case setPending =>
    obtain ⟨onBus, hown⟩ := hcall
    obtain ⟨rfl, -⟩ := Kept.mk.inj (List.singleton_inj.mp (hkept.symm.trans hown))
    exact ⟨true, by rw [hkept]; rfl⟩
  case waitOwn =>
    obtain ⟨⟨onBus, hown⟩, hp⟩ := hcall
    obtain ⟨rfl, -⟩ := Kept.mk.inj (List.singleton_inj.mp (hkept.symm.trans hown))
    exact ⟨⟨true, by rw [hkept]; rfl⟩, hp⟩
  case give error =>
    exact ⟨fun hp => absurd (hcall.1 hp) hsome, fun hok => hdone j (hcall.2 hok)⟩
  case returned error => exact fun hok => hdone j (hcall hok)

theorem Driver.setMutex (h : Driver s) (holder : Option ℕ) :
    Driver { s with txMutex := holder } :=
  h.congr (fun _ => rfl) rfl rfl rfl h.payload (Or.inr ⟨rfl, rfl⟩)

theorem Driver.setPending (h : Driver s) (pending : Bool) :
    Driver { s with txPending := pending } :=
  h.congr (fun _ => rfl) rfl rfl rfl h.payload (Or.inr ⟨rfl, rfl⟩)

/-- A step inside the mutex that adds nothing to the record. -/
theorem inside_ok (hc : Control s) (hd : Driver t) (hi : s.calls[i]? = some call)
    (hlocked : call.pc.Locked) (hpc : pc.Locked) (hcalls : t.calls = s.calls)
    (hmutex : t.txMutex = s.txMutex) (haccepted : t.accepted = s.accepted)
    (hcompleted : t.completed = s.completed) (hearly : t.early = s.early) (hbus : t.bus = s.bus)
    (hself : CallOk t i { call with pc := pc }) :
    Control (t.goto i call pc) ∧ Driver (t.goto i call pc) := by
  refine ⟨hc.inside hi hlocked hpc hcalls hmutex (fun j hj => Or.inl (haccepted ▸ hj))
    (fun j hj => hcompleted ▸ hj) (fun he => hearly ▸ he) hbus hself, hd.goto ?_ pc⟩
  rw [hcalls, hi]

/-- A wait that returns `ESP_OK` inside the mutex. -/
theorem release_ok (hc : Control s) (hd : Driver s) (hi : s.calls[i]? = some call)
    (hlocked : call.pc.Locked) (hpc : pc.Locked)
    (hself : CallOk s.release i { call with pc := pc }) :
    Control (s.release.goto i call pc) ∧ Driver (s.release.goto i call pc) := by
  refine ⟨hc.inside hi hlocked hpc rfl rfl (fun j hj => Or.inl hj) ?_ ?_ rfl hself,
    hd.release.goto hi pc⟩
  · exact List.subset_append_left _ _
  · exact fun hearly => (Bool.or_eq_false_iff.mp hearly).1

/-- The bytes of the call are in the buffer. -/
theorem take_copied {bytes txPayload : List UInt8} : (copied txPayload bytes).take bytes.length =
    bytes := by
  rw [copied, List.take_left]

theorem length_copied {bytes txPayload : List UInt8} (hpayload : txPayload.length = 8)
    (hbytes : bytes.length ≤ 8) : (copied txPayload bytes).length = 8 := by
  rw [copied, List.length_append, List.length_drop, hpayload]
  omega

theorem valid_of_check (h : ¬ (call.length > 8 ∨ call.length > 0 ∧ call.payload.isNone)) :
    Valid call := by
  obtain ⟨hlength, hpayload⟩ := not_or.mp h
  have hle : call.length.toNat ≤ 8 := by
    have := UInt8.le_iff_toNat_le.mp (UInt8.not_lt.mp hlength)
    simpa using this
  refine ⟨?_, hle⟩
  unfold Send.bytes
  cases hp : call.payload with
  | some memory => simp
  | none =>
    have hzero : ¬ 0 < call.length := fun h => hpayload ⟨h, by rw [hp]; rfl⟩
    have hlen := UInt8.le_iff_toNat_le.mp (UInt8.not_lt.mp hzero)
    exact (Nat.le_zero.mp hlen).symm

/-- One step of a call up to the mutex. -/
theorem sendStep_outside (hc : Control s) (hd : Driver s) (hi : s.calls[i]? = some call)
    (hout : ¬ call.pc.Locked) {outcome : EspErrT} (hs : sendStep s i call outcome = some t) :
    Control t ∧ Driver t := by
  have hcall := hc.call i call hi
  cases hpc : call.pc with
  | check =>
    simp only [CallOk, hpc] at hcall
    simp only [sendStep, hpc] at hs
    split_ifs at hs with hinvalid
    · obtain rfl := Option.some.inj hs
      exact ⟨hc.outside hi hout id (fun h => absurd h (by decide)), hd.goto hi _⟩
    · obtain rfl := Option.some.inj hs
      exact ⟨hc.outside hi hout id ⟨hcall, valid_of_check hinvalid⟩, hd.goto hi _⟩
  | take =>
    simp only [CallOk, hpc] at hcall
    simp only [sendStep, hpc] at hs
    split_ifs at hs with hok hmutex
    · obtain rfl := Option.some.inj hs
      exact ⟨hc.outside hi hout id (fun h => absurd h (by decide)), hd.goto hi _⟩
    · obtain rfl := Option.some.inj hs
      refine ⟨hc.goto hi rfl ⟨hcall.1, hcall.2, hc.free hmutex⟩
        (fun j other _ hj => hc.call j other hj) ⟨fun _ => rfl, fun _ => trivial⟩ ?_ nofun,
        (hd.setMutex (some i)).goto hi _⟩
      intro j hne
      rw [hmutex]
      exact ⟨fun h => absurd (Option.some.inj h).symm hne, nofun⟩
  | returned error =>
    simp only [sendStep, hpc] at hs
    cases hs
  | testPending | waitPrevious | clearPrevious | copyPayload | fillFrame | transmit | setPending
  | waitOwn | clearOwn | give => exact absurd (by simp [hpc, SendPc.Locked]) hout

/-- One step of the call that holds the mutex, up to the transmit. -/
theorem sendStep_fill (hc : Control s) (hd : Driver s) (hi : s.calls[i]? = some call)
    (hin : call.pc.Locked) {outcome : EspErrT} (hs : sendStep s i call outcome = some t)
    (hfill : call.pc = .testPending ∨ call.pc = .waitPrevious ∨ call.pc = .clearPrevious ∨
      call.pc = .copyPayload ∨ call.pc = .fillFrame) : Control t ∧ Driver t := by
  have hcall := hc.call i call hi
  rcases hfill with hpc | hpc | hpc | hpc | hpc <;> simp only [CallOk, hpc] at hcall <;>
    simp only [sendStep, hpc] at hs
  · -- `testPending`
    obtain rfl := Option.some.inj hs
    obtain ⟨hnew, hvalid, hempty⟩ := hcall
    by_cases hp : s.txPending = true
    · rw [if_pos hp]
      exact inside_ok hc hd hi hin trivial rfl rfl rfl rfl rfl rfl ⟨hnew, hvalid, hp⟩
    · rw [if_neg hp]
      have hp : s.txPending = false := Bool.eq_false_iff.mpr hp
      exact inside_ok hc hd hi hin trivial rfl rfl rfl rfl rfl rfl ⟨hnew, hvalid, hempty hp, hp⟩
  · -- `waitPrevious`
    obtain ⟨hnew, hvalid, hp⟩ := hcall
    split_ifs at hs with hok
    · obtain rfl := Option.some.inj hs
      exact release_ok hc hd hi hin trivial ⟨hnew, hvalid, rfl⟩
    · obtain rfl := Option.some.inj hs
      exact inside_ok hc hd hi hin trivial rfl rfl rfl rfl rfl rfl
        ⟨fun h => absurd (hp.symm.trans h) (by decide), fun h => absurd h hok⟩
  · -- `clearPrevious`
    obtain ⟨hnew, hvalid, hempty⟩ := hcall
    obtain rfl := Option.some.inj hs
    exact inside_ok hc (hd.setPending false) hi hin trivial rfl rfl rfl rfl rfl rfl
      ⟨hnew, hvalid, hempty, rfl⟩
  · -- `copyPayload`
    obtain ⟨hnew, hvalid, hempty, hp⟩ := hcall
    split_ifs at hs with hlength
    · obtain rfl := Option.some.inj hs
      have hbytes : call.bytes.length ≤ 8 := hvalid.1 ▸ hvalid.2
      have hcopied : Driver { s with txPayload := copied s.txPayload call.bytes } :=
        hd.congr (fun _ => rfl) rfl rfl rfl (length_copied hd.payload hbytes) (Or.inl hempty)
      exact inside_ok hc hcopied hi hin trivial rfl rfl rfl rfl rfl rfl
        ⟨hnew, hvalid, hempty, hp, hvalid.1 ▸ take_copied⟩
    · obtain rfl := Option.some.inj hs
      have hzero : call.length = 0 := not_not.mp hlength
      have hbytes : s.txPayload.take call.length.toNat = call.bytes := by
        have hnil := hvalid.1
        rw [hzero] at hnil ⊢
        exact (List.length_eq_zero_iff.mp hnil).symm
      exact inside_ok hc hd hi hin trivial rfl rfl rfl rfl rfl rfl
        ⟨hnew, hvalid, hempty, hp, hbytes⟩
  · -- `fillFrame`
    obtain ⟨hnew, hvalid, hempty, hp, hbytes⟩ := hcall
    obtain rfl := Option.some.inj hs
    have hfilled : Driver { s with txFrame := ⟨call.canId, call.length⟩ } :=
      hd.congr (fun _ => rfl) rfl rfl rfl hd.payload (Or.inl hempty)
    have hbuffered : ({ s with txFrame := ⟨call.canId, call.length⟩ } : Can).buffered =
        call.frame := by
      unfold Can.buffered Send.frame
      dsimp only
      rw [hbytes]
    exact inside_ok hc hfilled hi hin trivial rfl rfl rfl rfl rfl rfl
      ⟨hnew, hempty, hp, hbuffered⟩

/-- One step of the call that holds the mutex, from the transmit on. -/
theorem sendStep_transmit (hc : Control s) (hd : Driver s) (hi : s.calls[i]? = some call)
    (hin : call.pc.Locked) {outcome : EspErrT} (hs : sendStep s i call outcome = some t)
    (hsend : call.pc = .transmit ∨ call.pc = .setPending ∨ call.pc = .waitOwn ∨
      call.pc = .clearOwn) : Control t ∧ Driver t := by
  have hcall := hc.call i call hi
  rcases hsend with hpc | hpc | hpc | hpc <;> simp only [CallOk, hpc] at hcall <;>
    simp only [sendStep, hpc] at hs
  · -- `transmit`
    obtain ⟨hnew, hempty, hp, hbuffered⟩ := hcall
    split_ifs at hs with hok
    · obtain rfl := Option.some.inj hs
      refine ⟨?_, (hd.accept hi hnew hempty hbuffered).goto hi _⟩
      refine hc.inside hi hin trivial rfl rfl (fun j hj => ?_) (List.Subset.refl _) id rfl
        ⟨false, by simp [hempty]⟩
      exact (List.mem_append.mp hj).imp_right List.mem_singleton.mp
    · obtain rfl := Option.some.inj hs
      exact inside_ok hc hd hi hin trivial rfl rfl rfl rfl rfl rfl
        ⟨fun _ => hempty, fun h => absurd h hok⟩
  · -- `setPending`
    obtain rfl := Option.some.inj hs
    exact inside_ok hc (hd.setPending true) hi hin trivial rfl rfl rfl rfl rfl rfl ⟨hcall, rfl⟩
  · -- `waitOwn`
    obtain ⟨⟨onBus, hkept⟩, hp⟩ := hcall
    split_ifs at hs with hok
    · obtain rfl := Option.some.inj hs
      exact release_ok hc hd hi hin trivial ⟨rfl, completed_release hd hkept⟩
    · obtain rfl := Option.some.inj hs
      exact inside_ok hc hd hi hin trivial rfl rfl rfl rfl rfl rfl
        ⟨fun h => absurd (hp.symm.trans h) (by decide), fun h => absurd h hok⟩
  · -- `clearOwn`
    obtain rfl := Option.some.inj hs
    exact inside_ok hc (hd.setPending false) hi hin trivial rfl rfl rfl rfl rfl rfl
      ⟨fun _ => hcall.1, fun _ => hcall.2⟩

/-- The call that holds the mutex gives it back. -/
theorem sendStep_give (hc : Control s) (hd : Driver s) (hi : s.calls[i]? = some call)
    {error outcome : EspErrT} (hpc : call.pc = .give error)
    (hs : sendStep s i call outcome = some t) : Control t ∧ Driver t := by
  have hholder : s.txMutex = some i := (hc.holder i call hi).mp (by simp [hpc, SendPc.Locked])
  have hcall := hc.call i call hi
  simp only [CallOk, hpc] at hcall
  simp only [sendStep, hpc] at hs
  obtain rfl := Option.some.inj hs
  refine ⟨hc.goto hi rfl hcall.2 (fun j other _ hj => hc.call j other hj) ⟨False.elim, nofun⟩ ?_
    (fun _ => hcall.1), (hd.setMutex none).goto hi _⟩
  intro j hne
  rw [hholder]
  exact ⟨nofun, fun h => absurd (Option.some.inj h).symm hne⟩

/-- One step of a call. -/
theorem sendStep_ok (hc : Control s) (hd : Driver s) (hi : s.calls[i]? = some call)
    {outcome : EspErrT} (hs : sendStep s i call outcome = some t) : Control t ∧ Driver t := by
  by_cases hin : call.pc.Locked
  · cases hpc : call.pc with
    | check | take | returned =>
      rw [hpc] at hin
      exact absurd hin id
    | testPending | waitPrevious | clearPrevious | copyPayload | fillFrame =>
      exact sendStep_fill hc hd hi hin hs (by simp [hpc])
    | transmit | setPending | waitOwn | clearOwn =>
      exact sendStep_transmit hc hd hi hin hs (by simp [hpc])
    | give error => exact sendStep_give hc hd hi hpc hs
  · exact sendStep_outside hc hd hi hin hs

theorem start_ok : Control .start ∧ Driver .start := by
  exact ⟨⟨nofun, nofun, nofun, fun _ _ => rfl⟩, rfl, Nat.zero_le 1, nofun, nofun, .nil, .nil,
    nofun⟩

/-- A task calls the function. -/
theorem call_ok (hc : Control s) (hd : Driver s) (hpc : call.pc = .check) :
    Control { s with calls := s.calls ++ [call] } ∧
      Driver { s with calls := s.calls ++ [call] } := by
  have hold (j : ℕ) (hj : j < s.calls.length) : (s.calls ++ [call])[j]? = s.calls[j]? :=
    List.getElem?_append_left hj
  have hget (j : ℕ) (other : Send) (hj : (s.calls ++ [call])[j]? = some other) :
      s.calls[j]? = some other ∨ j = s.calls.length ∧ other = call := by
    rw [List.getElem?_append] at hj
    split_ifs at hj with hlt
    · exact Or.inl hj
    · rw [List.getElem?_singleton] at hj
      split_ifs at hj with hzero
      exact Or.inr ⟨by omega, (Option.some.inj hj).symm⟩
  have hframe (j : ℕ) (hj : j ∈ s.accepted) :
      ({ s with calls := s.calls ++ [call] } : Can).frameOf j = s.frameOf j :=
    congrArg (Option.map Send.frame) (hold j (hd.known j hj))
  constructor
  · refine ⟨fun j other hj => ?_, fun j other hj => ?_, fun j hj => ?_, hc.free⟩
    · rcases hget j other hj with hj | ⟨rfl, rfl⟩
      · exact hc.call j other hj
      · unfold CallOk
        rw [hpc]
        exact fun hmem => Nat.lt_irrefl _ (hd.known _ hmem)
    · rcases hget j other hj with hj | ⟨rfl, rfl⟩
      · exact hc.holder j other hj
      · have hout : ¬ other.pc.Locked := by simp [hpc, SendPc.Locked]
        exact ⟨fun h => absurd h hout, fun h => absurd (hc.held _ h) (Nat.lt_irrefl _)⟩
    · rw [List.length_append]
      exact Nat.lt_add_right _ (hc.held j hj)
  · refine ⟨hd.payload, hd.single, fun e he => ?_, fun b hb => ?_, hd.accepted, hd.onBus,
      fun j hj => ?_⟩
    · rw [hframe e.call (hd.kept e he).1]
      exact hd.kept e he
    · rw [hframe b.1 (hd.bus b hb).1]
      exact hd.bus b hb
    · rw [List.length_append]
      exact Nat.lt_add_right _ (hd.known j hj)

theorem step_ok {a : Label} (h : Control s ∧ Driver s) (hs : step s a = some t) :
    Control t ∧ Driver t := by
  obtain ⟨hc, hd⟩ := h
  cases a with
  | call canId payload length =>
    obtain rfl := Option.some.inj hs
    exact call_ok hc hd rfl
  | run i outcome =>
    simp only [step] at hs
    split at hs
    · rename_i call hi
      exact sendStep_ok hc hd hi hs
    · cases hs
  | put k =>
    simp only [step] at hs
    split at hs
    · rename_i call hk
      obtain rfl := Option.some.inj hs
      exact ⟨hc.put hd hk, hd.put hk⟩
    · cases hs

/-- Only two places of a call write the buffer. -/
theorem buffer_of_step {a : Label} (hs : step s a = some t) :
    t.txFrame = s.txFrame ∧ t.txPayload = s.txPayload ∨
      t.kept = s.kept ∧ ∃ (i : ℕ) (call : Send), s.calls[i]? = some call ∧
        (call.pc = .copyPayload ∨ call.pc = .fillFrame) := by
  cases a with
  | call canId payload length =>
    obtain rfl := Option.some.inj hs
    exact Or.inl ⟨rfl, rfl⟩
  | put k =>
    simp only [step] at hs
    split at hs
    · obtain rfl := Option.some.inj hs
      exact Or.inl ⟨rfl, rfl⟩
    · cases hs
  | run i outcome =>
    simp only [step] at hs
    split at hs
    · rename_i call hi
      cases hpc : call.pc with
      | copyPayload =>
        simp only [sendStep, hpc] at hs
        split_ifs at hs
        all_goals
          obtain rfl := Option.some.inj hs
          exact Or.inr ⟨rfl, i, call, hi, Or.inl hpc⟩
      | fillFrame =>
        simp only [sendStep, hpc] at hs
        obtain rfl := Option.some.inj hs
        exact Or.inr ⟨rfl, i, call, hi, Or.inr hpc⟩
      | check | take | waitPrevious | transmit | waitOwn =>
        simp only [sendStep, hpc] at hs
        split_ifs at hs
        all_goals
          obtain rfl := Option.some.inj hs
          exact Or.inl ⟨rfl, rfl⟩
      | testPending | clearPrevious | setPending | clearOwn | give =>
        simp only [sendStep, hpc] at hs
        obtain rfl := Option.some.inj hs
        exact Or.inl ⟨rfl, rfl⟩
      | returned error =>
        simp only [sendStep, hpc] at hs
        cases hs
    · cases hs

/-- The buffer is free where a call writes it. -/
theorem kept_eq_nil_of_writes (hc : Control s) (hi : s.calls[i]? = some call)
    (hpc : call.pc = .copyPayload ∨ call.pc = .fillFrame) : s.kept = [] := by
  have hcall := hc.call i call hi
  rcases hpc with hpc | hpc <;> simp only [CallOk, hpc] at hcall
  · exact hcall.2.2.1
  · exact hcall.2.2.1

/-- Whatever the tasks, the mutex and the driver do: the driver keeps at most one frame, and none
while the buffer is written; a frame on the bus has the identifier, the length and the bytes of one
call; the driver accepts, and puts on the bus, the frame of a call at most once; the frame of a call
that has returned `ESP_OK` is completed. -/
theorem transmit_of_run {labels : List Label} (hrun : Run step Free .start labels s) :
    s.kept.length ≤ 1 ∧
      (∀ (i : ℕ) (call : Send), s.calls[i]? = some call →
        call.pc = .copyPayload ∨ call.pc = .fillFrame → s.kept = []) ∧
      (∀ a t, step s a = some t → t.txFrame ≠ s.txFrame ∨ t.txPayload ≠ s.txPayload →
        s.kept = [] ∧ t.kept = []) ∧
      (∀ b ∈ s.bus, s.frameOf b.1 = some b.2) ∧
      s.accepted.Nodup ∧ (s.bus.map Prod.fst).Nodup ∧
      (∀ (i : ℕ) (call : Send), s.calls[i]? = some call → call.pc = .returned espOk →
        i ∈ s.completed ∧ (s.early = false → i ∈ s.bus.map Prod.fst)) := by
  obtain ⟨hc, hd⟩ := hrun.invariant start_ok fun s a t h _ hs => step_ok h hs
  refine ⟨hd.single, fun i call hi hpc => kept_eq_nil_of_writes hc hi hpc,
    fun a t hs hwritten => ?_,
    fun b hb => (hd.bus b hb).2, hd.accepted, hd.onBus, fun i call hi hpc => ?_⟩
  · rcases buffer_of_step hs with ⟨hframe, hpayload⟩ | ⟨hkept, i, call, hi, hpc⟩
    · exact absurd hwritten (by simp [hframe, hpayload])
    · have hempty := kept_eq_nil_of_writes hc hi hpc
      exact ⟨hempty, hkept.trans hempty⟩
  · have hcall := hc.call i call hi
    simp only [CallOk, hpc] at hcall
    exact hcall trivial

/-- A call whose own wait times out, a second one that waits for its frame first, and a third one
that cannot take the mutex meanwhile. -/
def timeoutLabels : List Label :=
  List.flatten [[.call 0x0B1 (some fun k => UInt8.ofNat (k + 1)) 2, .call 0x0B2 (some fun _ => 7) 1,
      .call 0x0A1 none 0],
    List.replicate 7 (.run 0 espOk), [.run 2 0, .run 2 espErrTimeout, .run 0 espErrTimeout,
      .run 0 0, .run 1 0, .run 1 0, .run 1 0, .put 0],
    List.replicate 6 (.run 1 espOk), [.put 0], List.replicate 3 (.run 1 espOk)]

theorem timedOut_sentOnce : ∃ s, exec step .start timeoutLabels = some s ∧
    s.bus = [(0, ⟨0x0B1, 2, [1, 2]⟩), (1, ⟨0x0B2, 1, [7]⟩)] ∧ s.kept.length ≤ 1 := by
  have hsome : (exec step .start timeoutLabels).isSome := by decide
  obtain ⟨s, hs⟩ := Option.isSome_iff_exists.mp hsome
  have hbus : (exec step .start timeoutLabels).map Can.bus =
      some [(0, ⟨0x0B1, 2, [1, 2]⟩), (1, ⟨0x0B2, 1, [7]⟩)] := by decide
  rw [hs] at hbus
  exact ⟨s, hs, Option.some.inj hbus, (transmit_of_run (Run.of_exec_free hs)).1⟩

end BajaDaq.CanTransmit
