import BajaDaq.TransitionRuns
import BajaDaq.UbxConfig

/-!
# The setup of the update rate over a lossy link

`configure_update_rate` and `wait_for_ack` of the master, and the receiver as it is assumed: it
applies intact commands in order and queues one acknowledgement for each. Commands and
acknowledgements may be lost, and an acknowledgement may stay queued for any time. A frame is
known by the number of its command, and the bytes on the UART are those of whole frames and of
sentences.
-/

namespace BajaDaq.RateSetup
open TransitionRuns UbxConfig

def gpsCommandAttempts : ℕ := 2

/-- The last command, CFG-RATE. -/
def cfgRate : RateCommand := ⟨5, by decide⟩

/-- Where `configure_update_rate` is: before the iteration for a command, before an attempt, or in
`wait_for_ack`. -/
inductive SetupPc where
  | command (i : ℕ)
  | attempt (i : RateCommand) (attempt : ℕ)
  | waiting (i : RateCommand) (attempt matched : ℕ)
  | finished
  deriving DecidableEq, Repr

/-- A byte of a sentence. -/
abbrev SentenceByte := { byte : UInt8 // byte < 0x80 }

/-- What comes over the UART: bytes of sentences, and acknowledgements of which the first `read`
bytes have been read. -/
inductive Incoming where
  | nmea (byte : SentenceByte)
  | ack (command : RateCommand) (read : ℕ)
  deriving DecidableEq, Repr

structure System where
  pc : SetupPc
  acknowledged : ℕ
  /-- every command written to the UART -/
  transmitted : List RateCommand
  /-- commands on their way to the receiver -/
  commands : List RateCommand
  /-- what the receiver has applied, and the commands whose acknowledgements it still holds -/
  applied : List RateCommand
  acks : List RateCommand
  uart : List Incoming
  deriving DecidableEq, Repr

def System.start : System := ⟨.command 0, 0, [], [], [], [], []⟩

inductive Label where
  | next
  | write
  | read
  | timeout
  | loseCommand
  | apply
  | loseAck
  | sendAck
  | sentence (byte : SentenceByte)
  deriving DecidableEq, Repr

/-- `uart_read_bytes` of one byte: the byte and what is left. -/
def uartReadByte : List Incoming → Option (UInt8 × List Incoming)
  | [] => none
  | .nmea byte :: rest => some (byte.val, rest)
  | .ack command read :: rest =>
    (ackOf command)[read]?.map (fun byte =>
      (byte, if read + 1 < ackLength then .ack command (read + 1) :: rest else rest))

/-- `matched` after one more byte. -/
def matchByte (ack : List UInt8) (matched : ℕ) (byte : UInt8) : ℕ :=
  if ack[matched]? = some byte then matched + 1
  else if ack[0]? = some byte then 1 else 0

/-- The head of the loop over the commands. The end flushes the UART. -/
def next (s : System) (i : ℕ) : System :=
  if h : i < ubxRateCommandCount then
    if i = ubxRateCommandCount - 1 ∧ s.acknowledged < i then { s with pc := .finished, uart := [] }
    else { s with pc := .attempt ⟨i, h⟩ 0 }
  else { s with pc := .finished, uart := [] }

/-- The head of the loop over the attempts. -/
def write (s : System) (i : RateCommand) (attempt : ℕ) : System :=
  if attempt < gpsCommandAttempts then
    { s with
      pc := .waiting i attempt 0
      transmitted := s.transmitted ++ [i]
      commands := s.commands ++ [i] }
  else { s with pc := .command (i + 1) }

/-- One byte in `wait_for_ack`. -/
def receive (s : System) (i : RateCommand) (attempt matched : ℕ) (byte : UInt8) : System :=
  if matchByte (ackOf i) matched byte = (ackOf i).length then
    { s with pc := .command (i + 1), acknowledged := s.acknowledged + 1 }
  else { s with pc := .waiting i attempt (matchByte (ackOf i) matched byte) }

def step (s : System) : Label → Option System
  | .next =>
    match s.pc with
    | .command i => some (next s i)
    | _ => none
  | .write =>
    match s.pc with
    | .attempt i attempt => some (write s i attempt)
    | _ => none
  | .read =>
    match s.pc with
    | .waiting i attempt matched =>
      (uartReadByte s.uart).map (fun r => receive { s with uart := r.2 } i attempt matched r.1)
    | _ => none
  | .timeout =>
    match s.pc with
    | .waiting i attempt _ => some { s with pc := .attempt i (attempt + 1) }
    | _ => none
  | .loseCommand =>
    match s.commands with
    | _ :: commands => some { s with commands := commands }
    | [] => none
  | .apply =>
    match s.commands with
    | command :: commands => some { s with
        commands := commands
        applied := s.applied ++ [command]
        acks := s.acks ++ [command] }
    | [] => none
  | .loseAck =>
    match s.acks with
    | _ :: acks => some { s with acks := acks }
    | [] => none
  | .sendAck =>
    match s.acks with
    | command :: acks => some { s with acks := acks, uart := s.uart ++ [.ack command 0] }
    | [] => none
  | .sentence byte => some { s with uart := s.uart ++ [.nmea byte] }

/-- CFG-RATE is sent only with the five sentences off. -/
def RateAfterSentences (s : System) : Prop :=
  cfgRate ∈ s.transmitted → ∀ i : RateCommand, i < cfgRate → i ∈ s.applied

/-- The last byte of an acknowledgement ends a wait only if it answers the command of the wait. -/
def ackIsCurrent (s : System) : Label → Bool
  | .read =>
    match s.pc, s.uart with
    | .waiting i _ matched, .ack command _ :: _ => matched + 1 < ackLength || command == i
    | _, _ => true
  | _ => true

/-- The number of the command that the setup has reached. -/
def SetupPc.reached : SetupPc → Option ℕ
  | .command i => some i
  | .attempt i _ | .waiting i _ _ => some i
  | .finished => none

/-- The command that is being sent. -/
def SetupPc.chosen : SetupPc → Option RateCommand
  | .attempt i _ | .waiting i _ _ => some i
  | .command _ | .finished => none

/-- Bytes that match are the leading bytes of the acknowledgement that is being read. -/
def Matching (pc : SetupPc) (uart : List Incoming) : Prop :=
  match pc with
  | .waiting _ _ matched => matched = 0 ∨ ∃ command rest, uart = .ack command matched :: rest
  | _ => True

structure SetupInvariant (s : System) : Prop where
  acks : ∀ command ∈ s.acks, command ∈ s.applied
  uart : ∀ command read, .ack command read ∈ s.uart → command ∈ s.applied
  matching : Matching s.pc s.uart
  counted : ∀ i, s.pc.reached = some i → s.acknowledged ≤ i ∧
    (s.acknowledged = i → ∀ j : RateCommand, j.val < i → j ∈ s.applied)
  gate : s.pc.chosen = some cfgRate → cfgRate.val ≤ s.acknowledged
  rate : RateAfterSentences s

variable {s t : System}

theorem setupInvariant_start : SetupInvariant .start where
  acks := fun _ h => nomatch h
  uart := fun _ _ h => nomatch h
  matching := trivial
  counted := fun i h => ⟨Nat.zero_le i, fun hi j hj => by
    obtain rfl : 0 = i := Option.some.inj h
    exact absurd hj (Nat.not_lt_zero _)⟩
  gate := fun h => nomatch h
  rate := fun h => nomatch h

/-- A step of the link or of the receiver. -/
theorem SetupInvariant.link (hI : SetupInvariant s) (hpc : t.pc = s.pc)
    (hacknowledged : t.acknowledged = s.acknowledged) (htransmitted : t.transmitted = s.transmitted)
    (happlied : ∀ command ∈ s.applied, command ∈ t.applied)
    (hacks : ∀ command ∈ t.acks, command ∈ t.applied)
    (huart : ∀ command read, .ack command read ∈ t.uart → command ∈ t.applied)
    (hgrows : s.uart <+: t.uart) : SetupInvariant t where
  acks := hacks
  uart := huart
  matching := by
    obtain ⟨more, hmore⟩ := hgrows
    have hmatching := hI.matching
    rw [hpc, ← hmore]
    cases hs : s.pc with
    | waiting i attempt matched =>
      rw [hs] at hmatching
      rcases hmatching with hzero | ⟨command, rest, hrest⟩
      · exact Or.inl hzero
      · exact Or.inr ⟨command, rest ++ more, by rw [hrest, List.cons_append]⟩
    | _ => trivial
  counted := by
    intro i hi
    rw [hpc] at hi
    obtain ⟨hle, hall⟩ := hI.counted i hi
    rw [hacknowledged]
    exact ⟨hle, fun heq j hj => happlied j (hall heq j hj)⟩
  gate := by
    rw [hpc, hacknowledged]
    exact hI.gate
  rate := by
    intro hsent i hi
    rw [htransmitted] at hsent
    exact happlied i (hI.rate hsent i hi)

/-- A step of the master that neither sends nor counts. -/
theorem SetupInvariant.master (hI : SetupInvariant s) {pc : SetupPc} {uart : List Incoming}
    (huart : ∀ command read, .ack command read ∈ uart → command ∈ s.applied)
    (hmatching : Matching pc uart)
    (hreached : ∀ i, pc.reached = some i → ∃ j ≤ i, s.pc.reached = some j)
    (hgate : pc.chosen = some cfgRate → cfgRate.val ≤ s.acknowledged) :
    SetupInvariant { s with pc := pc, uart := uart } where
  acks := hI.acks
  uart := huart
  matching := hmatching
  counted := by
    intro i hi
    obtain ⟨j, hj, hreach⟩ := hreached i hi
    obtain ⟨hle, hall⟩ := hI.counted j hreach
    refine ⟨Nat.le_trans hle hj, fun hcount => ?_⟩
    obtain rfl : j = i := Nat.le_antisymm hj (hcount ▸ hle)
    exact hall hcount
  gate := hgate
  rate := hI.rate

theorem SetupInvariant.finish (hI : SetupInvariant s) :
    SetupInvariant { s with pc := .finished, uart := [] } :=
  hI.master (fun _ _ h => nomatch h) trivial (fun _ h => nomatch h) (fun h => nomatch h)

theorem setupInvariant_next (hI : SetupInvariant s) {i : ℕ} (hpc : s.pc = .command i) :
    SetupInvariant (next s i) := by
  unfold next
  split
  · next hi =>
    split
    · exact hI.finish
    · next hgate =>
      refine hI.master hI.uart trivial ?_ ?_
      · intro j hj
        obtain rfl : i = j := Option.some.inj hj
        exact ⟨i, Nat.le_refl i, by rw [hpc]; rfl⟩
      · intro hchosen
        have hlast : i = cfgRate.val := congrArg Fin.val (Option.some.inj hchosen)
        have hnot : ¬ s.acknowledged < i := fun h => hgate ⟨hlast, h⟩
        omega
  · exact hI.finish

theorem setupInvariant_write (hI : SetupInvariant s) {i : RateCommand} {attempt : ℕ}
    (hpc : s.pc = .attempt i attempt) : SetupInvariant (write s i attempt) := by
  have hreached : s.pc.reached = some i.val := by rw [hpc]; rfl
  have hchosen : s.pc.chosen = some i := by rw [hpc]; rfl
  unfold write
  split
  · refine ⟨hI.acks, hI.uart, Or.inl rfl, ?_, ?_, ?_⟩
    · intro j hj
      exact hI.counted j (hreached.trans hj)
    · intro h
      exact hI.gate (hchosen.trans h)
    · intro hsent j hj
      rcases List.mem_append.mp hsent with hsent | hsent
      · exact hI.rate hsent j hj
      · -- CFG-RATE itself is sent: all five acknowledgements were counted.
        obtain rfl := List.mem_singleton.mp hsent
        obtain ⟨hle, hall⟩ := hI.counted _ hreached
        exact hall (Nat.le_antisymm hle (hI.gate hchosen)) j hj
  · refine hI.master hI.uart trivial ?_ (fun h => nomatch h)
    intro j hj
    obtain rfl : i.val + 1 = j := Option.some.inj hj
    exact ⟨i.val, Nat.le_succ _, hreached⟩

theorem uartReadByte_cases {uart rest : List Incoming} {byte : UInt8}
    (h : uartReadByte uart = some (byte, rest)) :
    (∃ b : SentenceByte, byte = b.val ∧ uart = .nmea b :: rest) ∨
      ∃ command read tail, uart = .ack command read :: tail ∧
        (ackOf command)[read]? = some byte ∧
        rest = if read + 1 < ackLength then .ack command (read + 1) :: tail else tail := by
  cases uart with
  | nil => cases h
  | cons item tail =>
    cases item with
    | nmea b =>
      cases h
      exact Or.inl ⟨b, rfl, rfl⟩
    | ack command read =>
      obtain ⟨x, hx, heq⟩ := Option.map_eq_some_iff.mp h
      cases heq
      exact Or.inr ⟨command, read, tail, rfl, hx, rfl⟩

theorem ack_mem_rest {uart rest : List Incoming} {byte : UInt8} {command : RateCommand} {read : ℕ}
    (h : uartReadByte uart = some (byte, rest)) (hmem : .ack command read ∈ rest) :
    ∃ read', .ack command read' ∈ uart := by
  rcases uartReadByte_cases h with ⟨b, -, rfl⟩ | ⟨command', read', tail, rfl, -, rfl⟩
  · exact ⟨read, List.mem_cons_of_mem _ hmem⟩
  · split at hmem
    · rcases List.mem_cons.mp hmem with heq | htail
      · cases heq
        exact ⟨read', List.mem_cons_self⟩
      · exact ⟨read, List.mem_cons_of_mem _ htail⟩
    · exact ⟨read, List.mem_cons_of_mem _ hmem⟩

/-- A sentence does not match, and an acknowledgement only from its first byte on. -/
theorem matchByte_cases {i : RateCommand} {attempt matched : ℕ} {uart rest : List Incoming}
    {byte : UInt8} (hmatching : Matching (.waiting i attempt matched) uart)
    (h : uartReadByte uart = some (byte, rest)) :
    matchByte (ackOf i) matched byte = 0 ∨
      ∃ command read tail, uart = .ack command read :: tail ∧ read < ackLength ∧
        matchByte (ackOf i) matched byte = read + 1 ∧
        rest = if read + 1 < ackLength then .ack command (read + 1) :: tail else tail := by
  rcases uartReadByte_cases h with ⟨b, rfl, rfl⟩ | ⟨command, read, tail, rfl, hbyte, rfl⟩
  · rcases hmatching with rfl | ⟨command, tail, hhead⟩
    · left
      rw [matchByte, if_neg (ascii_ne_first b.property), if_neg (ascii_ne_first b.property)]
    · cases hhead
  · have hread : read < ackLength := by
      rw [← length_ackOf command]
      exact (List.getElem?_eq_some_iff.mp hbyte).1
    have hfirst : (ackOf i)[0]? = some byte → read = 0 := fun hzero =>
      first_of_ackOf (hbyte.trans hzero.symm)
    have hmatched : matched = 0 ∨ matched = read := by
      rcases hmatching with hzero | ⟨command', tail', hhead⟩
      · exact Or.inl hzero
      · cases hhead
        exact Or.inr rfl
    unfold matchByte
    split
    · next hnext =>
      right
      refine ⟨command, read, tail, rfl, hread, ?_, rfl⟩
      rcases hmatched with rfl | rfl
      · rw [hfirst hnext]
      · rfl
    · split
      · next hzero => exact Or.inr ⟨command, read, tail, rfl, hread, by rw [hfirst hzero], rfl⟩
      · exact Or.inl rfl

theorem setupInvariant_receive (hI : SetupInvariant s) {i : RateCommand} {attempt matched : ℕ}
    {byte : UInt8} {rest : List Incoming} (hpc : s.pc = .waiting i attempt matched)
    (hread : uartReadByte s.uart = some (byte, rest)) (hC : ackIsCurrent s .read = true) :
    SetupInvariant (receive { s with uart := rest } i attempt matched byte) := by
  have hmatching := hI.matching
  rw [hpc] at hmatching
  have hcases := matchByte_cases hmatching hread
  have huart : ∀ command read, .ack command read ∈ rest → command ∈ s.applied := by
    intro command read hmem
    obtain ⟨read', hmem'⟩ := ack_mem_rest hread hmem
    exact hI.uart command read' hmem'
  unfold receive
  split
  · next hlast =>
    rw [length_ackOf] at hlast
    -- The acknowledgement that ends the wait answers this command.
    have happlied : i ∈ s.applied := by
      rcases hcases with hzero | ⟨command, read, tail, hhead, hlt, hnext, -⟩
      · exact absurd (hzero.symm.trans hlast) (by decide)
      · have hten : matched + 1 = ackLength := by
          unfold matchByte at hlast
          split at hlast
          · exact hlast
          · split at hlast
            · exact absurd hlast (by decide)
            · exact absurd hlast (by decide)
        rw [ackIsCurrent, hpc, hhead, Bool.or_eq_true, decide_eq_true_iff, beq_iff_eq] at hC
        rcases hC with hearly | rfl
        · omega
        · exact hI.uart command read (by rw [hhead]; exact List.mem_cons_self)
    obtain ⟨hle, hall⟩ := hI.counted i (by rw [hpc]; rfl)
    refine ⟨hI.acks, huart, trivial, ?_, (fun h => nomatch h), hI.rate⟩
    intro j hj
    obtain rfl : i.val + 1 = j := Option.some.inj hj
    refine ⟨Nat.succ_le_succ hle, fun hcount k hk => ?_⟩
    rcases Nat.lt_succ_iff_lt_or_eq.mp hk with hk | hk
    · exact hall (Nat.succ.inj hcount) k hk
    · rw [Fin.ext hk]
      exact happlied
  · next hlast =>
    rw [length_ackOf] at hlast
    refine hI.master huart ?_ ?_ ?_
    · rcases hcases with hzero | ⟨command, read, tail, -, hlt, hnext, hrest⟩
      · exact Or.inl hzero
      · rw [hnext] at hlast ⊢
        rw [if_pos (by omega)] at hrest
        exact Or.inr ⟨command, tail, hrest⟩
    · intro j hj
      exact ⟨j, Nat.le_refl j, by rw [hpc]; exact hj⟩
    · intro hchosen
      exact hI.gate (by rw [hpc]; exact hchosen)

theorem setupInvariant_timeout (hI : SetupInvariant s) {i : RateCommand} {attempt matched : ℕ}
    (hpc : s.pc = .waiting i attempt matched) :
    SetupInvariant { s with pc := .attempt i (attempt + 1) } := by
  refine hI.master hI.uart trivial ?_ ?_
  · intro j hj
    exact ⟨j, Nat.le_refl j, by rw [hpc]; exact hj⟩
  · intro hchosen
    exact hI.gate (by rw [hpc]; exact hchosen)

theorem setupInvariant_step {label : Label} (hI : SetupInvariant s)
    (hC : ackIsCurrent s label = true) (h : step s label = some t) : SetupInvariant t := by
  cases label with
  | next =>
    simp only [step] at h
    split at h
    · next i hpc =>
      obtain rfl := Option.some.inj h
      exact setupInvariant_next hI hpc
    · cases h
  | write =>
    simp only [step] at h
    split at h
    · next i attempt hpc =>
      obtain rfl := Option.some.inj h
      exact setupInvariant_write hI hpc
    · cases h
  | read =>
    simp only [step] at h
    split at h
    · next i attempt matched hpc =>
      obtain ⟨⟨byte, rest⟩, hread, rfl⟩ := Option.map_eq_some_iff.mp h
      exact setupInvariant_receive hI hpc hread hC
    · cases h
  | timeout =>
    simp only [step] at h
    split at h
    · next i attempt matched hpc =>
      obtain rfl := Option.some.inj h
      exact setupInvariant_timeout hI hpc
    · cases h
  | loseCommand =>
    simp only [step] at h
    split at h
    · obtain rfl := Option.some.inj h
      exact hI.link rfl rfl rfl (fun _ h => h) hI.acks hI.uart List.prefix_rfl
    · cases h
  | apply =>
    simp only [step] at h
    split at h
    · next command commands _ =>
      obtain rfl := Option.some.inj h
      refine hI.link rfl rfl rfl (fun _ h => List.mem_append_left _ h) ?_ ?_ List.prefix_rfl
      · intro c hc
        rcases List.mem_append.mp hc with hc | hc
        · exact List.mem_append_left _ (hI.acks c hc)
        · exact List.mem_append_right _ hc
      · intro c read hc
        exact List.mem_append_left _ (hI.uart c read hc)
    · cases h
  | loseAck =>
    simp only [step] at h
    split at h
    · next command acks hacks =>
      obtain rfl := Option.some.inj h
      refine hI.link rfl rfl rfl (fun _ h => h) ?_ hI.uart List.prefix_rfl
      intro c hc
      exact hI.acks c (by rw [hacks]; exact List.mem_cons_of_mem _ hc)
    · cases h
  | sendAck =>
    simp only [step] at h
    split at h
    · next command acks hacks =>
      obtain rfl := Option.some.inj h
      refine hI.link rfl rfl rfl (fun _ h => h) ?_ ?_ (List.prefix_append _ _)
      · intro c hc
        exact hI.acks c (by rw [hacks]; exact List.mem_cons_of_mem _ hc)
      · intro c read hc
        rcases List.mem_append.mp hc with hc | hc
        · exact hI.uart c read hc
        · cases List.mem_singleton.mp hc
          exact hI.acks command (by rw [hacks]; exact List.mem_cons_self)
    · cases h
  | sentence byte =>
    simp only [step] at h
    obtain rfl := Option.some.inj h
    refine hI.link rfl rfl rfl (fun _ h => h) hI.acks ?_ (List.prefix_append _ _)
    intro c read hc
    rcases List.mem_append.mp hc with hc | hc
    · exact hI.uart c read hc
    · cases List.mem_singleton.mp hc

/-- In every run in which no wait is ended by the acknowledgement of another command, CFG-RATE is
sent only after the receiver has applied all five CFG-MSG commands. -/
theorem rateAfterSentences_of_run {labels : List Label}
    (h : Run step (fun s label => ackIsCurrent s label = true) .start labels s) :
    RateAfterSentences s :=
  (h.invariant setupInvariant_start (fun _ _ _ hI hC => setupInvariant_step hI hC)).rate

/-- One acknowledged attempt, with a byte of a sentence before the acknowledgement. -/
def confirmed : List Label :=
  [.next, .write, .apply, .sentence ⟨0x24, by decide⟩, .sendAck] ++ List.replicate 11 .read

/-- The setup with every command confirmed in its first attempt. -/
def promptAcks : List Label := (List.replicate 6 confirmed).flatten

theorem promptAcks_rateAfterSentences :
    ∃ s, Run step (fun s label => ackIsCurrent s label = true) .start promptAcks s ∧
      cfgRate ∈ s.transmitted ∧ RateAfterSentences s := by
  have h : Run step (fun s label => ackIsCurrent s label = true) .start promptAcks _ :=
    Run.of_exec rfl
  exact ⟨_, h, by decide, rateAfterSentences_of_run h⟩

/-- The acknowledgement of the first copy of command 0 arrives after its timeout and confirms the
second copy, whose own acknowledgement then confirms command 1, which was lost. -/
def lateAck : List Label :=
  [.next, .write, .apply, .timeout, .write, .apply, .sendAck, .sendAck] ++
    List.replicate 10 .read ++ [.next, .write, .loseCommand] ++ List.replicate 10 .read ++
    (List.replicate 3 confirmed).flatten ++ [.next, .write]

theorem lateAck_not_rateAfterSentences :
    ∃ s, Run step Free .start lateAck s ∧ cfgRate ∈ s.transmitted ∧
      ¬ RateAfterSentences s := by
  refine ⟨_, Run.of_exec_free rfl, by decide, fun h => ?_⟩
  exact absurd (h (by decide) ⟨1, by decide⟩ (by decide)) (by decide)

end BajaDaq.RateSetup
