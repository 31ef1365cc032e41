import Mathlib.Data.List.Perm.Basic

/-!
# A bounded queue whose producer overwrites

One producer puts items into a bounded queue; when there is no room it receives an item itself and
puts its own once more. The consumer may take items between these operations. `Kept` relates the
queue to the calls of the producer and to what the consumer has taken, and every operation keeps
it.
-/

namespace BajaDaq.OverwritingQueue

variable {α : Type*} {capacity : ℕ}

/-- Where the producer is: outside a call, before its first attempt, before it receives an item to
make room, and before its second attempt. -/
inductive Phase (α : Type*) where
  | idle
  | offer (a : α)
  | makeRoom (a : α)
  | retry (a : α)
  deriving DecidableEq, Repr

/-- A call of the producer: its item, the queue that its first attempt has found, and the queue
from which it has received an item to make room. -/
structure Call (α : Type*) where
  item : α
  found : List α
  received : List α
  deriving DecidableEq, Repr

/-- The item received to make room is the oldest in the queue. -/
def Call.discarded (call : Call α) : Option α := call.received.head?

/-- The calls that have ended, in order, the call in progress, and the items the consumer has
taken. -/
structure History (α : Type*) where
  ended : List (Call α)
  current : Option (Call α)
  taken : List α
  deriving DecidableEq, Repr

namespace History

def calls (h : History α) : List (Call α) := h.ended ++ h.current.toList

def enter (h : History α) (a : α) : History α := { h with current := some ⟨a, [], []⟩ }

/-- The first attempt finds `queue`. -/
def find (h : History α) (queue : List α) : History α :=
  { h with current := h.current.map fun call => { call with found := queue } }

/-- The producer receives an item of `queue`. -/
def makeRoom (h : History α) (queue : List α) : History α :=
  { h with current := h.current.map fun call => { call with received := queue } }

/-- The call in progress returns. -/
def leave (h : History α) : History α := { h with ended := h.calls, current := none }

def take (h : History α) (a : α) : History α := { h with taken := h.taken ++ [a] }

end History

/-- What is known of the call in progress. -/
def InProgress (capacity : ℕ) (queue : List α) : Phase α → Option (Call α) → Prop
  | .idle, none => True
  | .offer a, some call => call.item = a ∧ call.received = []
  | .makeRoom a, some call => call.item = a ∧ call.received = [] ∧ call.found.length = capacity
  | .retry a, some call =>
    call.item = a ∧ call.found.length = capacity ∧ queue.length < capacity
  | _, _ => False

theorem InProgress.mono {queue rest : List α} {phase : Phase α} {current : Option (Call α)}
    (h : InProgress capacity queue phase current) (hlength : rest.length ≤ queue.length) :
    InProgress capacity rest phase current := by
  cases phase with
  | retry a =>
    cases current with
    | none => exact h
    | some call => exact ⟨h.1, h.2.1, Nat.lt_of_le_of_lt hlength h.2.2⟩
  | idle | offer | makeRoom => cases current <;> exact h

/-- The items still there are in the order of the calls, the newest of them included once its call
has ended; the others have been received, each by a call that had found the queue full. -/
structure Kept (capacity : ℕ) (queue : List α) (phase : Phase α) (h : History α) : Prop where
  progress : InProgress capacity queue phase h.current
  bound : queue.length ≤ capacity
  order : (h.taken ++ queue).Sublist (h.ended.map Call.item)
  account : (h.ended.map Call.item).Perm
    (h.taken ++ queue ++ h.calls.filterMap Call.discarded)
  newest : h.current = none → (h.taken ++ queue).getLast? = h.ended.getLast?.map Call.item
  discards : ∀ call ∈ h.calls, ∀ a, call.discarded = some a → call.found.length = capacity

namespace Kept

variable {queue : List α} {a : α} {h : History α} {ended : List (Call α)} {call call' : Call α}
  {taken : List α} {phase phase' : Phase α}

theorem discarded_of_received (h : call.received = []) : call.discarded = none := by
  rw [Call.discarded, h, List.head?_nil]

theorem filterMap_calls (ended : List (Call α)) (call : Call α) (taken : List α) :
    (History.mk ended (some call) taken).calls.filterMap Call.discarded =
      ended.filterMap Call.discarded ++ call.discarded.toList := by
  rw [History.calls, Option.toList_some, List.filterMap_append]
  cases hc : call.discarded <;> simp [hc]

theorem mem_calls {x : Call α} : x ∈ (History.mk ended (some call) taken).calls ↔
    x ∈ ended ∨ x = call := by
  rw [History.calls, Option.toList_some, List.mem_append, List.mem_singleton]

theorem enter (hk : Kept capacity queue .idle h) (a : α) :
    Kept capacity queue (.offer a) (h.enter a) := by
  obtain ⟨ended, _ | call, taken⟩ := h
  · refine ⟨⟨rfl, rfl⟩, hk.bound, hk.order, ?_, nofun, ?_⟩
    · have haccount := hk.account
      rw [History.calls, Option.toList_none, List.append_nil] at haccount
      rw [History.enter, filterMap_calls, discarded_of_received rfl, Option.toList_none,
        List.append_nil]
      exact haccount
    · intro x hx b hb
      rcases mem_calls.mp hx with hx | rfl
      · exact hk.discards x (List.mem_append_left _ hx) b hb
      · cases hb
  · exact hk.progress.elim

/-- The call in progress changes in what it knows, not in what it has discarded. -/
theorem of_call (hk : Kept capacity queue phase ⟨ended, some call, taken⟩)
    (hprogress : InProgress capacity queue phase' (some call'))
    (hdiscarded : call'.discarded = call.discarded)
    (hfound : ∀ a, call'.discarded = some a → call'.found.length = capacity) :
    Kept capacity queue phase' ⟨ended, some call', taken⟩ := by
  refine ⟨hprogress, hk.bound, hk.order, ?_, nofun, ?_⟩
  · have haccount := hk.account
    rw [filterMap_calls] at haccount ⊢
    rwa [hdiscarded]
  · intro x hx b hb
    rcases mem_calls.mp hx with hx | rfl
    · exact hk.discards x (mem_calls.mpr (Or.inl hx)) b hb
    · exact hfound b hb

/-- An item is put behind the others and its call ends. -/
theorem append (hk : Kept capacity queue phase ⟨ended, some call, taken⟩)
    (hroom : queue.length < capacity) :
    Kept capacity (queue ++ [call.item]) .idle ⟨ended ++ [call], none, taken⟩ := by
  refine ⟨trivial, ?_, ?_, ?_, fun _ => ?_, ?_⟩
  · rw [List.length_append, List.length_singleton]
    exact hroom
  · rw [← List.append_assoc, List.map_append, List.map_singleton]
    exact hk.order.append_right _
  · have hcalls : (History.mk (ended ++ [call]) none taken).calls =
        (History.mk ended (some call) taken).calls := by simp [History.calls]
    have haccount := hk.account.append_right [call.item]
    rw [hcalls, List.map_append, List.map_singleton]
    refine haccount.trans ?_
    rw [← List.append_assoc taken, List.append_assoc (taken ++ queue),
      List.append_assoc (taken ++ queue)]
    exact List.perm_append_comm.append_left _
  · rw [← List.append_assoc, List.getLast?_concat, List.getLast?_concat, Option.map_some]
  · intro x hx b hb
    have hx : x ∈ (History.mk ended (some call) taken).calls := by
      simpa [History.calls] using hx
    exact hk.discards x hx b hb

/-- The first attempt succeeds and the call returns. -/
theorem sent (hk : Kept capacity queue (.offer a) h) (hroom : queue.length < capacity) :
    Kept capacity (queue ++ [a]) .idle (h.find queue).leave := by
  obtain ⟨ended, _ | call, taken⟩ := h
  · exact hk.progress.elim
  · obtain ⟨rfl, hreceived⟩ := hk.progress
    have hdiscarded := discarded_of_received hreceived
    have hfound : Kept capacity queue (.offer call.item)
        ⟨ended, some { call with found := queue }, taken⟩ :=
      hk.of_call ⟨rfl, hreceived⟩ rfl fun b hb => nomatch hdiscarded.symm.trans hb
    exact hfound.append hroom

/-- The first attempt finds the queue full. -/
theorem refused (hk : Kept capacity queue (.offer a) h) (hfull : ¬ queue.length < capacity) :
    Kept capacity queue (.makeRoom a) (h.find queue) := by
  obtain ⟨ended, _ | call, taken⟩ := h
  · exact hk.progress.elim
  · obtain ⟨rfl, hreceived⟩ := hk.progress
    have hlength : queue.length = capacity := Nat.le_antisymm hk.bound (Nat.not_lt.mp hfull)
    exact hk.of_call ⟨rfl, hreceived, hlength⟩ rfl fun _ _ => hlength

/-- The producer receives the oldest item; the consumer may have taken all of them before. -/
theorem madeRoom (hk : Kept capacity queue (.makeRoom a) h) (hpositive : 0 < capacity) :
    Kept capacity queue.tail (.retry a) (h.makeRoom queue) := by
  obtain ⟨ended, _ | call, taken⟩ := h
  · exact hk.progress.elim
  · obtain ⟨rfl, hreceived, hfound⟩ := hk.progress
    have hbound := hk.bound
    have hroom : queue.tail.length < capacity := by
      rw [List.length_tail]
      omega
    have haccount := hk.account
    rw [filterMap_calls, discarded_of_received hreceived, Option.toList_none, List.append_nil]
      at haccount
    refine ⟨⟨rfl, hfound, hroom⟩, Nat.le_of_lt hroom, ?_, ?_, nofun, ?_⟩
    · exact ((List.tail_sublist queue).append_left _).trans hk.order
    · refine haccount.trans ?_
      rw [History.makeRoom, Option.map_some, filterMap_calls]
      cases queue with
      | nil => simp [Call.discarded]
      | cons b rest =>
        simp only [Call.discarded, List.head?_cons, Option.toList_some, List.tail_cons]
        rw [List.append_assoc, List.append_assoc, ← List.append_assoc rest]
        exact (List.perm_append_singleton b _).symm.append_left _
    · intro x hx b hb
      rcases mem_calls.mp hx with hx | rfl
      · exact hk.discards x (mem_calls.mpr (Or.inl hx)) b hb
      · exact hfound

/-- The second attempt finds room. -/
theorem resent (hk : Kept capacity queue (.retry a) h) :
    queue.length < capacity ∧ Kept capacity (queue ++ [a]) .idle h.leave := by
  obtain ⟨ended, _ | call, taken⟩ := h
  · exact hk.progress.elim
  · obtain ⟨rfl, -, hroom⟩ := hk.progress
    exact ⟨hroom, hk.append hroom⟩

/-- The consumer takes the oldest item. -/
theorem taken_head {rest : List α} (hk : Kept capacity (a :: rest) phase h) :
    Kept capacity rest phase (h.take a) := by
  have hbound := hk.bound
  rw [List.length_cons] at hbound
  have hlist : (h.take a).taken ++ rest = h.taken ++ a :: rest := by
    rw [History.take, List.append_assoc, List.singleton_append]
  have hshorter : rest.length ≤ (a :: rest).length := Nat.le_succ _
  refine ⟨hk.progress.mono hshorter, by omega, hlist ▸ hk.order, ?_, fun hcurrent => ?_,
    hk.discards⟩
  · rw [hlist]
    exact hk.account
  · rw [hlist]
    exact hk.newest hcurrent

end Kept
end BajaDaq.OverwritingQueue
