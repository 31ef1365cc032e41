import BajaDaq.RateSetup
import BajaDaq.UnrepeatedPattern
import Mathlib.Data.List.ReduceOption

/-!
# Waiting for an acknowledgement

`wait_for_ack` over what `uart_read_bytes` returns until the deadline: a byte, or nothing within
10 ms. The receiver may send anything.
-/

namespace BajaDaq.AckSearch
open UbxConfig UnrepeatedPattern

/-- The loop of `wait_for_ack`: what it returns, and the reads that it leaves to others. -/
def waitFrom (ack : List UInt8) : ℕ → List (Option UInt8) → Bool × List (Option UInt8)
  | _, [] => (false, [])
  | matched, none :: reads => waitFrom ack matched reads
  | matched, some byte :: reads =>
    if ack[matched]? = some byte then
      if matched + 1 = ack.length then (true, reads) else waitFrom ack (matched + 1) reads
    else waitFrom ack (if ack[0]? = some byte then 1 else 0) reads

def waitForAck (ack : List UInt8) (reads : List (Option UInt8)) : Bool × List (Option UInt8) :=
  waitFrom ack 0 reads

theorem unrepeated_ackOf (command : RateCommand) : Unrepeated (ackOf command) :=
  fun _ h => @first_of_ackOf command command _ h

/-- The loop is the search over the bytes read. -/
theorem waitFrom_eq {ack : List UInt8} (hlength : 1 < ack.length) {matched : ℕ}
    (reads : List (Option UInt8)) :
    (waitFrom ack matched reads).2 <:+ reads ∧
      searchFrom ack matched reads.reduceOption =
        if (waitFrom ack matched reads).1 then some (waitFrom ack matched reads).2.reduceOption
        else none := by
  induction reads generalizing matched with
  | nil => exact ⟨List.suffix_rfl, rfl⟩
  | cons read reads ih =>
    cases read with
    | none =>
      obtain ⟨hsuffix, hsearch⟩ := @ih matched
      rw [waitFrom, List.reduceOption_cons_of_none]
      exact ⟨hsuffix.trans (List.suffix_cons _ _), hsearch⟩
    | some byte =>
      have hrest (k : ℕ) : (waitFrom ack k reads).2 <:+ some byte :: reads :=
        (@ih k).1.trans (List.suffix_cons _ _)
      rw [List.reduceOption_cons_of_some, searchFrom, waitFrom, advance]
      by_cases hnext : ack[matched]? = some byte
      · rw [if_pos hnext, if_pos hnext]
        by_cases hlast : matched + 1 = ack.length
        · rw [if_pos hlast, if_pos hlast]
          exact ⟨List.suffix_cons _ _, rfl⟩
        · rw [if_neg hlast, if_neg hlast]
          exact ⟨hrest _, ih.2⟩
      · -- starting again, even with the first byte, does not reach the end
        have hshort : (if ack[0]? = some byte then 1 else 0) ≠ ack.length := by
          split_ifs <;> omega
        rw [if_neg hnext, if_neg hnext, if_neg hshort]
        exact ⟨hrest _, ih.2⟩

/-- `wait_for_ack` returns true exactly if the acknowledgement is a block of the bytes read before
the deadline, and has then read the bytes up to the end of its first occurrence. -/
theorem waitForAck_exact (command : RateCommand) (reads : List (Option UInt8)) :
    let ack := ackOf command
    let result := waitForAck ack reads
    (result.1 = true ↔ ack <:+: reads.reduceOption) ∧
      ∃ consumed, reads = consumed ++ result.2 ∧
        (result.1 = true → EndsFirst ack consumed.reduceOption) := by
  intro ack result
  have hlength : ack.length = 10 := length_ackOf command
  have hoverlap : Overlap ack [] 0 := by
    refine ⟨by omega, List.nil_suffix, fun k hk hnil => ?_⟩
    have hzero := congrArg List.length (List.suffix_nil.mp hnil)
    rw [List.length_take_of_le hk, List.length_nil] at hzero
    exact hzero.le
  have hnew : ¬ ack <:+: [] := by
    rw [List.infix_nil]
    exact List.ne_nil_of_length_pos (by omega)
  have hspec := @searchFrom_spec _ _ _ reads.reduceOption _ _ (unrepeated_ackOf command)
    hoverlap hnew
  obtain ⟨⟨consumed, hconsumed⟩, hsearch⟩ := @waitFrom_eq ack (by omega) 0 reads
  change consumed ++ result.2 = reads at hconsumed
  change searchFrom ack 0 reads.reduceOption =
    if result.1 then some result.2.reduceOption else none at hsearch
  rw [hsearch] at hspec
  cases hresult : result.1 with
  | true =>
    rw [hresult, if_pos rfl] at hspec
    obtain ⟨c, hc, hfirst⟩ := hspec
    have hbytes : c = consumed.reduceOption := by
      rw [← hconsumed, List.reduceOption_append] at hc
      exact (List.append_cancel_right hc).symm
    rw [List.nil_append] at hfirst
    have hinfix : ack <:+: reads.reduceOption := by
      rw [hc]
      exact hfirst.1.isInfix.trans (List.prefix_append c _).isInfix
    exact ⟨⟨fun _ => hinfix, fun _ => rfl⟩, consumed, hconsumed.symm, fun _ => hbytes ▸ hfirst⟩
  | false =>
    rw [hresult, if_neg Bool.false_ne_true, List.nil_append] at hspec
    exact ⟨⟨nofun, fun h => absurd h hspec⟩, consumed, hconsumed.symm, nofun⟩

/-- The beginning of an acknowledgement, another one, a whole one and a byte behind it. -/
example :
    let first := ackOf ⟨0, by decide⟩
    let other := ackOf ⟨5, by decide⟩
    waitForAck first ((first.take 6 ++ other ++ first ++ [0x24]).map some) =
      (true, [some 0x24]) := by
  decide

/-- The model of the whole setup counts as the search does. -/
theorem matchByte_eq_advance (ack : List UInt8) (matched : ℕ) (byte : UInt8) :
    RateSetup.matchByte ack matched byte = advance ack matched byte := rfl

end BajaDaq.AckSearch
