import Mathlib.Data.List.SplitBy
import Mathlib.Order.Basic

/-!
# Bursts of a growing list

A list is split into maximal runs in which each element follows closely on the one before it.
-/

namespace BajaDaq.ListBursts

variable {α τ : Type*} {close : α → α → Bool} {xs : List α} {x : α}

/-- An element that does not follow closely is a burst of its own. -/
theorem splitBy_concat_of_far (h : ∀ y ∈ xs.getLast?, close y x = false) :
    (xs ++ [x]).splitBy close = xs.splitBy close ++ [[x]] :=
  List.splitBy_append_cons [] h

/-- An element that does belongs to the last burst. -/
theorem splitBy_concat_of_close {front : List (List α)} {last : List α} (hlast : last ≠ [])
    (h : xs.splitBy close = front ++ [last]) (hx : close (last.getLast hlast) x = true) :
    (xs ++ [x]).splitBy close = front ++ [last ++ [x]] := by
  obtain ⟨hxs, hnil, hchain, hfar⟩ := List.splitBy_eq_iff.mp h
  rw [hxs, List.flatten_append, List.append_assoc]
  obtain ⟨hfront, -, hjoint⟩ := List.isChain_append.mp hfar
  refine List.splitBy_eq_iff.mpr ⟨by simp, ?_, ?_, ?_⟩
  · simp only [List.mem_append, List.mem_singleton, not_or] at hnil ⊢
    exact ⟨hnil.1, fun hempty => by simp at hempty⟩
  · intro burst hburst
    rcases List.mem_append.mp hburst with hold | hnew
    · exact hchain burst (List.mem_append_left _ hold)
    · obtain rfl := List.mem_singleton.mp hnew
      refine List.isChain_append.mpr ⟨hchain last (by simp), List.isChain_singleton x, ?_⟩
      intro y hy z hz
      obtain rfl : x = z := by simpa using hz
      rw [List.getLast?_eq_some_getLast hlast, Option.mem_some] at hy
      rw [← hy]
      exact hx
  · refine List.isChain_append.mpr ⟨hfront, List.isChain_singleton _, ?_⟩
    intro burst hburst burst' hburst'
    obtain ⟨hnonempty, hhead, hgap⟩ := hjoint burst hburst last (by simp)
    obtain rfl : last ++ [x] = burst' := by simpa using hburst'
    refine ⟨hnonempty, by simp, ?_⟩
    rw [List.head_append_of_ne_nil hhead]
    exact hgap

/-- A list that is not empty has a last burst, which ends with its last element. -/
theorem exists_last_burst (close : α → α → Bool) (hxs : xs ≠ []) :
    ∃ front last, xs.splitBy close = front ++ [last] ∧ last ≠ [] ∧
      last.getLast? = xs.getLast? := by
  have hbursts : xs.splitBy close ≠ [] := List.splitBy_ne_nil.mpr hxs
  refine ⟨(xs.splitBy close).dropLast, (xs.splitBy close).getLast hbursts,
    (List.dropLast_append_getLast hbursts).symm, ?_, ?_⟩
  · exact List.ne_nil_of_mem_splitBy (List.getLast_mem hbursts)
  · have hlast : (xs.splitBy close).getLast hbursts ≠ [] :=
      List.ne_nil_of_mem_splitBy (List.getLast_mem hbursts)
    rw [List.getLast?_eq_some_getLast hlast, List.getLast?_eq_some_getLast hxs,
      List.getLast_getLast_splitBy close hxs]

/-- Where elements that do not follow closely are later, the bursts begin later and later. -/
theorem pairwise_heads [Preorder τ] {time : α → τ}
    (hsorted : xs.Pairwise fun a b => time a ≤ time b)
    (hfar : ∀ a b, close a b = false → time a < time b) :
    (xs.splitBy close).Pairwise fun as bs =>
      ∀ a ∈ as.head?, ∀ b ∈ bs.head?, time a < time b := by
  have hchain : (xs.splitBy close).IsChain fun as bs =>
      ∃ ha hb, time (as.head ha) < time (bs.head hb) := by
    refine (List.isChain_getLast_head_splitBy close xs).imp_of_mem_imp ?_
    rintro as bs has - ⟨ha, hb, hgap⟩
    have hsub : as.Sublist xs := by
      rw [← List.flatten_splitBy close xs]
      exact List.sublist_flatten_of_mem has
    refine ⟨ha, hb, lt_of_le_of_lt ?_ (hfar _ _ hgap)⟩
    have hburst := hsorted.sublist hsub
    cases as with
    | nil => exact absurd rfl ha
    | cons a as =>
      rcases List.mem_cons.mp (List.getLast_mem ha) with heq | hmem
      · rw [heq]
        exact le_rfl
      · exact List.rel_of_pairwise_cons hburst hmem
  have htrans : (xs.splitBy close).Pairwise fun as bs =>
      ∃ ha hb, time (as.head ha) < time (bs.head hb) := by
    have : IsTrans (List α) fun as bs => ∃ ha hb, time (as.head ha) < time (bs.head hb) :=
      ⟨fun _ _ _ ⟨ha, _, hab⟩ ⟨_, hc, hbc⟩ => ⟨ha, hc, hab.trans hbc⟩⟩
    exact List.isChain_iff_pairwise.mp hchain
  refine htrans.imp ?_
  rintro as bs ⟨ha, hb, hlt⟩ a hhead b hhead'
  rw [List.head?_eq_some_head ha, Option.mem_some] at hhead
  rw [List.head?_eq_some_head hb, Option.mem_some] at hhead'
  rw [← hhead, ← hhead']
  exact hlt

end BajaDaq.ListBursts
