import Mathlib.Data.List.Infix
import Mathlib.Data.Nat.Notation

/-!
# Searching for a pattern whose first symbol is not repeated

A search that starts again at the symbol that did not match needs no table when the first symbol
of the pattern occurs only there: the count of matching symbols is then the length of the longest
beginning of the pattern with which the symbols seen end.
-/

namespace BajaDaq.UnrepeatedPattern

variable {α : Type*} {pattern seen input : List α} {matched : ℕ} {a : α}

/-- The first symbol of the pattern occurs nowhere else in it. -/
def Unrepeated (pattern : List α) : Prop := ∀ k, pattern[k]? = pattern[0]? → k = 0

/-- The pattern ends `symbols`, and no shorter beginning of them contains it. -/
def EndsFirst (pattern symbols : List α) : Prop :=
  pattern <:+ symbols ∧ ∀ p, p <+: symbols → pattern <:+: p → p = symbols

/-- The longest beginning of the pattern with which the symbols seen end has `matched` symbols,
and is not the whole pattern. -/
structure Overlap (pattern seen : List α) (matched : ℕ) : Prop where
  proper : matched < pattern.length
  ends : pattern.take matched <:+ seen
  longest : ∀ k ≤ pattern.length, pattern.take k <:+ seen → k ≤ matched

theorem take_succ_suffix_concat {k : ℕ} (hk : k < pattern.length) :
    pattern.take (k + 1) <:+ seen ++ [a] ↔ pattern[k]? = some a ∧ pattern.take k <:+ seen := by
  rw [List.take_add_one, List.getElem?_eq_getElem hk, Option.toList_some, List.suffix_concat_iff]
  constructor
  · rintro (hnil | ⟨t, heq, hseen⟩)
    · exact absurd hnil (List.append_ne_nil_of_right_ne_nil _ (List.cons_ne_nil _ _))
    · obtain ⟨rfl, hlast⟩ := List.append_inj' heq rfl
      exact ⟨congrArg some (List.singleton_inj.mp hlast), hseen⟩
  · rintro ⟨hsymbol, hseen⟩
    exact Or.inr ⟨pattern.take k, by rw [Option.some.inj hsymbol], hseen⟩

/-- Of two beginnings that end the same symbols the shorter one is empty. -/
theorem eq_zero_of_suffix (hu : Unrepeated pattern) {j k : ℕ} (hjk : j < k)
    (hk : k ≤ pattern.length) (hj : pattern.take j <:+ seen) (hseen : pattern.take k <:+ seen) :
    j = 0 := by
  have hjlen : (pattern.take j).length = j := List.length_take_of_le (by omega)
  have hklen : (pattern.take k).length = k := List.length_take_of_le hk
  have hsuffix : pattern.take j <:+ pattern.take k :=
    List.suffix_of_suffix_length_le hj hseen (by omega)
  by_contra hpos
  have hfirst := hsuffix.getElem (i := 0) (by omega)
  have hrepeat : pattern[k - j]? = pattern[0]? := by
    rw [List.getElem?_eq_getElem (by omega), List.getElem?_eq_getElem (by omega)]
    simp only [List.getElem_take, hjlen, hklen, Nat.add_zero] at hfirst
    exact congrArg some hfirst.symm
  have hzero := hu _ hrepeat
  omega

variable [DecidableEq α]

/-- The number of matching symbols after the symbol `a`. -/
def advance (pattern : List α) (matched : ℕ) (a : α) : ℕ :=
  if pattern[matched]? = some a then matched + 1
  else if pattern[0]? = some a then 1 else 0

/-- The symbols behind the first occurrence of the pattern. -/
def searchFrom (pattern : List α) : ℕ → List α → Option (List α)
  | _, [] => none
  | matched, a :: rest =>
    if advance pattern matched a = pattern.length then some rest
    else searchFrom pattern (advance pattern matched a) rest

/-- One symbol: the count stays the length of the longest beginning that the symbols end with. -/
theorem Overlap.next (hu : Unrepeated pattern) (h : Overlap pattern seen matched) (a : α) :
    pattern.take (advance pattern matched a) <:+ seen ++ [a] ∧
      ∀ k ≤ pattern.length, pattern.take k <:+ seen ++ [a] →
        k ≤ advance pattern matched a := by
  have hproper := h.proper
  have hbefore : ∀ k, k + 1 ≤ pattern.length → pattern.take (k + 1) <:+ seen ++ [a] →
      pattern[k]? = some a ∧ pattern.take k <:+ seen ∧ k ≤ matched := by
    intro k hk hends
    obtain ⟨hsymbol, hseen⟩ := (take_succ_suffix_concat hk).mp hends
    exact ⟨hsymbol, hseen, h.longest k (by omega) hseen⟩
  unfold advance
  split_ifs with hnext hfirst
  · refine ⟨(take_succ_suffix_concat hproper).mpr ⟨hnext, h.ends⟩, ?_⟩
    rintro (_ | k) hk hends
    · exact Nat.zero_le _
    · have := (hbefore k hk hends).2.2
      omega
  · refine ⟨(take_succ_suffix_concat (by omega)).mpr ⟨hfirst, List.nil_suffix⟩, ?_⟩
    rintro (_ | k) hk hends
    · exact Nat.zero_le _
    · have hzero := hu k ((hbefore k hk hends).1.trans hfirst.symm)
      omega
  · refine ⟨List.nil_suffix, ?_⟩
    rintro (_ | k) hk hends
    · exact Nat.zero_le _
    · obtain ⟨hsymbol, hseen, hle⟩ := hbefore k hk hends
      rcases Nat.lt_or_eq_of_le hle with hlt | rfl
      · obtain rfl := eq_zero_of_suffix hu hlt hproper.le hseen h.ends
        exact absurd hsymbol hfirst
      · exact absurd hsymbol hnext

theorem advance_le (hproper : matched < pattern.length) (a : α) :
    advance pattern matched a ≤ pattern.length := by
  unfold advance
  split_ifs <;> omega

/-- The search finds the first occurrence, and finds none only if there is none. -/
theorem searchFrom_spec (hu : Unrepeated pattern) (h : Overlap pattern seen matched)
    (hnew : ¬ pattern <:+: seen) :
    match searchFrom pattern matched input with
    | some rest => ∃ c, input = c ++ rest ∧ EndsFirst pattern (seen ++ c)
    | none => ¬ pattern <:+: seen ++ input := by
  induction input generalizing seen matched with
  | nil =>
    rw [searchFrom, List.append_nil]
    exact hnew
  | cons a input ih =>
    obtain ⟨hends, hlongest⟩ := h.next hu a
    rw [searchFrom]
    by_cases hfound : advance pattern matched a = pattern.length
    · rw [if_pos hfound]
      rw [hfound, List.take_length] at hends
      refine ⟨[a], rfl, hends, fun p hp hpattern => ?_⟩
      rcases List.prefix_concat_iff.mp hp with hall | hseen
      · exact hall
      · exact absurd (hpattern.trans hseen.isInfix) hnew
    · rw [if_neg hfound]
      have hle := advance_le h.proper a
      have hoverlap : Overlap pattern (seen ++ [a]) (advance pattern matched a) :=
        ⟨by omega, hends, hlongest⟩
      have hnone : ¬ pattern <:+: seen ++ [a] := by
        rw [List.infix_concat_iff, not_or]
        refine ⟨fun hend => ?_, hnew⟩
        have := hlongest pattern.length le_rfl (by rwa [List.take_length])
        omega
      have hrest := ih hoverlap hnone
      cases hs : searchFrom pattern (advance pattern matched a) input with
      | none =>
        rw [hs] at hrest
        rwa [List.append_assoc] at hrest
      | some rest =>
        rw [hs] at hrest
        obtain ⟨c, hc, hfirst⟩ := hrest
        exact ⟨a :: c, by rw [hc, List.cons_append], by rwa [List.append_assoc] at hfirst⟩

end BajaDaq.UnrepeatedPattern
