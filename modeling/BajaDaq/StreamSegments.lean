import Mathlib.Data.List.Basic

/-!
# The segments of a growing stream

A stream split at a delimiter: the segments that a delimiter has ended, and the one still pending.
-/

namespace BajaDaq.StreamSegments

variable {α : Type*} [BEq α]

/-- The segments that are ended by a delimiter. -/
def ended (a : α) (stream : List α) : List (List α) := (stream.splitOn a).dropLast

/-- What follows the last delimiter. -/
def pending (a : α) (stream : List α) : List α :=
  (stream.splitOn a).getLast (List.splitOn_ne_nil a stream)

theorem ended_append_pending (a : α) (stream : List α) :
    ended a stream ++ [pending a stream] = stream.splitOn a :=
  List.dropLast_append_getLast (List.splitOn_ne_nil a stream)

variable [LawfulBEq α] {a x : α}

theorem splitOn_append_delimiter (a : α) (stream : List α) :
    (stream ++ [a]).splitOn a = stream.splitOn a ++ [[]] :=
  List.splitOn_append_cons_self stream []

/-- An element that is no delimiter goes to the end of the last segment. -/
theorem splitOn_append_other (hx : x ≠ a) {stream : List α} {front : List (List α)} {rest : List α}
    (h : stream.splitOn a = front ++ [rest]) :
    (stream ++ [x]).splitOn a = front ++ [rest ++ [x]] := by
  induction stream generalizing front rest with
  | nil =>
    obtain ⟨rfl, hrest⟩ := List.append_inj' (show [] ++ [[]] = front ++ [rest] from h) rfl
    cases hrest
    exact List.splitOn_eq_singleton (by simpa using hx.symm)
  | cons y stream ih =>
    have hlast := ended_append_pending a stream
    have hnext := ih hlast.symm
    rw [List.splitOn_cons_eq_if_modifyHead, ← hlast] at h
    rw [List.cons_append, List.splitOn_cons_eq_if_modifyHead, hnext]
    by_cases hy : y == a
    · rw [if_pos hy] at h ⊢
      obtain ⟨rfl, hrest⟩ := List.append_inj'
        (show ([] :: ended a stream) ++ [pending a stream] = front ++ [rest] from h) rfl
      cases hrest
      rfl
    · rw [if_neg hy] at h ⊢
      cases hended : ended a stream with
      | nil =>
        rw [hended] at h
        obtain ⟨rfl, hrest⟩ := List.append_inj'
          (show [] ++ [y :: pending a stream] = front ++ [rest] from h) rfl
        cases hrest
        rfl
      | cons first others =>
        rw [hended] at h
        obtain ⟨rfl, hrest⟩ := List.append_inj'
          (show ((y :: first) :: others) ++ [pending a stream] = front ++ [rest] from h) rfl
        cases hrest
        rfl

theorem ended_append_delimiter (a : α) (stream : List α) :
    ended a (stream ++ [a]) = ended a stream ++ [pending a stream] := by
  rw [ended, splitOn_append_delimiter, List.dropLast_concat, ended_append_pending]

theorem pending_append_delimiter (a : α) (stream : List α) : pending a (stream ++ [a]) = [] := by
  simp [pending, splitOn_append_delimiter]

theorem ended_append_other (hx : x ≠ a) (stream : List α) :
    ended a (stream ++ [x]) = ended a stream := by
  rw [ended, splitOn_append_other hx (ended_append_pending a stream).symm, List.dropLast_concat]

theorem pending_append_other (hx : x ≠ a) (stream : List α) :
    pending a (stream ++ [x]) = pending a stream ++ [x] := by
  simp [pending, splitOn_append_other hx (ended_append_pending a stream).symm]

/-- Behind a delimiter the stream starts anew. -/
theorem ended_append_of_delimiter (a : α) (earlier later : List α) :
    ended a (earlier ++ a :: later) = ended a (earlier ++ [a]) ++ ended a later := by
  rw [ended_append_delimiter, ended_append_pending, ended, List.splitOn_append_cons_self,
    List.dropLast_append_of_ne_nil (List.splitOn_ne_nil a later), ended]

/-- A segment without delimiters and its delimiter are the first of the ended segments. -/
theorem ended_append_segment {segment : List α} (h : a ∉ segment) (rest : List α) :
    ended a (segment ++ a :: rest) = segment :: ended a rest := by
  rw [ended, List.splitOn_append_cons_self_of_not_mem h,
    List.dropLast_cons_of_ne_nil (List.splitOn_ne_nil a rest), ended]

end BajaDaq.StreamSegments
