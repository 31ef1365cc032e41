import Mathlib.Data.Set.Card
import Mathlib.Logic.Function.Basic

/-!
# Directories with name resolution

A directory maps keys to entries, and a resolution takes every spelling of a name to its key:
the identity where names are compared exactly, something coarser where several spellings denote
one file. Each operation that can fail takes whether the device allows it.
-/

namespace BajaDaq.Directories

/-- A regular file, or an entry of another kind. -/
inductive Entry (β : Type*) where
  | file (contents : β)
  | other
  deriving DecidableEq, Repr

def Entry.isRegular {β : Type*} : Entry β → Bool
  | .file _ => true
  | .other => false

abbrev Directory (κ β : Type*) := κ → Option (Entry β)

variable {ν κ β : Type*} [DecidableEq κ]

def stat (resolve : ν → κ) (d : Directory κ β) (name : ν) : Option (Entry β) := d (resolve name)

/-- `stat` succeeds on a regular file. -/
def isFile (resolve : ν → κ) (d : Directory κ β) (name : ν) : Bool :=
  ((stat resolve d name).map Entry.isRegular).getD false

/-- `open` with `O_CREAT | O_EXCL`; `none` if it fails. -/
def openExcl (resolve : ν → κ) (d : Directory κ β) (name : ν) (fresh : β) (allowed : Bool) :
    Option (Directory κ β) :=
  if allowed = true ∧ stat resolve d name = none then
    some (Function.update d (resolve name) (some (.file fresh)))
  else none

/-- `fopen` for appending, which creates a missing file. -/
def openAppend (resolve : ν → κ) (d : Directory κ β) (name : ν) (fresh : β) (allowed : Bool) :
    Option (Directory κ β) :=
  if !allowed then none
  else if stat resolve d name = none then
    some (Function.update d (resolve name) (some (.file fresh)))
  else some d

def unlink (resolve : ν → κ) (d : Directory κ β) (name : ν) (allowed : Bool) : Directory κ β :=
  if allowed then Function.update d (resolve name) none else d

/-- `rename` replaces whatever has the new name. -/
def rename (resolve : ν → κ) (d : Directory κ β) (old new : ν) (allowed : Bool) :
    Option (Directory κ β) :=
  if allowed = true ∧ stat resolve d old ≠ none then
    some (Function.update (Function.update d (resolve old) none) (resolve new) (d (resolve old)))
  else none

variable {resolve : ν → κ} {d : Directory κ β} {name old new : ν} {fresh : β}

omit [DecidableEq κ] in
theorem isFile_iff : isFile resolve d name = true ↔ ∃ c, d (resolve name) = some (.file c) := by
  unfold isFile stat
  cases d (resolve name) with
  | none => simp
  | some e => cases e <;> simp [Entry.isRegular]

theorem openExcl_eq_some {t : Directory κ β} {allowed : Bool}
    (h : openExcl resolve d name fresh allowed = some t) :
    d (resolve name) = none ∧ t = Function.update d (resolve name) (some (.file fresh)) := by
  unfold openExcl at h
  split at h
  · rename_i hfree
    exact ⟨hfree.2, (Option.some.inj h).symm⟩
  · cases h

/-- A file created here and unlinked again leaves no trace. -/
theorem unlink_openExcl {t : Directory κ β} {allowed : Bool}
    (h : openExcl resolve d name fresh allowed = some t) : unlink resolve t name true = d := by
  obtain ⟨hfree, rfl⟩ := openExcl_eq_some h
  rw [unlink, if_pos rfl, Function.update_idem, ← hfree, Function.update_eq_self]

theorem unlink_of_ne {key : κ} (h : key ≠ resolve name) (allowed : Bool) :
    unlink resolve d name allowed key = d key := by
  cases allowed with
  | false => rfl
  | true => exact Function.update_of_ne h _ _

/-- Appending to a file that is there creates nothing. -/
theorem openAppend_of_exists (h : d (resolve name) ≠ none) (fresh : β) (allowed : Bool) :
    (openAppend resolve d name fresh allowed).getD d = d := by
  cases allowed with
  | false => rfl
  | true => simp [openAppend, stat, h]

/-- `t` differs from `d` at most by files with contents `fresh` and by missing files. -/
def Rewritten (d t : Directory κ β) (fresh : β) : Prop :=
  ∀ key, t key = d key ∨ t key = some (.file fresh) ∨ t key = none

omit [DecidableEq κ] in
theorem Rewritten.refl (d : Directory κ β) (fresh : β) : Rewritten d d fresh := fun _ => .inl rfl

theorem Rewritten.create {t : Directory κ β} (h : Rewritten d t fresh) (key : κ) :
    Rewritten d (Function.update t key (some (.file fresh))) fresh := by
  intro other
  by_cases heq : other = key
  · rw [heq, Function.update_self]
    exact .inr (.inl rfl)
  · rw [Function.update_of_ne heq]
    exact h other

theorem Rewritten.unlink {t : Directory κ β} (h : Rewritten d t fresh) (name : ν)
    (allowed : Bool) : Rewritten d (unlink resolve t name allowed) fresh := by
  intro other
  cases allowed with
  | false => exact h other
  | true =>
    by_cases heq : other = resolve name
    · subst heq
      exact .inr (.inr (Function.update_self _ _ _))
    · rw [unlink_of_ne heq]
      exact h other

theorem rename_eq_some {t : Directory κ β} {allowed : Bool}
    (h : rename resolve d old new allowed = some t) :
    d (resolve old) ≠ none ∧
      t = Function.update (Function.update d (resolve old) none) (resolve new)
        (d (resolve old)) := by
  unfold rename at h
  split at h
  · rename_i hallowed
    exact ⟨hallowed.2, (Option.some.inj h).symm⟩
  · cases h

/-- Renaming a file back undoes a rename onto a free name. -/
theorem rename_back {t : Directory κ β} {allowed : Bool} (hfree : d (resolve new) = none)
    (h : rename resolve d old new allowed = some t) : rename resolve t new old true = some d := by
  obtain ⟨hold, rfl⟩ := rename_eq_some h
  have hne : resolve old ≠ resolve new := fun heq => hold (heq ▸ hfree)
  rw [rename, if_pos ⟨rfl, by simpa [stat] using hold⟩, Function.update_self,
    Function.update_idem]
  congr 1
  funext k
  by_cases hk : k = resolve old
  · rw [hk, Function.update_self]
  rw [Function.update_of_ne hk]
  by_cases hk' : k = resolve new
  · rw [hk', Function.update_self, hfree]
  · rw [Function.update_of_ne hk', Function.update_of_ne hk]

omit [DecidableEq κ] in
/-- Of more candidates than there are entries the first free one exists, if no two of them have
a key in common. -/
theorem exists_first_free {n : ℕ} {names : ℕ → List ν}
    (hdistinct : ∀ i < n, ∀ j < n, ∀ x ∈ names i, ∀ y ∈ names j, resolve x = resolve y → i = j)
    (hcount : {key | d key ≠ none}.encard < n) :
    ∃ k < n, (∀ x ∈ names k, stat resolve d x = none) ∧
      ∀ j < k, ∃ x ∈ names j, stat resolve d x ≠ none := by
  have hfree : ∃ k, k < n ∧ ∀ x ∈ names k, stat resolve d x = none := by
    by_contra hnone
    push Not at hnone
    choose taken hmem htaken using hnone
    have hmaps : Set.MapsTo (fun i : Fin n => resolve (taken i i.2)) Set.univ
        {key | d key ≠ none} := fun i _ => htaken i i.2
    have hinj : Set.InjOn (fun i : Fin n => resolve (taken i i.2)) Set.univ := fun i _ j _ hkey =>
      Fin.ext (hdistinct i i.2 j j.2 _ (hmem i i.2) _ (hmem j j.2) hkey)
    have hle := Set.encard_le_encard_of_injOn hmaps hinj
    rw [Set.encard_univ, ENat.card_eq_coe_fintype_card, Fintype.card_fin] at hle
    exact absurd hcount hle.not_gt
  classical
  refine ⟨Nat.find hfree, (Nat.find_spec hfree).1, (Nat.find_spec hfree).2, fun j hj => ?_⟩
  by_contra hnone
  push Not at hnone
  exact Nat.find_min hfree hj ⟨hj.trans (Nat.find_spec hfree).1, hnone⟩

end BajaDaq.Directories
