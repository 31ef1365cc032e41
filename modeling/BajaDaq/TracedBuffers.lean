import Mathlib.Control.Monad.Writer
import BajaDaq.DecimalText

/-!
# Traced buffers

A computation that formats texts into buffers of fixed sizes, with a trace of them. Its value is
what the program computes from what the buffers hold; it is whole if each of its buffers holds the
complete text that was written to it.
-/

namespace BajaDaq.TracedBuffers

open DecimalText (Text)

/-- The size of a buffer and the text that is written to it. -/
structure Print where
  size : ℕ
  text : Text
  deriving DecidableEq, Repr

/-- The text and its final NUL fit. -/
def Print.Complete (p : Print) : Prop := p.text.length < p.size

instance (p : Print) : Decidable p.Complete := inferInstanceAs (Decidable (_ < _))

abbrev Traced := Writer (List Print)

variable {α β : Type}

def value (t : Traced α) : α := (Id.run t.run).1

def prints (t : Traced α) : List Print := (Id.run t.run).2

def Whole (t : Traced α) : Prop := ∀ p ∈ prints t, p.Complete

instance (t : Traced α) : Decidable (Whole t) :=
  inferInstanceAs (Decidable (∀ p ∈ prints t, p.Complete))

/-- `snprintf` as in `DecimalText`, with its trace. -/
def snprintf (size : ℕ) (text : Text) : Traced (Text × ℕ) := do
  tell [⟨size, text⟩]
  return DecimalText.snprintf size text

/-- What the buffer holds. -/
def printed (size : ℕ) (text : Text) : Traced Text := do
  let result ← snprintf size text
  return result.1

@[simp] theorem value_pure (a : α) : value (pure a : Traced α) = a := rfl

@[simp] theorem value_bind (t : Traced α) (f : α → Traced β) :
    value (t >>= f) = value (f (value t)) := rfl

@[simp] theorem value_map (t : Traced α) (f : α → β) : value (f <$> t) = f (value t) := rfl

@[simp] theorem value_snprintf (size : ℕ) (text : Text) :
    value (snprintf size text) = DecimalText.snprintf size text := rfl

@[simp] theorem value_printed (size : ℕ) (text : Text) :
    value (printed size text) = (DecimalText.snprintf size text).1 := rfl

@[simp] theorem whole_pure (a : α) : Whole (pure a : Traced α) := nofun

@[simp] theorem whole_bind (t : Traced α) (f : α → Traced β) :
    Whole (t >>= f) ↔ Whole t ∧ Whole (f (value t)) := List.forall_mem_append

@[simp] theorem whole_map (t : Traced α) (f : α → β) : Whole (f <$> t) ↔ Whole t := Iff.rfl

@[simp] theorem whole_snprintf (size : ℕ) (text : Text) :
    Whole (snprintf size text) ↔ text.length < size := List.forall_mem_singleton

@[simp] theorem whole_printed (size : ℕ) (text : Text) :
    Whole (printed size text) ↔ text.length < size := List.forall_mem_singleton

/-- A whole buffer holds its text. -/
theorem value_of_whole {size : ℕ} {text : Text} (h : Whole (printed size text)) :
    value (printed size text) = text :=
  DecimalText.snprintf_of_lt ((whole_printed size text).mp h)

@[simp] theorem value_ite (c : Prop) [Decidable c] (t u : Traced α) :
    value (if c then t else u) = if c then value t else value u := apply_ite _ _ _ _

/-- Both branches of a test. -/
theorem whole_ite {c : Prop} [Decidable c] {t u : Traced α} (ht : c → Whole t)
    (hu : ¬ c → Whole u) : Whole (if c then t else u) := by
  by_cases h : c
  · rw [if_pos h]
    exact ht h
  · rw [if_neg h]
    exact hu h

end BajaDaq.TracedBuffers
