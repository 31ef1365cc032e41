import BajaDaq.CStrings
import Mathlib.Data.List.Induction
import Mathlib.Data.Rat.Floor
import Mathlib.Tactic.Linarith

/-!
# Decimal numbers

The numbers that texts of decimal digits with an optional fraction denote, as exact rationals.
-/

namespace BajaDaq.DecimalNumbers
open CStrings

/-- The text is the digits `whole`, and a point with the digits `fraction` unless there are none. -/
structure IsDecimal (text whole fraction : Bytes) : Prop where
  nonempty : whole ≠ []
  whole_digits : ∀ byte ∈ whole, isDigit byte = true
  fraction_digits : ∀ byte ∈ fraction, isDigit byte = true
  text_eq : text = whole ++ if fraction = [] then [] else '.'.toUInt8 :: fraction

def decimalValue (whole fraction : Bytes) : ℚ :=
  decimalNumber whole + decimalNumber fraction / 10 ^ fraction.length

theorem decimalNumber_append (a b : Bytes) :
    decimalNumber (a ++ b) = decimalNumber a * 10 ^ b.length + decimalNumber b := by
  induction b using List.reverseRecOn with
  | nil => simp [decimalNumber]
  | append_singleton b byte ih =>
    rw [← List.append_assoc, decimalNumber, List.foldl_concat, ← decimalNumber, ih, decimalNumber,
      decimalNumber, decimalNumber, List.foldl_concat, List.length_append, List.length_singleton,
      Nat.pow_succ]
    ring

theorem decimalNumber_lt {text : Bytes} (h : ∀ byte ∈ text, isDigit byte = true) :
    decimalNumber text < 10 ^ text.length := by
  induction text using List.reverseRecOn with
  | nil => simp [decimalNumber]
  | append_singleton text byte ih =>
    have hbyte := h byte (by simp)
    have htext := ih fun b hb => h b (List.mem_append_left _ hb)
    have hrange : byte.toNat ≤ 57 := by
      have hdigit : 48 ≤ byte.toNat ∧ byte.toNat ≤ 57 := by
        simpa [isDigit, UInt8.le_iff_toNat_le] using hbyte
      exact hdigit.2
    rw [decimalNumber_append, List.length_append, List.length_singleton, Nat.pow_succ]
    change _ * 10 ^ 1 + (10 * 0 + (byte.toNat - 48)) < _
    omega

/-- The fraction is less than one. -/
theorem fraction_lt_one {fraction : Bytes} (h : ∀ byte ∈ fraction, isDigit byte = true) :
    (decimalNumber fraction : ℚ) / 10 ^ fraction.length < 1 := by
  have hlt := decimalNumber_lt h
  have hpos : (0 : ℚ) < 10 ^ fraction.length := by positivity
  rw [div_lt_one hpos]
  exact_mod_cast hlt

theorem fraction_nonneg (fraction : Bytes) :
    0 ≤ (decimalNumber fraction : ℚ) / 10 ^ fraction.length := by
  positivity

namespace IsDecimal
variable {text whole fraction : Bytes}

theorem point_not_digit : isDigit '.'.toUInt8 = false := by decide

theorem takeWhile_eq (h : IsDecimal text whole fraction) : text.takeWhile isDigit = whole := by
  rw [h.text_eq, List.takeWhile_append_of_pos h.whole_digits]
  split
  · exact List.append_nil whole
  · rw [List.takeWhile_cons_of_neg (by rw [point_not_digit]; exact Bool.false_ne_true),
      List.append_nil]

theorem dropWhile_eq (h : IsDecimal text whole fraction) : text.dropWhile isDigit =
    if fraction = [] then [] else '.'.toUInt8 :: fraction := by
  rw [h.text_eq, List.dropWhile_append_of_pos h.whole_digits]
  split
  · rfl
  · rw [List.dropWhile_cons_of_neg (by rw [point_not_digit]; exact Bool.false_ne_true)]

/-- The text determines its digits. -/
theorem unique {whole' fraction' : Bytes} (h : IsDecimal text whole fraction)
    (h' : IsDecimal text whole' fraction') : whole = whole' ∧ fraction = fraction' := by
  refine ⟨h.takeWhile_eq.symm.trans h'.takeWhile_eq, ?_⟩
  have hrest := h.dropWhile_eq.symm.trans h'.dropWhile_eq
  split at hrest
  · rename_i hnone
    split at hrest
    · rename_i hnone'
      rw [hnone, hnone']
    · cases hrest
  · split at hrest
    · cases hrest
    · exact (List.cons.inj hrest).2

end IsDecimal

end BajaDaq.DecimalNumbers
