import Mathlib.Algebra.Group.Nat.Defs
import Mathlib.Data.Int.Notation
import Mathlib.Data.Nat.Notation

/-!
# Decimal text

What `printf` writes for an unsigned, a signed, a zero-padded and a scaled integer, and what a
buffer holds after `snprintf`. A text is its list of characters, without the final NUL.
-/

namespace BajaDaq.DecimalText

abbrev Text := List Char

def unsignedText (n : ℕ) : Text := Nat.toDigits 10 n

def signText (v : ℤ) : Text := if v < 0 then ['-'] else []

def signedText (v : ℤ) : Text := signText v ++ unsignedText v.natAbs

/-- At least `w` digits, with leading zeros. -/
def paddedText (w n : ℕ) : Text :=
  List.replicate (w - (unsignedText n).length) '0' ++ unsignedText n

/-- At least `w` upper-case hexadecimal digits, with leading zeros. -/
def hexText (w n : ℕ) : Text :=
  List.replicate (w - (Nat.toDigits 16 n).length) '0' ++ (Nat.toDigits 16 n).map Char.toUpper

/-- The number `v / 10 ^ p` with all its `p` decimals. -/
def scaledText (p : ℕ) (v : ℤ) : Text :=
  signText v ++ unsignedText (v.natAbs / 10 ^ p) ++ '.' :: paddedText p (v.natAbs % 10 ^ p)

/-- What the buffer of `size` bytes holds, and the result: the length of the whole text. -/
def snprintf (size : ℕ) (text : Text) : Text × ℕ := (text.take (size - 1), text.length)

@[simp] theorem signedText_natCast (n : ℕ) : signedText n = unsignedText n := by
  rw [signedText, signText, if_neg (by omega), List.nil_append, Int.natAbs_natCast]

theorem length_unsignedText_le {n k : ℕ} (hk : 0 < k) :
    (unsignedText n).length ≤ k ↔ n < 10 ^ k :=
  Nat.length_toDigits_le_iff (by omega) hk

theorem length_signText_le (v : ℤ) : (signText v).length ≤ 1 := by
  unfold signText
  split
  · exact Nat.le_refl 1
  · exact Nat.zero_le 1

theorem length_signedText_le {v : ℤ} {k : ℕ} (hk : 0 < k) (hv : v.natAbs < 10 ^ k) :
    (signedText v).length ≤ k + 1 := by
  have hsign := length_signText_le v
  have hdigits := (length_unsignedText_le hk).mpr hv
  rw [signedText, List.length_append]
  omega

theorem length_paddedText {w n : ℕ} (hw : 0 < w) (hn : n < 10 ^ w) :
    (paddedText w n).length = w := by
  have hdigits := (length_unsignedText_le hw).mpr hn
  rw [paddedText, List.length_append, List.length_replicate]
  omega

theorem length_paddedText_le {w n k : ℕ} (hw : w ≤ k) (hk : 0 < k) (hn : n < 10 ^ k) :
    (paddedText w n).length ≤ k := by
  have hdigits := (length_unsignedText_le hk).mpr hn
  rw [paddedText, List.length_append, List.length_replicate]
  omega

theorem isDigit_of_mem_paddedText {w n : ℕ} {c : Char} (h : c ∈ paddedText w n) :
    c.isDigit = true := by
  rcases List.mem_append.mp h with hzero | hdigit
  · rw [List.eq_of_mem_replicate hzero]
    rfl
  · exact Nat.isDigit_of_mem_toDigits (by decide) (by decide) hdigit

theorem ofDigitChars_paddedText (w n : ℕ) : Nat.ofDigitChars 10 (paddedText w n) 0 = n := by
  rw [paddedText, Nat.ofDigitChars_append, Nat.ofDigitChars_replicate_zero, Nat.mul_zero]
  exact Nat.ofDigitChars_ten_toDigits

theorem paddedText_inj {w m n : ℕ} : paddedText w m = paddedText w n ↔ m = n := by
  refine ⟨fun h => ?_, congrArg _⟩
  have hvalue := congrArg (fun text => Nat.ofDigitChars 10 text 0) h
  simpa only [ofDigitChars_paddedText] using hvalue

theorem length_hexText {w n : ℕ} (hw : 0 < w) (hn : n < 16 ^ w) : (hexText w n).length = w := by
  have hdigits := (Nat.length_toDigits_le_iff (b := 16) (n := n) (by decide) hw).mpr hn
  rw [hexText, List.length_append, List.length_replicate, List.length_map]
  omega

theorem length_scaledText_le {p k : ℕ} {v : ℤ} (hp : 0 < p) (hk : 0 < k)
    (hv : v.natAbs < 10 ^ (k + p)) : (scaledText p v).length ≤ k + p + 2 := by
  have hpos : 0 < 10 ^ p := Nat.pow_pos (by omega)
  have hsign := length_signText_le v
  have hwhole : (unsignedText (v.natAbs / 10 ^ p)).length ≤ k := by
    rw [length_unsignedText_le hk]
    exact Nat.div_lt_of_lt_mul (by rwa [Nat.pow_add, Nat.mul_comm] at hv)
  have hpart := length_paddedText hp (Nat.mod_lt v.natAbs hpos)
  rw [scaledText, List.length_append, List.length_append, List.length_cons, hpart]
  omega

theorem length_signedText_lt {v : ℤ} (h : v.natAbs < 10 ^ 10) : (signedText v).length < 12 :=
  Nat.lt_succ_of_le (length_signedText_le (by omega) h)

theorem length_scaledText_lt {p : ℕ} {v : ℤ} (hp : 0 < p) (hp' : p < 10)
    (h : v.natAbs < 10 ^ 10) : (scaledText p v).length < 13 := by
  have hsplit : 10 - p + p = 10 := by omega
  have hle := length_scaledText_le (k := 10 - p) hp (by omega) (by rw [hsplit]; exact h)
  omega

/-- A text that fits is stored whole. -/
theorem snprintf_of_lt {size : ℕ} {text : Text} (h : text.length < size) :
    (snprintf size text).1 = text :=
  List.take_of_length_le (by omega)

end BajaDaq.DecimalText
