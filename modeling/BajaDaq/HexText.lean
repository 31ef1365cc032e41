import BajaDaq.DecimalText
import Mathlib.Data.List.TakeWhile

/-!
# Hexadecimal numbers in texts

Lower-case numbers of a fixed width, and `strtoul` with base 16 where `unsigned long` has 32 bits:
it skips blanks, takes a sign and `0x`, negates modulo 2^32 and saturates.
-/

namespace BajaDaq.HexText
open DecimalText

def isHexDigit (c : Char) : Bool :=
  c.isDigit || decide (65 ≤ c.toNat) && decide (c.toNat ≤ 70) ||
    decide (97 ≤ c.toNat) && decide (c.toNat ≤ 102)

def hexValue (c : Char) : ℕ :=
  if c.isDigit then c.toNat - 48 else if c.toNat ≤ 70 then c.toNat - 55 else c.toNat - 87

def hexNumber (digits : Text) : ℕ := digits.foldl (fun n c => 16 * n + hexValue c) 0

/-- At least `w` lower-case digits, with leading zeros. -/
def lowerHexText (w n : ℕ) : Text :=
  List.replicate (w - (Nat.toDigits 16 n).length) '0' ++ Nat.toDigits 16 n

def isBlank (c : Char) : Bool := c == ' ' || decide (9 ≤ c.toNat) && decide (c.toNat ≤ 13)

/-- The sign is taken off; a minus is reported. -/
def takeSign : Text → Bool × Text
  | '-' :: text => (true, text)
  | '+' :: text => (false, text)
  | text => (false, text)

/-- `0x` is taken off in front of a digit. -/
def takeRadix : Text → Text
  | '0' :: 'x' :: c :: text => if isHexDigit c then c :: text else '0' :: 'x' :: c :: text
  | '0' :: 'X' :: c :: text => if isHexDigit c then c :: text else '0' :: 'X' :: c :: text
  | text => text

def ulongMax : ℕ := 0xFFFFFFFF

def ulong (negative : Bool) (n : ℕ) : UInt32 :=
  if ulongMax < n then .ofNat ulongMax else if negative then -.ofNat n else .ofNat n

/-- The number, and the text behind it: the whole text if there is no number in front. -/
def strtoul (text : Text) : UInt32 × Text :=
  let signed := takeSign (text.dropWhile isBlank)
  let digits := takeRadix signed.2
  if digits.takeWhile isHexDigit = [] then (0, text)
  else (ulong signed.1 (hexNumber (digits.takeWhile isHexDigit)), digits.dropWhile isHexDigit)

theorem hexNumber_append (xs : Text) (c : Char) :
    hexNumber (xs ++ [c]) = 16 * hexNumber xs + hexValue c := by
  simp [hexNumber]

theorem digitChar_hex {d : ℕ} (hd : d < 16) :
    isHexDigit (Nat.digitChar d) = true ∧ hexValue (Nat.digitChar d) = d := by
  have hall : ∀ d < 16, isHexDigit (Nat.digitChar d) = true ∧ hexValue (Nat.digitChar d) = d := by
    decide
  exact hall d hd

theorem toDigits_hex (n : ℕ) : (∀ c ∈ Nat.toDigits 16 n, isHexDigit c = true) ∧
    hexNumber (Nat.toDigits 16 n) = n := by
  induction n using Nat.strongRecOn with
  | ind n ih =>
    rw [Nat.toDigits_eq_if (by decide)]
    split
    next hlt =>
      obtain ⟨hdigit, hvalue⟩ := digitChar_hex hlt
      exact ⟨by simpa using hdigit, by simpa [hexNumber] using hvalue⟩
    next hge =>
      obtain ⟨hdigits, hvalue⟩ := ih (n / 16) (by omega)
      obtain ⟨hdigit, hlast⟩ := digitChar_hex (Nat.mod_lt n (by decide : 0 < 16))
      refine ⟨?_, ?_⟩
      · simpa [or_imp, forall_and] using ⟨hdigits, hdigit⟩
      · rw [hexNumber_append, hvalue, hlast]
        omega

theorem hexNumber_replicate (k : ℕ) (digits : Text) :
    hexNumber (List.replicate k '0' ++ digits) = hexNumber digits := by
  induction k with
  | zero => rfl
  | succ k ih =>
    rw [List.replicate_succ, List.cons_append]
    exact ih

theorem lowerHexText_hex (w n : ℕ) : (∀ c ∈ lowerHexText w n, isHexDigit c = true) ∧
    hexNumber (lowerHexText w n) = n := by
  obtain ⟨hdigits, hvalue⟩ := toDigits_hex n
  refine ⟨?_, by rw [lowerHexText, hexNumber_replicate, hvalue]⟩
  intro c hc
  rcases List.mem_append.mp hc with hzero | hc
  · rw [List.eq_of_mem_replicate hzero]
    decide
  · exact hdigits c hc

theorem length_lowerHexText {w n : ℕ} (hw : 0 < w) (hn : n < 16 ^ w) :
    (lowerHexText w n).length = w := by
  have hdigits := (Nat.length_toDigits_le_iff (b := 16) (n := n) (by decide) hw).mpr hn
  rw [lowerHexText, List.length_append, List.length_replicate]
  omega

/-- The whole text is a number: blanks, a sign, `0x` and digits. -/
def Spells (text : Text) (n : UInt32) : Prop :=
  ∃ blanks sign radix digits : Text, text = blanks ++ sign ++ radix ++ digits ∧
    (∀ c ∈ blanks, isBlank c = true) ∧ sign ∈ [[], ['+'], ['-']] ∧
    radix ∈ [[], ['0', 'x'], ['0', 'X']] ∧ digits ≠ [] ∧ (∀ c ∈ digits, isHexDigit c = true) ∧
    n = ulong (sign == ['-']) (hexNumber digits)

theorem takeSign_eq (text : Text) : ∃ sign ∈ [[], ['+'], ['-']],
    text = sign ++ (takeSign text).2 ∧ (takeSign text).1 = (sign == ['-']) := by
  unfold takeSign
  split
  · exact ⟨['-'], by simp, rfl, rfl⟩
  · exact ⟨['+'], by simp, rfl, rfl⟩
  · exact ⟨[], by simp, rfl, rfl⟩

theorem takeRadix_eq (text : Text) :
    ∃ radix ∈ [[], ['0', 'x'], ['0', 'X']], text = radix ++ takeRadix text := by
  unfold takeRadix
  split
  · split
    · exact ⟨['0', 'x'], by simp, rfl⟩
    · exact ⟨[], by simp, rfl⟩
  · split
    · exact ⟨['0', 'X'], by simp, rfl⟩
    · exact ⟨[], by simp, rfl⟩
  · exact ⟨[], by simp, rfl⟩

theorem takeSign_append {sign text : Text} (hsign : sign ∈ [[], ['+'], ['-']]) {c : Char}
    {rest : Text} (htext : text = c :: rest) (hc : isHexDigit c = true) :
    takeSign (sign ++ text) = (sign == ['-'], text) := by
  have hne : ∀ d, isHexDigit d = false → c ≠ d := by
    rintro d hd rfl
    rw [hc] at hd
    cases hd
  simp only [List.mem_cons, List.not_mem_nil, or_false] at hsign
  rcases hsign with rfl | rfl | rfl
  · subst htext
    rw [List.nil_append, takeSign.eq_def]
    split
    next heq => exact absurd (List.cons.inj heq).1 (hne _ (by decide))
    next heq => exact absurd (List.cons.inj heq).1 (hne _ (by decide))
    next => rfl
  · rfl
  · rfl

theorem takeRadix_append {radix digits : Text} (hradix : radix ∈ [[], ['0', 'x'], ['0', 'X']])
    (hne : digits ≠ []) (hdigits : ∀ c ∈ digits, isHexDigit c = true) :
    takeRadix (radix ++ digits) = digits := by
  obtain ⟨c, rest, rfl⟩ := List.exists_cons_of_ne_nil hne
  have hc := hdigits c List.mem_cons_self
  simp only [List.mem_cons, List.not_mem_nil, or_false] at hradix
  rcases hradix with rfl | rfl | rfl
  · rw [List.nil_append, takeRadix.eq_def]
    split
    next heq =>
      obtain ⟨-, hrest⟩ := List.cons.inj heq
      exact absurd (hdigits 'x' (by simp [hrest])) (by decide)
    next heq =>
      obtain ⟨-, hrest⟩ := List.cons.inj heq
      exact absurd (hdigits 'X' (by simp [hrest])) (by decide)
    next => rfl
  · exact if_pos hc
  · exact if_pos hc

theorem takeWhile_of_all {digits : Text} (h : ∀ c ∈ digits, isHexDigit c = true) :
    digits.takeWhile isHexDigit = digits ∧ digits.dropWhile isHexDigit = [] :=
  ⟨List.takeWhile_eq_self_iff.mpr h, List.dropWhile_eq_nil_iff.mpr h⟩

theorem dropWhile_blanks {blanks text : Text} (hblanks : ∀ c ∈ blanks, isBlank c = true)
    (htext : ∀ c ∈ text.head?, isBlank c = false) :
    (blanks ++ text).dropWhile isBlank = text := by
  rw [List.dropWhile_append_of_pos hblanks]
  cases text with
  | nil => rfl
  | cons c text => rw [List.dropWhile_cons, if_neg (by simpa using htext c rfl)]

theorem isBlank_of_isHexDigit {c : Char} (h : isHexDigit c = true) : isBlank c = false := by
  have hspace : c ≠ ' ' := by
    rintro rfl
    exact absurd h (by decide)
  have hlow : 13 < c.toNat := by
    have hzero : '0'.toNat = 48 := rfl
    simp only [isHexDigit, Char.isDigit_iff_toNat, Bool.or_eq_true, Bool.and_eq_true,
      decide_eq_true_eq] at h
    omega
  simp only [isBlank, Bool.or_eq_false_iff, beq_eq_false_iff_ne, Bool.and_eq_false_iff,
    decide_eq_false_iff_not]
  exact ⟨hspace, .inr (by omega)⟩

/-- What stands behind the blanks of a number. -/
theorem head?_number {sign radix digits : Text} (hsign : sign ∈ [[], ['+'], ['-']])
    (hradix : radix ∈ [[], ['0', 'x'], ['0', 'X']])
    (hdigits : ∀ c ∈ digits, isHexDigit c = true) :
    ∀ c ∈ (sign ++ (radix ++ digits)).head?, isBlank c = false := by
  intro c hc
  simp only [List.mem_cons, List.not_mem_nil, or_false] at hsign hradix
  rcases hsign with rfl | rfl | rfl
  · rcases hradix with rfl | rfl | rfl
    · exact isBlank_of_isHexDigit (hdigits c (List.mem_of_mem_head? hc))
    · obtain rfl := Option.some.inj hc
      decide
    · obtain rfl := Option.some.inj hc
      decide
  · obtain rfl := Option.some.inj hc
    decide
  · obtain rfl := Option.some.inj hc
    decide

theorem head_radix {radix digits : Text} (hradix : radix ∈ [[], ['0', 'x'], ['0', 'X']])
    (hne : digits ≠ []) (hdigits : ∀ c ∈ digits, isHexDigit c = true) :
    ∃ c rest, radix ++ digits = c :: rest ∧ isHexDigit c = true := by
  obtain ⟨c, rest, rfl⟩ := List.exists_cons_of_ne_nil hne
  simp only [List.mem_cons, List.not_mem_nil, or_false] at hradix
  rcases hradix with rfl | rfl | rfl
  · exact ⟨c, rest, rfl, hdigits c List.mem_cons_self⟩
  · exact ⟨'0', _, rfl, by decide⟩
  · exact ⟨'0', _, rfl, by decide⟩

/-- `strtoul` reads the whole text exactly if it is a number. -/
theorem strtoul_iff {text : Text} (htext : text ≠ []) {n : UInt32} :
    strtoul text = (n, []) ↔ Spells text n := by
  constructor
  · intro h
    obtain ⟨sign, hsign, hsigned, hneg⟩ := takeSign_eq (text.dropWhile isBlank)
    obtain ⟨radix, hradix, hdigits⟩ := takeRadix_eq (takeSign (text.dropWhile isBlank)).2
    rw [strtoul] at h
    split at h
    next => exact absurd (Prod.mk.inj h).2 htext
    next hsome =>
      obtain ⟨hn, hrest⟩ := Prod.mk.inj h
      have hall := List.dropWhile_eq_nil_iff.mp hrest
      refine ⟨text.takeWhile isBlank, sign, radix, _, ?_, fun c hc => List.mem_takeWhile_imp hc,
        hsign, hradix, ?_, hall, ?_⟩
      · rw [List.append_assoc, List.append_assoc, ← hdigits, ← hsigned,
          List.takeWhile_append_dropWhile]
      · intro hnil
        rw [hnil] at hsome
        exact hsome rfl
      · rw [← hn, hneg, (takeWhile_of_all hall).1]
  · rintro ⟨blanks, sign, radix, digits, rfl, hblanks, hsign, hradix, hne, hall, rfl⟩
    obtain ⟨c, rest, hcons, hc⟩ := head_radix hradix hne hall
    rw [strtoul, List.append_assoc, List.append_assoc,
      dropWhile_blanks hblanks (head?_number hsign hradix hall), takeSign_append hsign hcons hc,
      takeRadix_append hradix hne hall, (takeWhile_of_all hall).1, (takeWhile_of_all hall).2,
      if_neg hne]

end BajaDaq.HexText
