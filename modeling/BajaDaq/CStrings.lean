import Mathlib.Data.List.TakeWhile
import Mathlib.Data.Nat.Notation

/-!
# C strings

A string is its bytes before the terminating NUL. Character classes are those of the "C" locale.
-/

namespace BajaDaq.CStrings

abbrev Bytes := List UInt8

structure CString where
  bytes : Bytes
  nulFree : 0 ∉ bytes
  deriving DecidableEq

/-- The string that a buffer holds. A buffer without a NUL is followed by one. -/
def cString (buffer : Bytes) : Bytes := buffer.takeWhile (· != 0)

theorem zero_notMem_cString (buffer : Bytes) : 0 ∉ cString buffer := by
  intro h
  simpa using List.mem_takeWhile_imp h

def CString.ofBuffer (buffer : Bytes) : CString := ⟨cString buffer, zero_notMem_cString buffer⟩

/-- The byte at an index, and the NUL behind the last one. -/
def byteAt (text : Bytes) (i : ℕ) : UInt8 := text.getD i 0

def isDigit (byte : UInt8) : Bool := 48 ≤ byte && byte ≤ 57

def isUpper (byte : UInt8) : Bool := 65 ≤ byte && byte ≤ 90

def isXdigit (byte : UInt8) : Bool :=
  isDigit byte || 65 ≤ byte && byte ≤ 70 || 97 ≤ byte && byte ≤ 102

def toLower (byte : UInt8) : UInt8 := if isUpper byte then byte + 32 else byte

/-- The index of the first such byte. -/
def strchr (text : Bytes) (byte : UInt8) : Option ℕ := text.findIdx? (· == byte)

/-- The value of a hexadecimal digit. -/
def hexValue (byte : UInt8) : ℕ :=
  if isDigit byte then byte.toNat - 48
  else if isUpper byte then byte.toNat - 55
  else byte.toNat - 87

/-- `strtoul` with base 16, of a text of hexadecimal digits. -/
def hexNumber (text : Bytes) : ℕ := text.foldl (fun n byte => 16 * n + hexValue byte) 0

/-- The number that a text of decimal digits denotes. -/
def decimalNumber (text : Bytes) : ℕ := text.foldl (fun n byte => 10 * n + (byte.toNat - 48)) 0

/-- The bytes of the destination from its start are replaced. -/
def memcpy (destination source : Bytes) : Bytes := source ++ destination.drop source.length

/-- The exclusive or of all bytes. -/
def xorOf : Bytes → UInt8
  | [] => 0
  | byte :: bytes => byte ^^^ xorOf bytes

theorem strchr_eq_some_iff {text : Bytes} {byte : UInt8} {i : ℕ} :
    strchr text byte = some i ↔
      ∃ before after, text = before ++ byte :: after ∧ byte ∉ before ∧ before.length = i := by
  rw [strchr, List.findIdx?_eq_some_iff_getElem]
  constructor
  · rintro ⟨hi, hbyte, hbefore⟩
    refine ⟨text.take i, text.drop (i + 1), ?_, ?_, List.length_take_of_le (by omega)⟩
    · rw [← eq_of_beq hbyte, ← List.drop_eq_getElem_cons hi, List.take_append_drop]
    · intro hmem
      obtain ⟨j, hj, hget⟩ := List.mem_iff_getElem.mp hmem
      rw [List.length_take] at hj
      rw [List.getElem_take] at hget
      exact hbefore j (by omega) (beq_iff_eq.mpr hget)
  · rintro ⟨before, after, rfl, hbefore, rfl⟩
    refine ⟨by simp, by simp, ?_⟩
    intro j hj hget
    rw [List.getElem_append_left hj] at hget
    exact hbefore (List.mem_iff_getElem.mpr ⟨j, hj, eq_of_beq hget⟩)

theorem cString_append_zero {text : Bytes} (h : 0 ∉ text) (rest : Bytes) :
    cString (text ++ 0 :: rest) = text := by
  rw [cString, List.takeWhile_append_of_pos]
  · simp
  · intro byte hbyte
    simpa using fun heq : byte = 0 => h (heq ▸ hbyte)

theorem cString_of_notMem {text : Bytes} (h : 0 ∉ text) : cString text = text := by
  rw [cString, List.takeWhile_eq_self_iff]
  intro byte hbyte
  simpa using fun heq : byte = 0 => h (heq ▸ hbyte)

/-- The exclusive or detects every change of one byte. -/
theorem byte_of_xorOf_set {bytes : Bytes} {i : ℕ} {byte : UInt8} (hi : i < bytes.length)
    (h : xorOf (bytes.set i byte) = xorOf bytes) : byte = byteAt bytes i := by
  induction bytes generalizing i with
  | nil => exact absurd hi (Nat.not_lt_zero i)
  | cons b bytes ih =>
    cases i with
    | zero => exact (UInt8.xor_left_inj _).mp h
    | succ i => exact ih (Nat.lt_of_succ_lt_succ hi) ((UInt8.xor_right_inj _).mp h)

theorem isXdigit_iff {byte : UInt8} :
    isXdigit byte = true ↔ 48 ≤ byte.toNat ∧ byte.toNat ≤ 57 ∨ 65 ≤ byte.toNat ∧ byte.toNat ≤ 70 ∨
      97 ≤ byte.toNat ∧ byte.toNat ≤ 102 := by
  simp [isXdigit, isDigit, UInt8.le_iff_toNat_le, or_assoc]

theorem hexValue_eq (byte : UInt8) :
    hexValue byte = if 48 ≤ byte.toNat ∧ byte.toNat ≤ 57 then byte.toNat - 48
      else if 65 ≤ byte.toNat ∧ byte.toNat ≤ 90 then byte.toNat - 55 else byte.toNat - 87 := by
  simp [hexValue, isDigit, isUpper, UInt8.le_iff_toNat_le]

theorem toNat_toLower (byte : UInt8) : (toLower byte).toNat =
    if 65 ≤ byte.toNat ∧ byte.toNat ≤ 90 then byte.toNat + 32 else byte.toNat := by
  have hupper : isUpper byte = true ↔ 65 ≤ byte.toNat ∧ byte.toNat ≤ 90 := by
    simp [isUpper, UInt8.le_iff_toNat_le]
  by_cases h : 65 ≤ byte.toNat ∧ byte.toNat ≤ 90
  · have hsum : (byte + 32).toNat = (byte.toNat + 32) % 256 := UInt8.toNat_add byte 32
    rw [toLower, if_pos (hupper.mpr h), if_pos h, hsum]
    omega
  · rw [toLower, if_neg (mt hupper.mp h), if_neg h]

theorem hexValue_lt {byte : UInt8} (h : isXdigit byte = true) : hexValue byte < 16 := by
  rw [isXdigit_iff] at h
  rw [hexValue_eq]
  split
  · omega
  · split
    · omega
    · omega

/-- Hexadecimal digits have one value exactly if they are equal up to the case of a letter. -/
theorem hexValue_eq_iff {a b : UInt8} (ha : isXdigit a = true) (hb : isXdigit b = true) :
    hexValue a = hexValue b ↔ toLower a = toLower b := by
  rw [isXdigit_iff] at ha hb
  rw [← UInt8.toNat_inj, toNat_toLower, toNat_toLower, hexValue_eq, hexValue_eq]
  grind

end BajaDaq.CStrings
