import Mathlib.Tactic.Ring

/-!
# Little-endian bytes of a machine word

The width is a parameter; a word is its value, and a value that does not fit is reduced.
-/

namespace BajaDaq.LittleEndian

/-- The `w` low bytes of `n`, least significant first. -/
def bytesOf : ℕ → ℕ → List UInt8
  | 0, _ => []
  | w + 1, n => UInt8.ofNat n :: bytesOf w (n / 256)

def valueOf : List UInt8 → ℕ
  | [] => 0
  | b :: bs => b.toNat + 256 * valueOf bs

@[simp] theorem length_bytesOf (w n : ℕ) : (bytesOf w n).length = w := by
  induction w generalizing n with
  | zero => rfl
  | succ w ih => simp [bytesOf, ih]

/-- Reading the bytes back gives the value modulo the width. -/
theorem valueOf_bytesOf (w n : ℕ) : valueOf (bytesOf w n) = n % 256 ^ w := by
  induction w generalizing n with
  | zero => simp [bytesOf, valueOf, Nat.mod_one]
  | succ w ih =>
    have hbyte : (UInt8.ofNat n).toNat = n % 256 := by simp
    rw [bytesOf, valueOf, ih, hbyte, pow_succ', Nat.mod_mul]

theorem bytesOf_valueOf (bs : List UInt8) : bytesOf bs.length (valueOf bs) = bs := by
  induction bs with
  | nil => rfl
  | cons b bs ih =>
    have hbyte : UInt8.ofNat (b.toNat + 256 * valueOf bs) = b := by
      rw [← UInt8.toNat_inj, UInt8.toNat_ofNat']
      have hlt := b.toNat_lt
      omega
    have hrest : (b.toNat + 256 * valueOf bs) / 256 = valueOf bs := by
      have hlt := b.toNat_lt
      omega
    rw [List.length_cons, valueOf, bytesOf, hbyte, hrest, ih]

theorem valueOf_append (a b : List UInt8) :
    valueOf (a ++ b) = valueOf a + 256 ^ a.length * valueOf b := by
  induction a with
  | nil => simp [valueOf]
  | cons x a ih =>
    rw [List.cons_append, valueOf, valueOf, ih, List.length_cons, pow_succ']
    ring

theorem valueOf_lt (bs : List UInt8) : valueOf bs < 256 ^ bs.length := by
  induction bs with
  | nil => exact Nat.one_pos
  | cons b bs ih =>
    have hbyte := b.toNat_lt
    rw [valueOf, List.length_cons, pow_succ']
    omega

end BajaDaq.LittleEndian
