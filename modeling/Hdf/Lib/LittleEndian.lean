import Mathlib.Algebra.Order.Ring.Nat
import Mathlib.Tactic.Ring
import Mathlib.Tactic.NormNum

/-!
# Little-endian words and word alignment

Fixed-width little-endian encodings of natural numbers as byte lists, their
decoding, and rounding of sizes up to a multiple of four, both as arithmetic on
naturals and as the masked 32-bit addition that programs use.

## Main results

* `leNat_leBytes`: decoding an encoding reduces modulo the width
* `and_mask4`, `toNat_mask4`: clearing the low bits of a 32-bit sum rounds it up
-/

namespace Hdf

/-- The `width` low bytes of a number, least significant first. -/
def leBytes : ℕ → ℕ → List UInt8
  | 0, _ => []
  | width + 1, n => UInt8.ofNat n :: leBytes width (n / 256)

/-- The number with the given bytes, least significant first. -/
def leNat : List UInt8 → ℕ
  | [] => 0
  | b :: bs => b.toNat + 256 * leNat bs

@[simp] theorem length_leBytes (width n : ℕ) : (leBytes width n).length = width := by
  induction width generalizing n with
  | zero => rfl
  | succ width ih => rw [leBytes, List.length_cons, ih]

/-- Decoding returns the number reduced to the width. -/
theorem leNat_leBytes (width n : ℕ) : leNat (leBytes width n) = n % 256 ^ width := by
  induction width generalizing n with
  | zero => simp [leBytes, leNat, Nat.mod_one]
  | succ width ih =>
    have byte : (UInt8.ofNat n).toNat = n % 256 := UInt8.toNat_ofNat'
    rw [leBytes, leNat, ih, byte, pow_succ', Nat.mod_mul]

theorem leNat_leBytes_of_lt {width n : ℕ} (fits : n < 256 ^ width) :
    leNat (leBytes width n) = n := by
  rw [leNat_leBytes, Nat.mod_eq_of_lt fits]

/-- Padding with zero bytes does not change the number. -/
theorem leNat_append_zeros (bytes : List UInt8) (n : ℕ) :
    leNat (bytes ++ List.replicate n 0) = leNat bytes := by
  induction bytes with
  | nil =>
    induction n with
    | zero => rfl
    | succ n ih =>
      have tail : leNat (List.replicate n 0) = 0 := ih
      simp [List.replicate_succ, leNat, tail]
  | cons b bs ih => rw [List.cons_append, leNat, leNat, ih]

/-! ### Alignment to four bytes -/

/-- The least multiple of four that is at least `size`. -/
def roundUp4 (size : ℕ) : ℕ := (size + 3) / 4 * 4

theorem le_roundUp4 (size : ℕ) : size ≤ roundUp4 size := by
  rw [roundUp4]
  omega

theorem roundUp4_lt (size : ℕ) : roundUp4 size < size + 4 := by
  rw [roundUp4]
  omega

/-- Masking the two low bits of a word out. -/
theorem and_mask4 {w n : ℕ} (wide : 2 ≤ w) (word : n < 2 ^ w) : n &&& (2 ^ w - 4) = n / 4 * 4 := by
  apply Nat.eq_of_testBit_eq
  intro i
  have mask : 2 ^ w - 4 = (2 ^ (w - 2) - 1) * 2 ^ 2 := by
    obtain ⟨k, rfl⟩ := Nat.exists_eq_add_of_le wide
    rw [Nat.add_sub_cancel_left, pow_add, Nat.sub_mul]
    omega
  have four : n / 4 * 4 = n / 2 ^ 2 * 2 ^ 2 := by norm_num
  rw [Nat.testBit_and, mask, four, Nat.testBit_mul_two_pow, Nat.testBit_mul_two_pow,
    Nat.testBit_two_pow_sub_one, Nat.testBit_div_two_pow]
  by_cases low : 2 ≤ i
  · by_cases high : i < w
    · have inside : i - 2 < w - 2 := by omega
      simp [low, inside]
    · have zero : n.testBit i = false :=
        Nat.testBit_lt_two_pow (word.trans_le (Nat.pow_le_pow_right (by norm_num) (by omega)))
      simp [low, zero]
  · simp [low]

/-- The masked 32-bit addition `(size + 3) & ~3` rounds up to a multiple of four. -/
theorem toNat_mask4 (size : UInt32) :
    ((size + 3) &&& ~~~3).toNat = (size.toNat + 3) % 2 ^ 32 / 4 * 4 := by
  have mask : (~~~3 : UInt32).toNat = 2 ^ 32 - 4 := rfl
  rw [UInt32.toNat_and, mask, UInt32.toNat_add,
    and_mask4 (by norm_num) (Nat.mod_lt _ (by norm_num))]
  rfl

end Hdf
