import Mathlib.Data.Nat.Bitwise
import Mathlib.Logic.Function.Basic

/-!
# Bit fields

A register has several fields. A field is given by a mask of its width and by its shift,
and is written by reading the register, replacing the bits of the field and writing the
register back. Fields of the same width can be packed into words.

## Main results

* `BitVec.field_setField`: a field reads what has been written
* `BitVec.field_setField_of_disjoint`, `BitVec.setField_and_not`: and nothing else changes
* `Packing.get_set`: the same for packed fields
-/

namespace BitVec

variable {w : ℕ}

/-- The value of a field. -/
def field (r mask : BitVec w) (shift : ℕ) : BitVec w := (r >>> shift) &&& mask

/-- A register in which a field has been replaced. -/
def setField (r mask : BitVec w) (shift : ℕ) (value : BitVec w) : BitVec w :=
  (r &&& ~~~(mask <<< shift)) ||| ((value <<< shift) &&& (mask <<< shift))

/-- All bits of a field are in the register. -/
def Fits (mask : BitVec w) (shift : ℕ) : Prop := (mask <<< shift) >>> shift = mask

instance (mask : BitVec w) (shift : ℕ) : Decidable (mask.Fits shift) :=
  inferInstanceAs (Decidable ((mask <<< shift) >>> shift = mask))

/-- What a field keeps of a value. -/
def stored (value mask : BitVec w) (shift : ℕ) : BitVec w := ((value &&& mask) <<< shift) >>> shift

/-- A mask of ones. -/
def IsOnes (mask : BitVec w) : Prop := ∃ k, mask.toNat = 2 ^ k - 1

variable {r mask mask' value : BitVec w} {shift shift' : ℕ}

/-- Clearing the bits of a mask takes their value away. -/
theorem toNat_and_not (x mask : BitVec w) :
    (x &&& ~~~mask).toNat = x.toNat - (x &&& mask).toNat := by
  have apart : (x &&& ~~~mask) &&& (x &&& mask) = 0#w := by
    rw [BitVec.and_comm x mask, ← BitVec.and_assoc, BitVec.and_assoc x, not_and_self]
    simp
  have sum : (x &&& ~~~mask) + (x &&& mask) = x := by
    rw [add_eq_or_of_and_eq_zero _ _ apart, ← and_or_distrib_left, not_or_self, and_allOnes]
  have le : x &&& mask ≤ x := by
    rw [le_def, toNat_and]
    exact Nat.and_le_left
  rw [← toNat_sub_of_le le]
  exact congrArg BitVec.toNat (eq_sub_iff_add_eq.mpr sum)

/-- The values of a field are those up to its mask. -/
theorem IsOnes.and_eq (ones : mask.IsOnes) (inside : value ≤ mask) : value &&& mask = value := by
  obtain ⟨k, same⟩ := ones
  apply eq_of_toNat_eq
  rw [toNat_and, same]
  apply Nat.and_two_pow_sub_one_of_lt_two_pow
  have small : value.toNat ≤ 2 ^ k - 1 := same ▸ le_def.mp inside
  have positive := Nat.two_pow_pos k
  omega

/-- The bits of a field that fits are below the end of the register. -/
theorem Fits.lt (fits : mask.Fits shift) {i : ℕ} (bit : mask.getLsbD i = true) :
    shift + i < w := by
  have same := congrArg (fun bits => bits.getLsbD i) fits
  simp only [getLsbD_ushiftRight, getLsbD_shiftLeft, bit, Bool.and_eq_true,
    decide_eq_true_eq] at same
  exact same.1.1

theorem getLsbD_field (i : ℕ) :
    (r.field mask shift).getLsbD i = (r.getLsbD (shift + i) && mask.getLsbD i) := by
  rw [field, getLsbD_and, getLsbD_ushiftRight]

theorem getLsbD_setField (i : ℕ) : (r.setField mask shift value).getLsbD i =
    if (mask <<< shift).getLsbD i then (value <<< shift).getLsbD i else r.getLsbD i := by
  rw [setField, getLsbD_or, getLsbD_and, getLsbD_and, getLsbD_not]
  by_cases lt : i < w
  · cases (mask <<< shift).getLsbD i <;> simp [lt]
  · have le := Nat.not_lt.mp lt
    rw [getLsbD_of_ge r i le, getLsbD_of_ge (mask <<< shift) i le]
    simp

/-- A bit of a field that fits, in the register. -/
theorem Fits.getLsbD_shiftLeft_add (fits : mask.Fits shift) (i : ℕ) :
    (mask <<< shift).getLsbD (shift + i) = mask.getLsbD i := by
  have same := congrArg (fun bits => bits.getLsbD i) fits
  rwa [getLsbD_ushiftRight] at same

/-- A field reads what has been written. -/
theorem field_setField (fits : mask.Fits shift) (inside : value &&& mask = value) :
    (r.setField mask shift value).field mask shift = value := by
  apply eq_of_getLsbD_eq
  intro i _
  have same := congrArg (fun bits => bits.getLsbD i) inside
  simp only [getLsbD_and] at same
  rw [getLsbD_field, getLsbD_setField, fits.getLsbD_shiftLeft_add]
  cases bit : mask.getLsbD i with
  | false =>
    rw [bit, Bool.and_false] at same
    rw [Bool.and_false, same]
  | true =>
    rw [if_pos rfl, Bool.and_true, getLsbD_shiftLeft, Nat.add_sub_cancel_left]
    simp [fits.lt bit]

/-- Another field reads what it has read before. -/
theorem field_setField_of_disjoint (apart : (mask <<< shift) &&& (mask' <<< shift') = 0#w)
    (fits : mask'.Fits shift') :
    (r.setField mask shift value).field mask' shift' = r.field mask' shift' := by
  apply eq_of_getLsbD_eq
  intro i _
  have clear := congrArg (fun bits => bits.getLsbD (shift' + i)) apart
  simp only [getLsbD_and, fits.getLsbD_shiftLeft_add, getLsbD_zero] at clear
  rw [getLsbD_field, getLsbD_field, getLsbD_setField]
  cases bit : mask'.getLsbD i with
  | false => rw [Bool.and_false, Bool.and_false]
  | true =>
    rw [bit, Bool.and_true] at clear
    rw [clear, if_neg Bool.false_ne_true]

/-- The bits outside a field stay as they are. -/
theorem setField_and_not {bits : BitVec w} (inside : (mask <<< shift) &&& ~~~bits = 0#w) :
    r.setField mask shift value &&& ~~~bits = r &&& ~~~bits := by
  apply eq_of_getLsbD_eq
  intro i lt
  have clear := congrArg (fun bits => bits.getLsbD i) inside
  simp only [getLsbD_and, getLsbD_not, lt, decide_true, Bool.true_and, getLsbD_zero] at clear
  rw [getLsbD_and, getLsbD_and, getLsbD_setField, getLsbD_not]
  cases bit : (mask <<< shift).getLsbD i with
  | false => rw [if_neg Bool.false_ne_true]
  | true =>
    rw [bit, Bool.true_and] at clear
    rw [clear, Bool.and_false, Bool.and_false, Bool.and_false]

/-- How fields are packed into words: how many there are in a word, their width, and a mask of it.
No two fields of a word have a bit in common. -/
structure Packing (w : ℕ) where
  perWord : ℕ
  bits : ℕ
  mask : BitVec w
  positive : 0 < perWord
  fits : ∀ i < perWord, mask.Fits (i * bits)
  apart : ∀ i < perWord, ∀ j < perWord, i ≠ j →
    (mask <<< (i * bits)) &&& (mask <<< (j * bits)) = 0#w

variable (packing : Packing w) (words : ℕ → BitVec w)

/-- The value of a packed field. -/
def Packing.get (i : ℕ) : BitVec w :=
  (words (i / packing.perWord)).field packing.mask (i % packing.perWord * packing.bits)

/-- The words in which a field has been replaced. -/
def Packing.set (i : ℕ) (value : BitVec w) : ℕ → BitVec w :=
  Function.update words (i / packing.perWord)
    ((words (i / packing.perWord)).setField packing.mask (i % packing.perWord * packing.bits) value)

/-- A packed field reads what has been written, and the others read what they have read before. -/
theorem Packing.get_set (inside : value &&& packing.mask = value) (i j : ℕ) :
    packing.get (packing.set words i value) j = if j = i then value else packing.get words j := by
  have small (k : ℕ) : k % packing.perWord < packing.perWord := Nat.mod_lt k packing.positive
  rw [Packing.get, Packing.set]
  by_cases word : j / packing.perWord = i / packing.perWord
  · rw [word, Function.update_self]
    split
    · rename_i same
      rw [same]
      exact field_setField (packing.fits _ (small i)) inside
    · rename_i differs
      have offset : i % packing.perWord ≠ j % packing.perWord := by
        intro same
        apply differs
        rw [← Nat.div_add_mod j packing.perWord, ← Nat.div_add_mod i packing.perWord, word, same]
      rw [field_setField_of_disjoint (packing.apart _ (small i) _ (small j) offset)
        (packing.fits _ (small j)), Packing.get, word]
  · have differs : j ≠ i := fun same => word (by rw [same])
    rw [Function.update_of_ne word, if_neg differs]
    rfl

end BitVec
