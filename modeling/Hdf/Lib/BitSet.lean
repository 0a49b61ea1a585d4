import Mathlib.Data.UInt
import Mathlib.Logic.Basic

/-!
# Words as sets of bits

A 32-bit word whose bits stand for events. Masking, setting and clearing events are
the set operations on the bits.

## Main results

* `hasBit_and`, `hasBit_or`, `hasBit_clear`: the operations, bit by bit
* `and_eq_right_iff`, `and_ne_zero_iff`: comparing a word with a mask
-/

namespace Hdf.BitSet

variable {word mask : UInt32} {b : ℕ}

/-- The bit at a position is set. -/
def HasBit (word : UInt32) (b : ℕ) : Prop := word.toBitVec.getLsbD b = true

theorem ext_iff : word = mask ↔ ∀ b, HasBit word b ↔ HasBit mask b := by
  unfold HasBit
  rw [← UInt32.toBitVec_inj]
  constructor
  · rintro same b
    rw [same]
  · intro same
    apply BitVec.eq_of_getLsbD_eq
    exact fun b _ => Bool.eq_iff_iff.mpr (same b)

@[simp] theorem not_hasBit_zero : ¬ HasBit 0 b := by simp [HasBit]

@[simp] theorem hasBit_and : HasBit (word &&& mask) b ↔ HasBit word b ∧ HasBit mask b := by
  simp [HasBit]

@[simp] theorem hasBit_or : HasBit (word ||| mask) b ↔ HasBit word b ∨ HasBit mask b := by
  simp [HasBit]

/-- Clearing the events of a mask. -/
@[simp] theorem hasBit_clear : HasBit (word &&& ~~~mask) b ↔ HasBit word b ∧ ¬ HasBit mask b := by
  unfold HasBit
  rw [UInt32.toBitVec_and, UInt32.toBitVec_not, BitVec.getLsbD_and, BitVec.getLsbD_not,
    Bool.and_eq_true, Bool.and_eq_true, decide_eq_true_iff, Bool.not_eq_true', Bool.not_eq_true]
  exact ⟨fun ⟨set, _, unset⟩ => ⟨set, unset⟩,
    fun ⟨set, unset⟩ => ⟨set, BitVec.lt_of_getLsbD set, unset⟩⟩

theorem and_eq_right_iff : word &&& mask = mask ↔ ∀ b, HasBit mask b → HasBit word b := by
  rw [ext_iff]
  simp only [hasBit_and, and_iff_right_iff_imp]

theorem and_ne_zero_iff : word &&& mask ≠ 0 ↔ ∃ b, HasBit mask b ∧ HasBit word b := by
  rw [Ne, ext_iff]
  simp only [hasBit_and, not_hasBit_zero, iff_false, not_forall, not_not, and_comm]

end Hdf.BitSet
