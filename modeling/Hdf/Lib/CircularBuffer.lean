import Mathlib.Data.Nat.ModEq

/-!
# Circular buffers

The elements of a stream are stored in a circular buffer: the element with an index is at
the index modulo the size of the buffer. A writer stores blocks behind those that have been
stored, and a reader follows.

## Main results

* `Unread.store`: they stay there when a block is stored for which there is room, and that does
  not pass the end of the buffer
-/

namespace Hdf.Circular

variable {α : Type*} {mem stream block : ℕ → α} {size first last n start j : ℕ}

/-- A memory in which `n` elements of a block have been stored. -/
def store (mem : ℕ → α) (start n : ℕ) (block : ℕ → α) (j : ℕ) : α :=
  if start ≤ j ∧ j < start + n then block (j - start) else mem j

/-- The elements of a stream from one index to another are in the buffer. -/
def Unread (size : ℕ) (mem : ℕ → α) (first last : ℕ) (stream : ℕ → α) : Prop :=
  ∀ i, first ≤ i → i < last → mem (i % size) = stream i

theorem store_of_lt (before : j < start) : store mem start n block j = mem j :=
  if_neg fun inside => Nat.not_le.mpr before inside.1

theorem store_of_le (behind : start + n ≤ j) : store mem start n block j = mem j :=
  if_neg fun inside => Nat.not_lt.mpr behind inside.2

theorem store_add (inside : j < n) : store mem start n block (start + j) = block j := by
  rw [store, if_pos ⟨Nat.le_add_right .., Nat.add_lt_add_left inside start⟩,
    Nat.add_sub_cancel_left]

/-- Storing inside the buffer changes nothing behind it. -/
theorem store_outside (inside : start + n ≤ size) (outside : size ≤ j) :
    store mem start n block j = mem j :=
  store_of_le (inside.trans outside)

/-- Less than a whole turn apart, two elements have different places. -/
theorem mod_ne_mod {i : ℕ} (lt : i < j) (close : j < i + size) : i % size ≠ j % size := by
  intro same
  have dvd : size ∣ j - i := (Nat.modEq_iff_dvd' (Nat.le_of_lt lt)).mp same
  have le := Nat.le_of_dvd (Nat.sub_pos_of_lt lt) dvd
  omega

/-- The places of a block that does not pass the end follow each other. -/
theorem add_mod_of_lt (inside : last % size + j < size) : (last + j) % size = last % size + j := by
  rw [← Nat.mod_add_mod, Nat.mod_eq_of_lt inside]

/-- The reader goes on. -/
theorem Unread.advance (unread : Unread size mem first last stream) {next : ℕ}
    (le : first ≤ next) : Unread size mem next last stream :=
  fun i from_next lt => unread i (le.trans from_next) lt

/-- A block is stored behind the others. -/
theorem Unread.store (unread : Unread size mem first last stream)
    (room : last + n ≤ first + size) (inside : last % size + n ≤ size) :
    Unread size (store mem (last % size) n block) first (last + n)
      (store stream last n block) := by
  intro i le lt
  rcases Nat.lt_or_ge i last with old | new
  · rw [store_of_lt old, ← unread i le old, Circular.store, if_neg]
    -- a place of the block is that of an element less than a turn away
    rintro ⟨from_start, to_end⟩
    obtain ⟨k, place⟩ := Nat.exists_eq_add_of_le from_start
    have below : k < n := by omega
    have close : last + k < i + size := by omega
    refine mod_ne_mod (Nat.lt_of_lt_of_le old (Nat.le_add_right last k)) close ?_
    rw [add_mod_of_lt (by omega), place]
  · obtain ⟨k, rfl⟩ := Nat.exists_eq_add_of_le new
    have below : k < n := by omega
    rw [add_mod_of_lt (by omega), store_add below, store_add below]

end Hdf.Circular
