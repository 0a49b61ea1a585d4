import Mathlib.Data.List.Basic
import Mathlib.Algebra.Order.Ring.Nat

/-!
# Storage of a fixed size

Cells that are read and written by ranges. An access outside the storage has no
result, so a program whose accesses all have results stays inside.

## Main results

* `length_of_storeAt`, `take_of_storeAt`: a store keeps the size and what is before it
* `take_written_of_storeAt`: it extends what is before it
* `storeAt_self`: storing what is there changes nothing
* `loadAt_of_take`: a load returns what earlier stores have left
-/

namespace Hdf

variable {α : Type*}

/-- The `count` cells from `offset` on. -/
def loadAt (cells : List α) (offset count : ℕ) : Option (List α) :=
  if offset + count ≤ cells.length then some ((cells.drop offset).take count) else none

/-- Replace the cells from `offset` on. -/
def storeAt (cells : List α) (offset : ℕ) (src : List α) : Option (List α) :=
  if offset + src.length ≤ cells.length then
    some (cells.take offset ++ (src ++ cells.drop (offset + src.length)))
  else none

variable {cells cells' src a b : List α} {offset count n : ℕ}

theorem loadAt_eq (inside : offset + count ≤ cells.length) :
    loadAt cells offset count = some ((cells.drop offset).take count) := if_pos inside

theorem exists_storeAt (inside : offset + src.length ≤ cells.length) :
    ∃ cells', storeAt cells offset src = some cells' := ⟨_, if_pos inside⟩

theorem storeAt_spec (h : storeAt cells offset src = some cells') :
    offset + src.length ≤ cells.length ∧
      cells' = cells.take offset ++ (src ++ cells.drop (offset + src.length)) := by
  unfold storeAt at h
  split at h
  case isTrue inside => exact ⟨inside, (Option.some.inj h).symm⟩
  case isFalse => cases h

theorem length_of_storeAt (h : storeAt cells offset src = some cells') :
    cells'.length = cells.length := by
  obtain ⟨inside, rfl⟩ := storeAt_spec h
  rw [List.length_append, List.length_append, List.length_take, List.length_drop]
  omega

/-- Cells before a store keep their values. -/
theorem take_of_storeAt (h : storeAt cells offset src = some cells') (before : n ≤ offset) :
    cells'.take n = cells.take n := by
  obtain ⟨inside, rfl⟩ := storeAt_spec h
  have length : n ≤ (cells.take offset).length := by
    rw [List.length_take]
    omega
  rw [List.take_append_of_le_length length, List.take_take, Nat.min_eq_left before]

/-- A store at the end of a prefix extends it, up to any later cell. -/
theorem take_written_of_storeAt (h : storeAt cells offset src = some cells')
    (after : offset + src.length ≤ n) (inside : n ≤ cells.length) :
    ∃ rest, cells'.take n = cells.take offset ++ (src ++ rest) ∧
      rest.length = n - (offset + src.length) := by
  obtain ⟨_, rfl⟩ := storeAt_spec h
  have front : (cells.take offset).length = offset := by
    rw [List.length_take]
    omega
  refine ⟨(cells.drop (offset + src.length)).take (n - (offset + src.length)), ?_, ?_⟩
  · rw [List.take_append, front, List.take_of_length_le (front.trans_le (by omega)),
      List.take_append, List.take_of_length_le (show src.length ≤ n - offset by omega)]
    congr 3
    omega
  · rw [List.length_take, List.length_drop]
    omega

/-- A load inside a known prefix. -/
theorem loadAt_of_take (known : cells.take n = a ++ b) (inside : n ≤ cells.length)
    (enough : count ≤ b.length) : loadAt cells a.length count = some (b.take count) := by
  have total : n = a.length + b.length := by
    rw [← List.length_append, ← known, List.length_take, Nat.min_eq_left inside]
  have split : cells = (a ++ b) ++ cells.drop n := by rw [← known, List.take_append_drop]
  rw [loadAt_eq (by omega), split, List.append_assoc, List.drop_left,
    List.take_append_of_le_length enough]

/-- Storing what is there changes nothing. -/
theorem storeAt_self (inside : offset + src.length ≤ cells.length)
    (there : (cells.drop offset).take src.length = src) :
    storeAt cells offset src = some cells := by
  rw [storeAt, if_pos inside]
  congr 1
  nth_rewrite 1 [← there]
  rw [← List.drop_drop, List.take_append_drop, List.take_append_drop]

theorem getElem?_of_storeAt {cell : α} (h : storeAt cells offset [cell] = some cells') :
    cells'[offset]? = some cell := by
  obtain ⟨inside, rfl⟩ := storeAt_spec h
  rw [List.length_singleton] at inside
  have front : (cells.take offset).length = offset := by
    rw [List.length_take]
    omega
  rw [List.getElem?_append_right front.le, front, Nat.sub_self]
  rfl

end Hdf
