import Mathlib.Data.List.Basic
import Mathlib.Data.Nat.Notation

/-!
# Arrays that are filled from the front

An array of a fixed size with the number of places that are in use. An element is put
at the first free place; once the array is full it stays as it is.

## Main results

* `Filled.items_addAll`: as many elements are added as there are free places
* `Filled.items_addAll_of_room`: all of them, when they fit
-/

namespace Hdf

/-- The elements of an array of `n` places that is filled from the front. -/
structure Filled (α : Type*) (n : ℕ) where
  items : List α
  fits : items.length ≤ n
  deriving DecidableEq

namespace Filled

variable {α : Type*} {n : ℕ} {xs : Filled α n} {x : α} {ys : List α}

/-- No place is in use. -/
def empty : Filled α n := ⟨[], Nat.zero_le n⟩

/-- Puts an element at the first free place, if there is one. -/
def add (xs : Filled α n) (x : α) : Filled α n :=
  if room : xs.items.length < n then ⟨xs.items ++ [x], by simpa using Nat.succ_le_of_lt room⟩
  else xs

/-- Puts elements in one after the other. -/
def addAll (xs : Filled α n) (ys : List α) : Filled α n := ys.foldl add xs

theorem ext_items {xs ys : Filled α n} (same : xs.items = ys.items) : xs = ys := by
  obtain ⟨xs, _⟩ := xs
  obtain rfl : xs = ys.items := same
  rfl

theorem items_add_of_room (room : xs.items.length < n) : (xs.add x).items = xs.items ++ [x] := by
  rw [add, dif_pos room]

theorem add_of_full (full : n ≤ xs.items.length) : xs.add x = xs := by
  rw [add, dif_neg (Nat.not_lt.mpr full)]

@[simp] theorem addAll_nil : xs.addAll [] = xs := rfl

theorem addAll_cons : xs.addAll (x :: ys) = (xs.add x).addAll ys := rfl

theorem addAll_of_full (full : n ≤ xs.items.length) : xs.addAll ys = xs := by
  induction ys with
  | nil => rfl
  | cons y ys ih => rw [addAll_cons, add_of_full full, ih]

/-- As many elements are added as there are free places. -/
theorem items_addAll : (xs.addAll ys).items = xs.items ++ ys.take (n - xs.items.length) := by
  induction ys generalizing xs with
  | nil => simp
  | cons y ys ih =>
    by_cases room : xs.items.length < n
    · obtain ⟨left, free⟩ : ∃ left, n - xs.items.length = left + 1 :=
        Nat.exists_eq_add_one.mpr (Nat.sub_pos_of_lt room)
      have after : n - (xs.items ++ [y]).length = left := by
        rw [List.length_append, List.length_singleton]
        omega
      rw [addAll_cons, ih, items_add_of_room room, after, free, List.take_succ_cons,
        List.append_assoc, List.singleton_append]
    · have full : n ≤ xs.items.length := Nat.not_lt.mp room
      rw [addAll_of_full full, Nat.sub_eq_zero_of_le full, List.take_zero, List.append_nil]

theorem items_addAll_of_room (room : xs.items.length + ys.length ≤ n) :
    (xs.addAll ys).items = xs.items ++ ys := by
  rw [items_addAll, List.take_of_length_le (Nat.le_sub_of_add_le' room)]

end Filled

end Hdf
