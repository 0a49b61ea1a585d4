import Mathlib.Data.List.Nodup
import Mathlib.Data.List.Count

/-!
# Occurrences

The elements of a list told apart by how often they came before. A generator that makes
names of texts that repeat counts in this way, and what it makes is distinct just if no
two of the counted elements are made the same.

## Main results

* `mem_occurrences_iff`: an element is counted up to its number of occurrences
* `nodup_map_occurrences_iff`: when what is made of counted elements is distinct
-/

namespace Hdf

variable {α β : Type*} [DecidableEq α] {a : α} {n : ℕ}

/-- The elements of a list behind another one, each with the number of times it came before. -/
def occurrencesBehind (before : List α) : List α → List (α × ℕ)
  | [] => []
  | a :: rest => (a, before.count a) :: occurrencesBehind (before ++ [a]) rest

/-- The elements of a list, each with the number of times it came before. -/
def occurrences (list : List α) : List (α × ℕ) := occurrencesBehind [] list

theorem mem_occurrencesBehind_iff {before list : List α} :
    (a, n) ∈ occurrencesBehind before list ↔
      before.count a ≤ n ∧ n < before.count a + list.count a := by
  induction list generalizing before with
  | nil =>
    refine iff_of_false List.not_mem_nil fun bounds => ?_
    rw [List.count_nil] at bounds
    omega
  | cons b rest ih =>
    rw [occurrencesBehind, List.mem_cons, ih, Prod.mk.injEq, List.count_append]
    by_cases same : a = b
    · subst same
      rw [List.count_singleton_self, List.count_cons_self, eq_self_iff_true, true_and]
      omega
    · rw [List.count_cons_of_ne (Ne.symm same), List.count_cons_of_ne (Ne.symm same),
        List.count_nil, eq_false same, false_and, false_or]
      omega

/-- An element is counted from zero up to its number of occurrences. -/
theorem mem_occurrences_iff {list : List α} : (a, n) ∈ occurrences list ↔ n < list.count a := by
  rw [occurrences, mem_occurrencesBehind_iff, List.count_nil]
  omega

theorem nodup_occurrencesBehind (before list : List α) :
    (occurrencesBehind before list).Nodup := by
  induction list generalizing before with
  | nil => exact List.nodup_nil
  | cons a rest ih =>
    refine List.nodup_cons.mpr ⟨fun again => ?_, ih _⟩
    have later := (mem_occurrencesBehind_iff.mp again).1
    rw [List.count_append, List.count_singleton_self] at later
    omega

/-- What is made of the counted elements is distinct where no two of them are made the same. -/
theorem nodup_map_occurrences_iff {list : List α} {make : α × ℕ → β} :
    ((occurrences list).map make).Nodup ↔ ∀ a b i j, i < list.count a → j < list.count b →
      make (a, i) = make (b, j) → a = b ∧ i = j := by
  rw [occurrences, List.nodup_map_iff_inj_on (nodup_occurrencesBehind [] list)]
  constructor
  · intro distinct a b i j first second same
    exact Prod.mk.inj (distinct (a, i) (mem_occurrences_iff.mpr first) (b, j)
      (mem_occurrences_iff.mpr second) same)
  · rintro distinct ⟨a, i⟩ first ⟨b, j⟩ second same
    obtain ⟨rfl, rfl⟩ :=
      distinct a b i j (mem_occurrences_iff.mp first) (mem_occurrences_iff.mp second) same
    rfl

end Hdf
