import Hdf.Lib.Acyclic
import Mathlib.Data.List.Perm.Basic

/-!
# Orders in which every element comes after those it needs

Elements carry names and need other elements by name. An order puts every element
after the elements it needs. Such an order of all elements exists only where the
needs have no cycles, and a collection that has taken in everything whose needs it
covers then lacks nothing.

## Main results

* `InOrder.acyclic`: in an ordered list, needs have no cycles
* `mem_of_acyclic`: what has taken in everything whose needs it covers lacks nothing
-/

namespace Hdf.DependencyOrder

open Relation

variable {α ν : Type*} [DecidableEq ν] (name : α → ν) (needs : α → Finset ν)

/-- The names of a list of elements. -/
def namesOf (done : List α) : Finset ν := (done.map name).toFinset

/-- Every element of the list comes after elements with the names it needs. -/
def InOrder (order : List α) : Prop :=
  ∀ before a after, order = before ++ a :: after → needs a ⊆ namesOf name before

/-- One element of a list needs another one. -/
def Needs (all : List α) (a b : α) : Prop := a ∈ all ∧ b ∈ all ∧ name b ∈ needs a

variable {name needs}

theorem mem_namesOf {done : List α} {n : ν} : n ∈ namesOf name done ↔ ∃ a ∈ done, name a = n := by
  simp [namesOf]

theorem namesOf_append (xs ys : List α) :
    namesOf name (xs ++ ys) = namesOf name xs ∪ namesOf name ys := by
  simp [namesOf]

theorem inOrder_nil : InOrder name needs [] := by
  intro before a after split
  simp at split

theorem InOrder.concat {order : List α} (ordered : InOrder name needs order) {a : α}
    (covered : needs a ⊆ namesOf name order) : InOrder name needs (order ++ [a]) := by
  intro before b after split
  rcases List.eq_nil_or_concat after with rfl | ⟨start, last, rfl⟩
  · obtain ⟨rfl, rfl⟩ : order = before ∧ a = b := by
      simpa using List.append_inj' split rfl
    exact covered
  · rw [List.concat_eq_append, ← List.cons_append, ← List.append_assoc] at split
    exact ordered before b start (List.append_inj' split rfl).1

/-- In an ordered list whose names are distinct, needs have no cycles. -/
theorem InOrder.acyclic {order : List α} (ordered : InOrder name needs order)
    (distinct : (order.map name).Nodup) (a : α) : ¬ TransGen (Needs name needs order) a a := by
  classical
  -- needs point to earlier places, so the places rank the converse relation
  have backward : ∀ b c, Needs name needs order b c → order.idxOf c < order.idxOf b := by
    rintro b c ⟨inB, inC, needed⟩
    obtain ⟨before, after, split, fresh⟩ := List.eq_append_cons_of_mem inB
    obtain ⟨d, earlier, same⟩ := mem_namesOf.mp (ordered before b after split needed)
    have inOrder : d ∈ order := split ▸ List.mem_append_left _ earlier
    obtain rfl : d = c := List.inj_on_of_nodup_map distinct inOrder inC same
    rw [split, List.idxOf_append_of_mem earlier, List.idxOf_append_of_notMem fresh]
    exact (List.idxOf_lt_length_of_mem earlier).trans_le (Nat.le_add_right _ _)
  intro cycle
  refine acyclic_of_rank (R := Function.swap (Needs name needs order)) order.idxOf ?_ a ?_
  · intro b c related
    exact backward c b related
  · exact transGen_swap.mpr cycle

/-- Where needs lead to elements of the list only and have no cycles, a collection that
has taken in every element whose needs it covers lacks none. -/
theorem mem_of_acyclic {all done : List α}
    (inside : ∀ a ∈ all, ∀ n ∈ needs a, ∃ b ∈ all, name b = n)
    (acyclic : ∀ a, ¬ TransGen (Needs name needs all) a a)
    (closed : ∀ a ∈ all, needs a ⊆ namesOf name done → a ∈ done) :
    ∀ a ∈ all, a ∈ done := by
  have listed (a b : α) (related : Needs name needs all a b) : b ∈ all := related.2.1
  obtain ⟨rank, falls, -⟩ := exists_rank_of_acyclic listed acyclic
  intro a
  induction h : rank a using Nat.strong_induction_on generalizing a with
  | _ height ih =>
    intro listed
    refine closed a listed fun n needed => ?_
    obtain ⟨b, inAll, rfl⟩ := inside a listed n needed
    have lower : rank b < height := h ▸ falls a b ⟨listed, inAll, needed⟩
    exact mem_namesOf.mpr ⟨b, ih _ lower b rfl inAll, rfl⟩

end Hdf.DependencyOrder
