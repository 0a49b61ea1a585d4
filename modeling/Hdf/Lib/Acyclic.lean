import Mathlib.Data.Finset.Card
import Mathlib.Logic.Relation

/-!
# Relations without cycles

A relation without cycles that leads to finitely many elements only can be ranked
by the number of elements that are still ahead.

## Main results

* `acyclic_of_rank`: a relation along which a rank goes up has no cycles
* `exists_rank_of_acyclic`: a finite relation without cycles has ranks
-/

namespace Hdf

open Relation

variable {α : Type*} {R : α → α → Prop}

theorem acyclic_of_rank (rank : α → ℕ) (up : ∀ a b, R a b → rank a < rank b) (a : α) :
    ¬ TransGen R a a := by
  intro cycle
  have raised : ∀ b, TransGen R a b → rank a < rank b := by
    intro b path
    induction path with
    | single related => exact up _ _ related
    | tail _ related ih => exact ih.trans (up _ _ related)
  exact lt_irrefl _ (raised a cycle)

/-- A finite relation without cycles has ranks that fall along it. -/
theorem exists_rank_of_acyclic {targets : List α} (inside : ∀ a b, R a b → b ∈ targets)
    (acyclic : ∀ a, ¬ TransGen R a a) :
    ∃ rank : α → ℕ, (∀ a b, R a b → rank b < rank a) ∧
      ∀ a ∈ targets, rank a < targets.length := by
  classical
  refine ⟨fun a => (targets.toFinset.filter (TransGen R a)).card, fun a b h => ?_,
    fun a listed => ?_⟩
  · refine Finset.card_lt_card ⟨fun c member => ?_, fun all => ?_⟩
    · obtain ⟨target, below⟩ := Finset.mem_filter.mp member
      exact Finset.mem_filter.mpr ⟨target, .head h below⟩
    · have self : b ∈ targets.toFinset.filter (TransGen R a) :=
        Finset.mem_filter.mpr ⟨List.mem_toFinset.mpr (inside a b h), .single h⟩
      exact acyclic b (Finset.mem_filter.mp (all self)).2
  · have fewer : targets.toFinset.filter (TransGen R a) ⊂ targets.toFinset := by
      apply Finset.filter_ssubset.mpr
      exact ⟨a, List.mem_toFinset.mpr listed, acyclic a⟩
    exact (Finset.card_lt_card fewer).trans_le (List.toFinset_card_le targets)

end Hdf
