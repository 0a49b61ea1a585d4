import Mathlib.Algebra.BigOperators.Group.List.Basic
import Mathlib.Data.BitVec
import Mathlib.Logic.Relation

/-!
# Counting the walks to end points

In a graph whose walks all end, a recursion counts the walks from a vertex to an
end point, where it stops. The count is positive exactly when an end point can be
reached. When one edge comes to the graph, only what lies beyond this edge comes
into reach.

## Main results

* `endCount_pos_iff`: the count is positive when an end point can be reached
* `eq_ofNat_endCount`: the same recursion in machine words is the count in words
* `reach_or_from_edge`, `reach_or_to_edge`: a walk in the larger graph stays in the
  smaller one or takes the edge
-/

namespace Hdf

open Relation

variable {α : Type*}

section Count

/-- The number of walks that end at their first end point. -/
def endCount (isEnd : α → Bool) (next : α → List α) (rank : α → ℕ)
    (falls : ∀ a, ∀ b ∈ next a, rank b < rank a) (a : α) : ℕ :=
  if isEnd a then 1
  else ((next a).attach.map fun b => endCount isEnd next rank falls b.1).sum
termination_by rank a
decreasing_by exact falls a b.1 b.2

variable (isEnd : α → Bool) (next : α → List α) (rank : α → ℕ)
  (falls : ∀ a, ∀ b ∈ next a, rank b < rank a)

theorem endCount_eq (a : α) :
    endCount isEnd next rank falls a =
      if isEnd a then 1 else ((next a).map (endCount isEnd next rank falls)).sum := by
  rw [endCount]
  refine if_congr Iff.rfl rfl (congrArg List.sum ?_)
  exact List.attach_map_val (f := endCount isEnd next rank falls)

theorem endCount_pos_iff (a : α) :
    0 < endCount isEnd next rank falls a ↔
      ∃ e, isEnd e ∧ ReflTransGen (fun a b => b ∈ next a) a e := by
  obtain ⟨n, ranked⟩ : ∃ n, rank a = n := ⟨_, rfl⟩
  induction n using Nat.strong_induction_on generalizing a with
  | _ n ih =>
    rw [endCount_eq]
    split
    · rename_i ends
      exact iff_of_true Nat.one_pos ⟨a, ends, .refl⟩
    · rename_i passes
      rw [List.sum_pos_iff_exists_pos_nat]
      constructor
      · rintro ⟨count, listed, positive⟩
        obtain ⟨b, member, rfl⟩ := List.mem_map.mp listed
        obtain ⟨e, ends, walk⟩ := (ih _ (ranked ▸ falls a b member) b rfl).mp positive
        exact ⟨e, ends, .head member walk⟩
      · rintro ⟨e, ends, walk⟩
        rcases walk.cases_head with rfl | ⟨b, member, walk⟩
        · exact absurd ends passes
        · exact ⟨_, List.mem_map_of_mem member,
            (ih _ (ranked ▸ falls a b member) b rfl).mpr ⟨e, ends, walk⟩⟩

theorem ofNat_sum {w : ℕ} (l : List ℕ) : BitVec.ofNat w l.sum = (l.map (BitVec.ofNat w)).sum := by
  induction l with
  | nil => rfl
  | cons n l ih => rw [List.sum_cons, BitVec.ofNat_add, ih, List.map_cons, List.sum_cons]

/-- Counting in machine words gives the remainder of the count. -/
theorem eq_ofNat_endCount {w : ℕ} {count : α → BitVec w}
    (counts : ∀ a, count a = if isEnd a then 1 else ((next a).map count).sum) (a : α) :
    count a = BitVec.ofNat w (endCount isEnd next rank falls a) := by
  obtain ⟨n, ranked⟩ : ∃ n, rank a = n := ⟨_, rfl⟩
  induction n using Nat.strong_induction_on generalizing a with
  | _ n ih =>
    rw [counts, endCount_eq]
    split
    · rfl
    · rw [ofNat_sum, List.map_map]
      refine congrArg List.sum (List.map_congr_left fun b member => ?_)
      exact ih _ (ranked ▸ falls a b member) b rfl

end Count

section Switch

variable {small big : α → α → Prop} {s t : α}

variable (added : ∀ a b, big a b → small a b ∨ a = s ∧ b = t) {a b : α}

include added

/-- A walk that needs the edge ends, after its last use, in the smaller graph. -/
theorem reach_or_from_edge (walk : ReflTransGen big a b) :
    ReflTransGen small a b ∨ ReflTransGen big a t ∧ ReflTransGen small t b := by
  induction walk with
  | refl => exact .inl .refl
  | tail walk last ih =>
    rcases added _ _ last with kept | ⟨rfl, rfl⟩
    · exact ih.imp (·.tail kept) (And.imp_right (·.tail kept))
    · exact .inr ⟨walk.tail last, .refl⟩

/-- A walk that needs the edge starts, up to its first use, in the smaller graph. -/
theorem reach_or_to_edge (walk : ReflTransGen big a b) :
    ReflTransGen small a b ∨ ReflTransGen small a s ∧ ReflTransGen big s b := by
  induction walk using ReflTransGen.head_induction_on with
  | refl => exact .inl .refl
  | head first walk ih =>
    rcases added _ _ first with kept | ⟨rfl, rfl⟩
    · exact ih.imp (.head kept) (And.imp_left (.head kept))
    · exact .inr ⟨.refl, .head first walk⟩

end Switch

end Hdf
