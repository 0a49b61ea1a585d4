import Hdf.Lib.Acyclic
import Hdf.Lib.Transition
import Mathlib.Data.Set.Finite.Basic

/-!
# Exploring a graph without marks

A work list explores a graph depth first: it takes the vertex in front and puts
the successors of this vertex in its place. Nothing records which vertices have
been visited, and a vertex that fails ends the exploration at once.

So a vertex is only visited by way of a chain of edges along which everything
listed earlier has been explored without a failure. When finitely many vertices
have successors, the exploration ends exactly when no such chain comes back to
itself.

## Main results

* `not_terminates_of_cycle`: a chain that comes back keeps the exploration going
* `terminates_explore_iff`: the exploration ends exactly without such chains
-/

namespace Hdf.DepthFirst

open Transition

variable {α : Type*} (expand : α → Option (List α))

/-- One round of the work list: the successors of the vertex in front take its place. -/
def explore : List α → Step (List α) Bool
  | [] => .halt true
  | v :: rest =>
    match expand v with
    | none => .halt false
    | some succs => .next (succs ++ rest)

/-- The vertex `w` is a successor of `v`. -/
def Edge (v w : α) : Prop := ∃ succs, expand v = some succs ∧ w ∈ succs

/-- No vertex that can be reached fails. -/
def Clears (v : α) : Prop := ∀ w, Relation.ReflTransGen (Edge expand) v w → (expand w).isSome

/-- The vertex `w` is a successor of `v`, and nothing fails below the successors listed
before it. -/
def Leads (v w : α) : Prop :=
  ∃ pre post, expand v = some (pre ++ w :: post) ∧ ∀ u ∈ pre, Clears expand u

variable {expand} {v w : α} {succs rest : List α}

theorem explore_cons (h : expand v = some succs) :
    explore expand (v :: rest) = .next (succs ++ rest) := by
  rw [explore, h]

theorem explore_fails (h : expand v = none) : explore expand (v :: rest) = .halt false := by
  rw [explore, h]

theorem Clears.isSome (h : Clears expand v) : (expand v).isSome := h v .refl

theorem Clears.of_mem (h : Clears expand v) (expands : expand v = some succs) (member : w ∈ succs) :
    Clears expand w :=
  fun _ reach => h _ (.head ⟨succs, expands, member⟩ reach)

theorem clears_of_succs (expands : expand v = some succs) (all : ∀ w ∈ succs, Clears expand w) :
    Clears expand v := by
  intro w reach
  rcases reach.cases_head with rfl | ⟨u, ⟨succs', expands', member⟩, below⟩
  · rw [expands]
    rfl
  · cases expands.symm.trans expands'
    exact all u member w below

/-! ### Chains that come back -/

/-- A chain that starts here comes back to a vertex of it. -/
def Returning (expand : α → Option (List α)) (v : α) : Prop :=
  ∃ w, Relation.ReflTransGen (Leads expand) v w ∧ Relation.TransGen (Leads expand) w w

theorem Returning.next (h : Returning expand v) : ∃ w, Leads expand v w ∧ Returning expand w := by
  obtain ⟨w, reach, cycle⟩ := h
  rcases reach.cases_head with rfl | ⟨u, leads, below⟩
  · obtain ⟨u, leads, back⟩ := Relation.TransGen.head'_iff.mp cycle
    exact ⟨u, leads, v, back, cycle⟩
  · exact ⟨u, leads, w, below, cycle⟩

/-- The queue gets to a vertex whose chain comes back, since nothing fails before it. -/
def Bound (expand : α → Option (List α)) (queue : List α) : Prop :=
  ∃ pre v post, queue = pre ++ v :: post ∧ (∀ u ∈ pre, Clears expand u) ∧ Returning expand v

theorem Bound.explore {queue : List α} (h : Bound expand queue) :
    ∃ queue', explore expand queue = .next queue' ∧ Bound expand queue' := by
  obtain ⟨pre, v, post, rfl, clear, returning⟩ := h
  cases pre with
  | nil =>
    -- the chain itself goes on
    obtain ⟨w, ⟨before, after, expands, clear'⟩, returning'⟩ := returning.next
    refine ⟨_, explore_cons expands, before, w, after ++ post, ?_, clear', returning'⟩
    rw [List.append_assoc, List.cons_append]
  | cons u pre =>
    -- what is listed before it does not fail
    have clearU := clear u List.mem_cons_self
    obtain ⟨succs, expands⟩ := Option.isSome_iff_exists.mp clearU.isSome
    refine ⟨_, explore_cons expands, succs ++ pre, v, post, by simp, ?_, returning⟩
    intro x member
    rcases List.mem_append.mp member with below | later
    · exact clearU.of_mem expands below
    · exact clear x (List.mem_cons_of_mem _ later)

theorem not_terminates_of_cycle (reach : Relation.ReflTransGen (Leads expand) v w)
    (cycle : Relation.TransGen (Leads expand) w w) : ¬ Terminates (explore expand) [v] :=
  not_terminates_of_invariant (I := Bound expand)
    ⟨[], v, [], rfl, fun _ member => absurd member List.not_mem_nil, w, reach, cycle⟩
    fun _ bound => bound.explore

/-! ### Explorations that end -/

/-- The exploration of a vertex ends: it fails, or the rest of the queue is what is left, and
nothing has failed below the vertex. -/
def Settles (expand : α → Option (List α)) (v : α) : Prop :=
  ∀ rest, Terminates (explore expand) (v :: rest) ∨
    (Clears expand v ∧ Steps (explore expand) (v :: rest) rest)

theorem Settles.of_succs (expands : expand v = some succs)
    (below : ∀ pre w post, succs = pre ++ w :: post → (∀ u ∈ pre, Clears expand u) →
      Settles expand w) : Settles expand v := by
  intro rest
  -- the successors are taken up one after the other, as long as none has failed
  have along (post : List α) : ∀ pre, succs = pre ++ post → (∀ u ∈ pre, Clears expand u) →
      Terminates (explore expand) (post ++ rest) ∨
        (Clears expand v ∧ Steps (explore expand) (post ++ rest) rest) := by
    induction post with
    | nil =>
      intro pre whole clear
      rw [List.append_nil] at whole
      exact .inr ⟨clears_of_succs expands (whole ▸ clear), .refl⟩
    | cons w post ih =>
      intro pre whole clear
      rcases below pre w post whole clear (post ++ rest) with ends | ⟨clearW, steps⟩
      · exact .inl ends
      · have further := ih (pre ++ [w]) (by rw [whole, List.append_assoc, List.singleton_append])
          fun u member => (List.mem_append.mp member).elim (clear u) fun last =>
            List.mem_singleton.mp last ▸ clearW
        rcases further with ⟨r, returns⟩ | ⟨clearV, later⟩
        · exact .inl ⟨r, .of_steps steps returns⟩
        · exact .inr ⟨clearV, steps.trans later⟩
  have first : explore expand (v :: rest) = _ := explore_cons expands
  rcases along succs [] rfl (fun _ member => absurd member List.not_mem_nil) with
    ⟨r, returns⟩ | ⟨clear, steps⟩
  · exact .inl ⟨r, .of_steps (.single first) returns⟩
  · exact .inr ⟨clear, .head first steps⟩

theorem Settles.terminates (h : Settles expand v) : Terminates (explore expand) [v] := by
  rcases h [] with ends | ⟨-, steps⟩
  · exact ends
  · exact ⟨true, .of_steps steps (.of_halt rfl)⟩

/-- Chains that do not come back have ranks when finitely many vertices have successors. -/
theorem exists_rank (finite : {u | (expand u).isSome}.Finite)
    (acyclic : ∀ w, Relation.ReflTransGen (Leads expand) v w →
      ¬ Relation.TransGen (Leads expand) w w) :
    ∃ rank : α → ℕ, ∀ u w, Relation.ReflTransGen (Leads expand) v u → Leads expand u w →
      (expand w).isSome → rank w < rank u := by
  -- the edges of chains from `v` that the exploration can still go on from
  let R (u w : α) : Prop :=
    Relation.ReflTransGen (Leads expand) v u ∧ Leads expand u w ∧ (expand w).isSome
  have onward {u w : α} (h : Relation.TransGen R u w) :
      Relation.ReflTransGen (Leads expand) v u ∧ Relation.TransGen (Leads expand) u w := by
    induction h using Relation.TransGen.head_induction_on with
    | single h => exact ⟨h.1, .single h.2.1⟩
    | head h _ ih => exact ⟨h.1, .head h.2.1 ih.2⟩
  have inside (u w : α) (h : R u w) : w ∈ finite.toFinset.toList := by simpa using h.2.2
  obtain ⟨rank, falls, -⟩ := exists_rank_of_acyclic inside
    fun u cycle => acyclic u (onward cycle).1 (onward cycle).2
  exact ⟨rank, fun u w reach leads expands => falls u w ⟨reach, leads, expands⟩⟩

theorem settles_of_acyclic (finite : {u | (expand u).isSome}.Finite)
    (acyclic : ∀ w, Relation.ReflTransGen (Leads expand) v w →
      ¬ Relation.TransGen (Leads expand) w w) : Settles expand v := by
  obtain ⟨rank, falls⟩ := exists_rank finite acyclic
  have bounded (n : ℕ) : ∀ u, rank u < n → Relation.ReflTransGen (Leads expand) v u →
      Settles expand u := by
    induction n with
    | zero => exact fun u low => absurd low (Nat.not_lt_zero _)
    | succ n ih =>
      intro u low reach
      cases expands : expand u with
      | none => exact fun rest => .inl ⟨false, .of_halt (explore_fails expands)⟩
      | some succs =>
        apply Settles.of_succs expands
        rintro pre w post rfl clear
        have leads : Leads expand u w := ⟨pre, post, expands, clear⟩
        cases further : expand w with
        | none => exact fun rest => .inl ⟨false, .of_halt (explore_fails further)⟩
        | some _ =>
          have := falls u w reach leads (by rw [further]; rfl)
          exact ih w (by omega) (reach.tail leads)
  exact bounded _ v (Nat.lt_succ_self _) .refl

/-- The exploration from a vertex ends exactly when no chain from it comes back to itself. -/
theorem terminates_explore_iff (finite : {u | (expand u).isSome}.Finite) :
    Terminates (explore expand) [v] ↔
      ∀ w, Relation.ReflTransGen (Leads expand) v w → ¬ Relation.TransGen (Leads expand) w w := by
  constructor
  · intro ends w reach cycle
    exact not_terminates_of_cycle reach cycle ends
  · intro acyclic
    exact (settles_of_acyclic finite acyclic).terminates

end Hdf.DepthFirst
