import Mathlib.Data.Fintype.Card
import Mathlib.Logic.Relation

/-!
# Walking a list that grows at its tail

A loop goes through a list once, from its head to its tail, and what it does at
one element may append further elements, none of them twice. Over finitely many
elements the loop comes to the end of the list, and the list then holds exactly
what a chain of appended elements leads to.

## Main results

* `walk_induction`: what each round keeps holds when every element has been visited
* `mem_walk_iff`: the elements visited are those that the first ones lead to
-/

namespace Hdf.Worklist

open Relation

variable {α σ : Type*} (listed : σ → List α) (visit : α → σ → σ)

/-- The loop: at most `fuel` further elements, from a position on. -/
def walk : ℕ → ℕ → σ → σ
  | 0, _, state => state
  | fuel + 1, position, state =>
    match (listed state)[position]? with
    | none => state
    | some a => walk fuel (position + 1) (visit a state)

/-- A round keeps the list and appends, without repetition, the elements that its
element finds. -/
structure Appends (Finds : α → α → Prop) : Prop where
  extends_list : ∀ a state, listed state <+: listed (visit a state)
  nodup : ∀ a state, (listed state).Nodup → (listed (visit a state)).Nodup
  mem_iff : ∀ a state b, b ∈ listed (visit a state) ↔ b ∈ listed state ∨ Finds a b

/-- What holds between two rounds: the elements before the position have been visited. -/
structure Progress (Finds : α → α → Prop) (Origin : α → Prop) (Kept : List α → σ → Prop)
    (position : ℕ) (state : σ) : Prop where
  nodup : (listed state).Nodup
  within : position ≤ (listed state).length
  kept : Kept ((listed state).take position) state
  closed : ∀ a ∈ (listed state).take position, ∀ b, Finds a b → b ∈ listed state
  sound : ∀ a ∈ listed state, ∃ b, Origin b ∧ ReflTransGen Finds b a
  complete : ∀ a, Origin a → a ∈ listed state

variable {listed visit} {Finds : α → α → Prop} {Origin : α → Prop} {Kept : List α → σ → Prop}

theorem Progress.round (appends : Appends listed visit Finds)
    (keeps : ∀ visited a state, Kept visited state → Kept (visited ++ [a]) (visit a state))
    {position : ℕ} {state : σ} {a : α} (progress : Progress listed Finds Origin Kept position state)
    (found : (listed state)[position]? = some a) :
    Progress listed Finds Origin Kept (position + 1) (visit a state) := by
  have inside : position < (listed state).length := (List.getElem?_eq_some_iff.mp found).1
  have member : a ∈ listed state := List.mem_of_getElem? found
  obtain ⟨added, longer⟩ := appends.extends_list a state
  have visited : (listed (visit a state)).take (position + 1) =
      (listed state).take position ++ [a] := by
    rw [← longer, List.take_append_of_le_length (by omega), List.take_add_one, found]
    rfl
  refine ⟨appends.nodup a state progress.nodup, ?_, ?_, ?_, ?_, ?_⟩
  · rw [← longer, List.length_append]
    omega
  · rw [visited]
    exact keeps _ _ _ progress.kept
  · intro b before c finds
    rw [visited, List.mem_append, List.mem_singleton] at before
    rw [appends.mem_iff]
    rcases before with earlier | rfl
    · exact .inl (progress.closed b earlier c finds)
    · exact .inr finds
  · intro b listed
    rcases (appends.mem_iff a state b).mp listed with old | finds
    · exact progress.sound b old
    · obtain ⟨origin, isOrigin, chain⟩ := progress.sound a member
      exact ⟨origin, isOrigin, chain.tail finds⟩
  · intro b isOrigin
    exact (appends.mem_iff a state b).mpr (.inl (progress.complete b isOrigin))

/-- With as much fuel as elements are left, the loop ends at the end of the list. -/
theorem Progress.walk [Fintype α] (appends : Appends listed visit Finds)
    (keeps : ∀ visited a state, Kept visited state → Kept (visited ++ [a]) (visit a state))
    {fuel position : ℕ} {state : σ} (enough : Fintype.card α ≤ position + fuel)
    (progress : Progress listed Finds Origin Kept position state) :
    Progress listed Finds Origin Kept (listed (walk listed visit fuel position state)).length
      (walk listed visit fuel position state) := by
  induction fuel generalizing position state with
  | zero =>
    have short := progress.nodup.length_le_card
    have atEnd : (listed state).length = position := by have := progress.within; omega
    rwa [Worklist.walk, atEnd]
  | succ fuel ih =>
    rw [Worklist.walk]
    cases found : (listed state)[position]? with
    | none =>
      have beyond := List.getElem?_eq_none_iff.mp found
      have atEnd : (listed state).length = position := by have := progress.within; omega
      rwa [atEnd]
    | some a => exact ih (by omega) (progress.round appends keeps found)

section

variable [Fintype α] (appends : Appends listed visit Finds)

include appends

/-- What every round keeps holds at the end, when every element listed has been visited. -/
theorem walk_induction
    (keeps : ∀ visited a state, Kept visited state → Kept (visited ++ [a]) (visit a state))
    {state : σ} (nodup : (listed state).Nodup) (start : Kept [] state) :
    Kept (listed (walk listed visit (Fintype.card α) 0 state))
      (walk listed visit (Fintype.card α) 0 state) := by
  have begun : Progress listed Finds (· ∈ listed state) Kept 0 state :=
    ⟨nodup, Nat.zero_le _, start, fun _ member => absurd member List.not_mem_nil,
      fun a member => ⟨a, member, .refl⟩, fun _ member => member⟩
  have progress := begun.walk appends keeps (Nat.zero_add _).ge
  have kept := progress.kept
  rwa [List.take_length] at kept

/-- The elements visited are those that a chain of finds leads to. -/
theorem mem_walk_iff {state : σ} (nodup : (listed state).Nodup) {a : α} :
    a ∈ listed (walk listed visit (Fintype.card α) 0 state) ↔
      ∃ b ∈ listed state, ReflTransGen Finds b a := by
  have begun : Progress listed Finds (· ∈ listed state) (fun _ _ => True) 0 state :=
    ⟨nodup, Nat.zero_le _, trivial, fun _ member => absurd member List.not_mem_nil,
      fun a member => ⟨a, member, .refl⟩, fun _ member => member⟩
  have progress := begun.walk appends (fun _ _ _ _ => trivial) (Nat.zero_add _).ge
  refine ⟨progress.sound a, ?_⟩
  rintro ⟨b, member, chain⟩
  have closed := progress.closed
  rw [List.take_length] at closed
  induction chain with
  | refl => exact progress.complete b member
  | tail _ finds ih => exact closed _ ih _ finds

end

end Hdf.Worklist
