import Hdf.HcGen.CopyMeasure
import Mathlib.Data.Finset.Card

/-!
# What an expansion cannot enlarge

Copies take their names, types and paths from the originals. As siblings differ
in name and type, the child lists of all states of an expansion have a common
bound. The paths that nodes refer by form a finite set as well.

## Main results

* `exists_narrow`: a bound on child lists and arrays that holds throughout
* `exists_paths`: a finite set of paths that holds throughout
-/

namespace Hdf.HcGen

open Transition
open Hdf.Tree hiding node leaf

/-- All values of `enum ObjectType`. -/
def ObjectType.all : List ObjectType :=
  [.int .uint8, .int .uint16, .int .uint32, .int .uint64, .string, .confNode, .confTerm, .array,
    .nodeRef, .delete]

theorem ObjectType.mem_all (t : ObjectType) : t ∈ ObjectType.all := by
  cases t with
  | int type => cases type <;> decide
  | _ => decide

/-- The number of elements of an array. -/
def Value.size : Value → ℕ
  | array _ _ elements => elements.length
  | _ => 0

/-- The number of elements of an object's own value. -/
def Label.size : Label → ℕ
  | .inl _ => 0
  | .inr leaf => leaf.getValue.size

theorem copyFrom_size {value copied : Value} {src : AstObject}
    (h : value.copyFrom src = some copied) : copied.size = 0 := by
  cases value with
  | datum d => cases d <;> cases h <;> rfl
  | nodeRef path | delete => cases h; rfl
  | array arrayType arraySize elements =>
    rw [Value.copyFrom] at h
    split at h
    · cases h; rfl
    · cases h

theorem labelClosed_size (width fresh : ℕ) : LabelClosed fresh fun l => l.size ≤ width where
  build l h := by
    rcases l with node | leaf
    · exact h
    · cases leaf <;> exact h
  value _ h := h
  element _ _ _ _ _ _ := Nat.zero_le _
  noref _ _ h := h
  inherit _ _ _ _ h := h
  refNode _ leaf h := by cases leaf <;> exact h
  payload leaf _ copied copies _ := by
    have none := copyFrom_size copies
    cases leaf <;> exact none.le.trans (Nat.zero_le _)

theorem labelClosed_name {names : List Bytes} (empty : [] ∈ names) (fresh : ℕ) :
    LabelClosed fresh fun l => Label.name l ∈ names where
  build l h := by rwa [steadyKey_name.build]
  value _ _ := empty
  element _ _ _ _ _ _ := empty
  noref _ _ h := h
  inherit _ _ _ _ h := h
  refNode uid leaf h := by rwa [steadyKey_name.refNode]
  payload _ _ _ copies h := by rwa [steadyKey_name.payload _ _ _ copies]

/-- The path by which a node refers to another one. -/
def Label.path : Label → Bytes
  | .inl node => node.refNodePath
  | .inr _ => []

theorem labelClosed_path {paths : List Bytes} (empty : [] ∈ paths) (fresh : ℕ) :
    LabelClosed fresh fun l => Label.path l ∈ paths where
  build l h := by
    rcases l with node | leaf
    · exact h
    · cases leaf <;> exact empty
  value _ _ := empty
  element _ _ _ _ _ _ := empty
  noref _ _ h := h
  inherit _ _ _ _ h := h
  refNode _ _ _ := empty
  payload _ _ _ _ _ := empty

section

variable {ast : Ast} {fresh : ℕ}

/-- Siblings with names from a finite list are few. -/
theorem narrow_of_names {root : AstObject} {names : List Bytes} {width : ℕ}
    (distinct : DistinctSiblings Label.key root)
    (named : AllLabels (fun l => Label.name l ∈ names) root)
    (sized : AllLabels (fun l => l.size ≤ width) root) :
    Narrow ((names.product ObjectType.all).length + 1 + width) root := by
  intro p u there
  cases u with
  | leaf leaf =>
    have bound := sized p _ (label?_of_get? there)
    cases leaf with
    | term term =>
      simp only [allChildren, List.length_singleton]
      omega
    | value value =>
      cases value with
      | array arrayType arraySize elements =>
        have bound : elements.length ≤ width := bound
        simp only [allChildren, List.length_map]
        omega
      | datum d | nodeRef path | delete => simp [allChildren]
  | node node children =>
    have nodup := distinct p _ there
    have inside : (childKeys Label.key (Tree.node node children)).toFinset ⊆
        (names.product ObjectType.all).toFinset := by
      intro key member
      obtain ⟨c, child, rfl⟩ := List.mem_map.mp (List.mem_toFinset.mp member)
      obtain ⟨i, hi⟩ := List.mem_iff_getElem?.mp child
      have label : root.label? (i :: p) = some c.label :=
        label?_of_get? (by rw [get?_child there]; exact hi)
      exact List.mem_toFinset.mpr
        (List.pair_mem_product.mpr ⟨named _ _ label, ObjectType.mem_all _⟩)
    have few := (Finset.card_le_card inside).trans (List.toFinset_card_le _)
    rw [List.toFinset_card_of_nodup nodup, childKeys, List.length_map] at few
    exact few.trans (by omega)

/-- A bound on child lists and arrays that holds throughout an expansion. -/
theorem exists_narrow (merged : ast.Merged) :
    ∃ bound, ∀ s, ast.Reaches fresh s → Narrow bound s.root := by
  cases there : ast.astRoot with
  | none =>
    refine ⟨0, fun s reached => ?_⟩
    obtain ⟨root, start, _⟩ := reached
    cases there.symm.trans (Ast.expand_root start)
  | some root =>
    have sized : AllLabels (fun l => l.size ≤ weigh Label.size root) root := fun p l label =>
      List.single_le_sum (by simp) _ (List.mem_map_of_mem (mem_labels_iff.mpr ⟨p, label⟩))
    have named : AllLabels (fun l => Label.name l ∈ [] :: root.labels.map Label.name) root :=
      fun p l label => List.mem_cons_of_mem _
        (List.mem_map_of_mem (mem_labels_iff.mpr ⟨p, label⟩))
    refine ⟨(([] :: root.labels.map Label.name).product ObjectType.all).length + 1 +
      weigh Label.size root, fun s reached => ?_⟩
    have named' : AllLabels (fun l => Label.name l ∈ [] :: root.labels.map Label.name) s.root := by
      refine .of_reaches (labelClosed_name List.mem_cons_self) merged (fun root' same => ?_) reached
      cases there.symm.trans same
      exact named
    have sized' : AllLabels (fun l => l.size ≤ weigh Label.size root) s.root := by
      refine .of_reaches (labelClosed_size _) merged (fun root' same => ?_) reached
      cases there.symm.trans same
      exact sized
    exact narrow_of_names (distinctKeys_of_reaches merged reached) named' sized'

/-- The paths that nodes refer by come from a finite set throughout an expansion. -/
theorem exists_paths (merged : ast.Merged) :
    ∃ paths : List Bytes, ∀ s, ast.Reaches fresh s →
      AllLabels (fun l => Label.path l ∈ paths) s.root := by
  refine ⟨[] :: (ast.astRoot.elim [] fun root => root.labels.map Label.path), fun s reached =>
    .of_reaches (labelClosed_path List.mem_cons_self) merged ?_ reached⟩
  intro root there p l label
  rw [there]
  exact List.mem_cons_of_mem _ (List.mem_map_of_mem (mem_labels_iff.mpr ⟨p, label⟩))

end

end Hdf.HcGen
