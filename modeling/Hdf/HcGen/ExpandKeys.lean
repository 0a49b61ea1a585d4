import Hdf.HcGen.ExpandEdits

/-!
# Siblings stay apart while a tree is expanded

`Copy` appends a child only where it has found none of that name and type, so
siblings that differ in name or type stay so. Other keys of siblings, such as
the name alone, stay different only as long as every appended child brings a new
one.

## Main results

* `distinct_preserved`: a step keeps siblings apart if what it appends is new
* `distinctKeys_of_reaches`: siblings differ in name or type in every state
-/

namespace Hdf.HcGen

open Transition
open Hdf.Tree hiding node leaf

/-- A key that copying and the changes of fields keep. -/
structure SteadyKey {κ : Type*} (key : Label → κ) : Prop where
  build : ∀ fresh l, key (buildLabel fresh l) = key l
  noref : ∀ node : ConfigNode, key (.inl { node with nodeType := .noref }) = key (.inl node)
  inherit : ∀ (node : ConfigNode) index count classes, key (.inl {
    node with inheritIndex := index, inheritCount := count, subClasses := classes }) =
    key (.inl node)
  refNode : ∀ uid (leaf : Leaf), key (.inr (leaf.setRefNode uid)) = key (.inr leaf)
  payload : ∀ (leaf : Leaf) src copied, leaf.getValue.copyFrom src = some copied →
    key (.inr (leaf.setValue copied)) = key (.inr leaf)

theorem copyFrom_type {value copied : Value} {src : AstObject}
    (h : value.copyFrom src = some copied) : copied.type = value.type := by
  cases value with
  | datum d => cases d <;> cases h <;> rfl
  | nodeRef path | delete => cases h; rfl
  | array arrayType arraySize elements =>
    rw [Value.copyFrom] at h
    split at h
    · cases h; rfl
    · cases h

theorem steadyKey_key : SteadyKey Label.key where
  build _ l := by
    rcases l with node | leaf
    · rfl
    · cases leaf <;> rfl
  noref _ := rfl
  inherit _ _ _ _ := rfl
  refNode _ leaf := by cases leaf <;> rfl
  payload leaf _ copied copies := by
    have same := copyFrom_type copies
    cases leaf with
    | term term => rfl
    | value value => exact congrArg (Prod.mk []) same

theorem steadyKey_name : SteadyKey Label.name where
  build _ l := congrArg Prod.fst (steadyKey_key.build _ l)
  noref _ := rfl
  inherit _ _ _ _ := rfl
  refNode _ leaf := by cases leaf <;> rfl
  payload _ _ _ copies := congrArg Prod.fst (steadyKey_key.payload _ _ _ copies)

section

variable {κ : Type*} {key : Label → κ} {root child : AstObject} {s t : State} {p : Pos}

theorem distinctSiblings_build (steady : SteadyKey key) {object : AstObject} (fresh : ℕ)
    (h : DistinctSiblings key object) : DistinctSiblings key (build fresh object) := by
  intro p u there
  rw [get?_build] at there
  obtain ⟨original, inside, rfl⟩ := Option.map_eq_some_iff.mp there
  have same : childKeys key (build fresh original) = childKeys key original := by
    simp [childKeys, steady.build]
  rw [same]
  exact h p original inside

/-- What `Copy` looks at has different siblings when the tree has. -/
theorem distinctSiblings_source (h : DistinctSiblings key s.root) {job : Job} {hasNext : Bool}
    {frame : CopyFrame} {frames : List CopyFrame}
    (copying : Copying s job hasNext frame frames child) : DistinctSiblings key child := by
  rcases copying.source with inTree | ⟨v, rfl⟩
  · exact h.subtree inTree
  · exact distinctSiblings_leaf _

private theorem distinct_updateNode {f : ConfigNode → ConfigNode} (h : DistinctSiblings key root)
    (there : IsNode root p) (same : ∀ node, key (.inl (f node)) = key (.inl node)) :
    DistinctSiblings key (updateNode root p f) := by
  obtain ⟨node, children, there⟩ := there.get?
  exact h.relabelAt there (same node)

private theorem distinct_updateLeaf {leaf : Leaf} {f : Leaf → Leaf}
    (h : DistinctSiblings key root) (there : root.get? p = some (.leaf leaf))
    (same : key (.inr (f leaf)) = key (.inr leaf)) :
    DistinctSiblings key (updateLeaf root p f) := h.relabelAt there same

theorem Edit.distinctSiblings {root' : AstObject} (edit : Edit root root')
    (steady : SteadyKey key) (h : DistinctSiblings key root) : DistinctSiblings key root' := by
  cases edit with
  | erase there => exact h.eraseAt there
  | noref there => exact distinct_updateNode h (isNode_of_get? there) steady.noref
  | inherit there fields =>
    refine distinct_updateNode h there fun node => ?_
    obtain ⟨_, _, _, same⟩ := fields node
    rw [same]
    exact steady.inherit node _ _ _
  | refNode there => exact distinct_updateLeaf h there (steady.refNode _ _)
  | payload there copies => exact distinct_updateLeaf h there (steady.payload _ _ _ copies)

/-- A step keeps siblings apart when the key of an appended child is new. -/
theorem distinct_preserved (steady : SteadyKey key) (coherent : Coherent s)
    (h : DistinctSiblings key s.root)
    (new : ∀ job dst child, Appends s job dst child →
      key child.label ∉ (s.root.childrenAt dst).map fun c => key c.label)
    (goes : step s = .next t) : DistinctSiblings key t.root := by
  rcases edited coherent goes with ⟨edits, -⟩ | ⟨job, dst, child, appends, isNode, appended, -⟩
  · exact keeps_of_edits edits (fun _ _ edit h => edit.distinctSiblings steady h) h
  · obtain ⟨node, children, there⟩ := isNode.get?
    have fresh := new job dst child appends
    obtain ⟨_, frame, _, copying, -, -⟩ := appends
    rw [appended]
    refine h.appendAt there ?_ (distinctSiblings_build steady _ (distinctSiblings_source h copying))
    rw [childrenAt_of_get? there] at fresh
    rwa [label_build, steady.build]

/-- Siblings differ in name or type in every state of an expansion. -/
theorem distinctKeys_of_reaches {ast : Ast} {fresh : ℕ} (merged : ast.Merged)
    (reached : ast.Reaches fresh s) : DistinctSiblings Label.key s.root := by
  refine reached.invariant (I := fun s => DistinctSiblings Label.key s.root) merged.distinct ?_
  intro t u prior h goes
  refine distinct_preserved steadyKey_key (.of_reaches merged prior) h ?_ goes
  rintro job dst child ⟨_, _, _, _, rfl, absent⟩
  exact lookupIndex_eq_none_iff.mp absent

end

end Hdf.HcGen
