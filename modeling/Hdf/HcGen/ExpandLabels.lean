import Hdf.HcGen.ExpandEdits

/-!
# Properties of labels that an expansion keeps

An expansion makes new objects only by copying old ones, and changes an object
only in a few fields. So a property of single objects that these changes keep
holds of all objects in every state when it holds of all objects of the AST.

## Main results

* `AllLabels.preserved`, `AllLabels.of_reaches`
-/

namespace Hdf.HcGen

open Transition
open Hdf.Tree hiding node leaf

/-- The changes that an expansion makes to objects keep the property, when new
objects get addresses from `fresh` on. -/
structure LabelClosed (fresh : ℕ) (Q : Label → Prop) : Prop where
  build : ∀ l, Q l → Q (buildLabel fresh l)
  value : ∀ leaf : Leaf, Q (.inr leaf) → Q (.inr (.value leaf.getValue))
  element : ∀ arrayType arraySize elements e, e ∈ elements →
    Q (.inr (.value (.array arrayType arraySize elements))) → Q (.inr (.value (.datum e)))
  noref : ∀ node : ConfigNode, node.nodeType = .copy → Q (.inl node) →
    Q (.inl { node with nodeType := .noref })
  inherit : ∀ (node : ConfigNode) index count classes, Q (.inl node) → Q (.inl {
    node with inheritIndex := index, inheritCount := count, subClasses := classes })
  refNode : ∀ uid (leaf : Leaf), Q (.inr leaf) → Q (.inr (leaf.setRefNode uid))
  payload : ∀ (leaf : Leaf) src copied, leaf.getValue.copyFrom src = some copied →
    Q (.inr leaf) → Q (.inr (leaf.setValue copied))

/-- Every object of the tree has the property. -/
def AllLabels (Q : Label → Prop) (root : AstObject) : Prop :=
  ∀ p l, root.label? p = some l → Q l

section

variable {Q : Label → Prop} {root child : AstObject} {s t : State} {p : Pos}

theorem AllLabels.eraseAt (h : AllLabels Q root) (p : Pos) : AllLabels Q (root.eraseAt p) := by
  intro q l there
  obtain ⟨q', before⟩ := exists_label?_of_eraseAt there
  exact h q' l before

theorem AllLabels.updateLeaf {f : Leaf → Leaf} (h : AllLabels Q root)
    (keeps : ∀ leaf, root.label? p = some (.inr leaf) → Q (.inr leaf) → Q (.inr (f leaf))) :
    AllLabels Q (updateLeaf root p f) := by
  intro q l there
  by_cases same : q = p
  · subst same
    rw [HcGen.updateLeaf, label?_relabelAt_self] at there
    obtain ⟨l', before, rfl⟩ := Option.map_eq_some_iff.mp there
    rcases l' with node | leaf
    · exact h q _ before
    · exact keeps leaf before (h q _ before)
  · rw [HcGen.updateLeaf, label?_relabelAt_of_ne same] at there
    exact h q l there

theorem AllLabels.updateNode {f : ConfigNode → ConfigNode} (h : AllLabels Q root)
    (keeps : ∀ node, root.label? p = some (.inl node) → Q (.inl node) → Q (.inl (f node))) :
    AllLabels Q (updateNode root p f) := by
  intro q l there
  by_cases same : q = p
  · subst same
    rw [HcGen.updateNode, label?_relabelAt_self] at there
    obtain ⟨l', before, rfl⟩ := Option.map_eq_some_iff.mp there
    rcases l' with node | leaf
    · exact keeps node before (h q _ before)
    · exact h q _ before
  · rw [HcGen.updateNode, label?_relabelAt_of_ne same] at there
    exact h q l there

theorem AllLabels.appendAt (h : AllLabels Q root) (there : IsNode root p)
    (new : AllLabels Q child) : AllLabels Q (root.appendAt p child) := by
  obtain ⟨node, children, there⟩ := there.get?
  intro q l now
  rcases label?_appendAt_cases there now with before | ⟨r, rfl, inside⟩
  · exact h q l before
  · exact new r l inside

theorem AllLabels.subtree (h : AllLabels Q root) (there : root.get? p = some child) :
    AllLabels Q child := by
  intro q l inside
  exact h (q ++ p) l (by rw [label?_append, there]; exact inside)

theorem allLabels_leaf {leaf : Leaf} : AllLabels Q (.leaf leaf) ↔ Q (.inr leaf) := by
  constructor
  · intro h
    exact h [] _ rfl
  · intro h q l there
    rcases List.eq_nil_or_concat q with rfl | ⟨q, i, rfl⟩
    · cases there
      exact h
    · rw [List.concat_eq_append, label?_append] at there
      simp [get?_cons] at there

theorem AllLabels.build {fresh : ℕ} (closed : LabelClosed fresh Q) (h : AllLabels Q child) :
    AllLabels Q (build fresh child) := by
  intro q l there
  rw [label?_build] at there
  obtain ⟨l', original, rfl⟩ := Option.map_eq_some_iff.mp there
  exact closed.build l' (h q l' original)

/-- What `Copy` looks at has the property when the tree has it. -/
theorem AllLabels.source {fresh : ℕ} (closed : LabelClosed fresh Q) (h : AllLabels Q s.root)
    {job : Job}
    {hasNext : Bool} {frame : CopyFrame} {frames : List CopyFrame}
    (copying : Copying s job hasNext frame frames child) : AllLabels Q child := by
  obtain ⟨src, there, next⟩ := Option.bind_eq_some_iff.mp copying.child
  have source := h.subtree there
  have member := List.mem_of_getElem? next
  cases src with
  | node node children =>
    obtain ⟨i, hi⟩ := List.mem_iff_getElem?.mp member
    exact source.subtree (p := [i]) (by rw [get?_cons]; exact hi)
  | leaf leaf =>
    rw [allLabels_leaf] at source
    cases leaf with
    | term term =>
      obtain rfl : child = .leaf (.value term.value) := by simpa [allChildren] using member
      exact allLabels_leaf.mpr (closed.value _ source)
    | value value =>
      cases value with
      | array arrayType arraySize elements =>
        obtain ⟨e, inside, rfl⟩ := List.mem_map.mp member
        exact allLabels_leaf.mpr (closed.element _ _ _ _ inside source)
      | datum d | nodeRef path | delete => cases member

theorem Edit.allLabels {fresh : ℕ} {root' : AstObject} (edit : Edit root root')
    (closed : LabelClosed fresh Q) (h : AllLabels Q root) : AllLabels Q root' := by
  cases edit with
  | @erase p => exact h.eraseAt p
  | noref there marked =>
    refine h.updateNode fun node label => closed.noref node ?_
    cases (label?_of_get? there).symm.trans label
    exact marked
  | inherit _ fields =>
    refine h.updateNode fun node _ holds => ?_
    obtain ⟨_, _, _, same⟩ := fields node
    rw [same]
    exact closed.inherit node _ _ _ holds
  | refNode _ uid => exact h.updateLeaf fun leaf _ => closed.refNode uid leaf
  | payload there copies =>
    refine h.updateLeaf fun leaf label => ?_
    cases (label?_of_get? there).symm.trans label
    exact closed.payload _ _ _ copies

/-- No round of an expansion breaks a closed property of labels. -/
theorem AllLabels.preserved (closed : LabelClosed s.fresh Q) (coherent : Coherent s)
    (h : AllLabels Q s.root) (goes : step s = .next t) : AllLabels Q t.root := by
  rcases edited coherent goes with ⟨edits, -⟩ |
    ⟨_, _, _, ⟨_, _, _, copying, -, -⟩, isNode, appended, -⟩
  · exact keeps_of_edits edits (fun _ _ edit h => edit.allLabels closed h) h
  · rw [appended]
    exact h.appendAt isNode ((h.source closed copying).build closed)

theorem AllLabels.of_reaches {ast : Ast} {fresh : ℕ} (closed : ∀ n, LabelClosed n Q)
    (merged : ast.Merged)
    (first : ∀ root, ast.astRoot = some root → AllLabels Q root)
    (reached : ast.Reaches fresh s) : AllLabels Q s.root :=
  reached.invariant (I := fun s => AllLabels Q s.root) first
    fun _ _ prior h goes => h.preserved (closed _) (.of_reaches merged prior) goes

end

end Hdf.HcGen
