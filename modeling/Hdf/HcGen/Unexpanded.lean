import Hdf.HcGen.Evaluation
import Hdf.HcGen.ExpandPending

/-!
# Objects that an expansion leaves unexpanded

After `Ast::Expand` no node should be a copy, a reference or a deletion, and no
term should be a deletion. `NodeExpand` visits every object once, after its
children. A node copy puts its copies below a node that is being visited, so
what it copies is never visited again: it has to be expanded already. A node
reference to a term leaves the referring node in the tree. Under the condition
that neither happens nothing unexpanded survives.

## Main results

* `expanded_of_expands`: the tree is expanded when every step met the condition
* `copy_before_expansion`: a run that returns true and leaves a deletion behind
-/

namespace Hdf.HcGen

open Transition
open Hdf.Tree hiding node leaf

/-- `NodeExpand` resolves or removes objects with such a label. -/
def marked : Label → Bool
  | .inl node => node.unexpanded
  | .inr (.term term) => term.value == .delete
  | .inr (.value _) => false

/-- No node of the tree is a copy, a reference or a deletion, and no term is a
deletion. -/
def Expanded (root : AstObject) : Prop := ∀ p l, root.label? p = some l → marked l = false

/-- The number of marks of a label. -/
def marks (l : Label) : ℕ := if marked l then 1 else 0

theorem marks_eq_zero_iff {l : Label} : marks l = 0 ↔ marked l = false := by
  cases h : marked l <;> simp [marks, h]

theorem weigh_marks_eq_zero_iff {root : AstObject} : weigh marks root = 0 ↔ Expanded root := by
  simp only [weigh_eq_zero_iff, marks_eq_zero_iff, Expanded]

/-- A copied value is a deletion only if the overwritten one was. -/
theorem copyFrom_delete {value copied : Value} {src : AstObject}
    (h : value.copyFrom src = some copied) : copied = .delete ↔ value = .delete := by
  cases value with
  | datum d => cases d <;> cases h <;> simp
  | nodeRef path | delete => cases h; simp
  | array arrayType arraySize elements =>
    rw [Value.copyFrom] at h
    split at h
    · cases h; simp
    · cases h

theorem clearing_marks : Clearing marks where
  restful object rests := by
    rw [marks_eq_zero_iff]
    cases object with
    | node node children => simpa [restful, marked] using rests
    | leaf leaf =>
      cases leaf with
      | value value => rfl
      | term term =>
        cases h : term.value <;> simp_all [restful, marked]
  refNode term path uid value := by simp [Leaf.setRefNode, marks, marked, value]
  payload leaf object copied copies := by
    have same := copyFrom_delete copies
    cases leaf with
    | value value => rfl
    | term term =>
      have same : copied = .delete ↔ term.value = .delete := same
      by_cases dead : term.value = .delete
      · simp [Leaf.setValue, marks, marked, dead, same.mpr dead]
      · have alive : copied ≠ .delete := fun h => dead (same.mp h)
        simp [Leaf.setValue, marks, marked, dead, alive]
  inherit _ _ _ _ := rfl

theorem expanded_build {fresh : ℕ} {object : AstObject} :
    Expanded (build fresh object) ↔ Expanded object := by
  have same (l : Label) : marked (buildLabel fresh l) = marked l := by
    rcases l with node | leaf
    · rfl
    · cases leaf <;> rfl
  constructor
  · intro h p l there
    rw [← same]
    exact h p _ (by rw [label?_build, there]; rfl)
  · intro h p l there
    rw [label?_build] at there
    obtain ⟨l', original, rfl⟩ := Option.map_eq_some_iff.mp there
    rw [same]
    exact h p l' original

/-! ### The condition -/

/-- A node copy in this state copies nothing that is still to be expanded. -/
def CopiesExpanded (s : State) : Prop :=
  ∀ dst child, Appends s .nodeCopy dst child → Expanded child

/-- A node reference visited in this state does not refer to a term. -/
def RefersToNode (s : State) : Prop :=
  ∀ node children ref term, Visiting s (.node node children) → node.nodeType = .ref →
    Refers s node ref → s.root.get? ref ≠ some (.leaf (.term term))

/-- Neither happens in this state. -/
structure Harmless (s : State) : Prop where
  copies : CopiesExpanded s
  refers : RefersToNode s

private theorem Settled.expanded_source {s : State} (settled : Settled marks s)
    (coherent : Coherent s) {job : Job} (foreign : job ≠ .nodeCopy) {dst : Pos} {child : AstObject}
    (appends : Appends s job dst child) : Expanded child := by
  obtain ⟨hasNext, frame, frames, copying, _, _⟩ := appends
  rcases copying.source with inTree | ⟨v, rfl⟩
  · rw [← weigh_marks_eq_zero_iff]
    cases job with
    | nodeCopy => exact absurd rfl foreign
    | nodeRef => exact settled.weigh_source coherent copying inTree
    | inherit template =>
      have walk := (coherent.running _ _ _ copying.control).walk
      have parts := rightOf_add_above_le (w := marks) inTree
      rw [settled.inheritExpand walk] at parts
      omega
  · intro p l there
    rcases List.eq_nil_or_concat p with rfl | ⟨p, i, rfl⟩
    · cases there
      rfl
    · rw [List.concat_eq_append, label?_append] at there
      simp [get?_cons] at there

theorem Settled.expanded_preserved {s t : State} (settled : Settled marks s) (coherent : Coherent s)
    (harmless : Harmless s) (goes : step s = .next t) : Settled marks t := by
  refine settled.preserved clearing_marks coherent (fun job dst child appends => ?_) ?_ goes
  · rw [weigh_marks_eq_zero_iff, expanded_build]
    by_cases own : job = .nodeCopy
    · subst own
      exact harmless.copies dst child appends
    · exact settled.expanded_source coherent own appends
  · intro node children ref term visit marked reference there
    exact absurd there (harmless.refers node children ref term visit marked reference)

/-- When no step of the expansion copies an unexpanded object by a node copy or
refers a node to a term, the tree it leaves is expanded. -/
theorem expanded_of_expands {fs : FileSystem} {main : Bytes} {ast : Ast} {fresh : ℕ}
    {root : AstObject} (merged : MergedFrom fs main ast fresh)
    (expands : ast.Expands fresh (.returned true root))
    (copies : ∀ s, ast.Reaches fresh s → CopiesExpanded s)
    (refers : ∀ s, ast.Reaches fresh s → RefersToNode s) : Expanded root := by
  obtain ⟨s, reached, second, rfl⟩ := expands.last merged.merged
  have settled : Settled marks s := reached.invariant (fun _ _ => settled_start marks)
    fun t _ prior settled goes => settled.expanded_preserved
      (.of_reaches merged.merged prior) ⟨copies t prior, refers t prior⟩ goes
  exact weigh_marks_eq_zero_iff.mp (settled.inheritExpand second)

/-! ### Examples -/

/-- Decides `CopiesExpanded`. -/
def copiesExpanded (s : State) : Bool :=
  match appending s with
  | some (.nodeCopy, _, child) => weigh marks child == 0
  | _ => true

theorem copiesExpanded_sound {s : State} (h : copiesExpanded s = true) : CopiesExpanded s := by
  intro dst child appends
  rw [copiesExpanded, appends.appending] at h
  exact weigh_marks_eq_zero_iff.mp (by simpa using h)

/-- Decides `RefersToNode`. -/
def refersToNode (s : State) : Bool :=
  match s.root.get? s.current with
  | some (.node node _) =>
    match (lookup s.root s.current node.refNodePath).bind s.root.get? with
    | some (.leaf (.term _)) => node.nodeType != .ref
    | _ => true
  | _ => true

theorem refersToNode_sound {s : State} (h : refersToNode s = true) : RefersToNode s := by
  intro node children ref term visit marked refers there
  rw [refersToNode, visit.there] at h
  simp [refers.found, there, marked] at h

theorem harmless_sound {s : State} (h : (copiesExpanded s && refersToNode s) = true) :
    Harmless s := by
  rw [Bool.and_eq_true] at h
  exact ⟨copiesExpanded_sound h.1, refersToNode_sound h.2⟩

/-- A copy is taken of a node that comes later and still has a deletion. -/
def copyBeforeDeletion : FileSystem :=
  .single (ascii "a.hcs")
    (ascii "root \x7b module = \"m\"; a : b \x7b \x7d b \x7b x = delete; \x7d \x7d")

/-- A copy, a reference and a deletion, in an order that works. -/
def copyAfterDeletion : FileSystem :=
  .single (ascii "a.hcs") (ascii
    "root \x7b module = \"m\"; b \x7b x = delete; y = 1; \x7d a : b \x7b \x7d n : &a \x7b y = 2; \x7d \x7d")

private theorem deletions_evaluated :
    expansionPasses copyBeforeDeletion (ascii "a.hcs") (fun _ => true)
        (fun root => (root.label? [0, 1]).any marked) 40 = true ∧
      expansionPasses copyAfterDeletion (ascii "a.hcs")
        (fun s => copiesExpanded s && refersToNode s) (fun _ => true) 60 = true := by
  rw [copyBeforeDeletion, copyAfterDeletion]
  iterate 3 rw [ascii_ofList]
  decide +kernel

theorem copy_before_expansion :
    ∃ ast fresh root, MergedFrom copyBeforeDeletion (ascii "a.hcs") ast fresh ∧
      ast.Expands fresh (.returned true root) ∧ ¬ Expanded root := by
  obtain ⟨ast, fresh, root, merged, expands, -, survives⟩ :=
    exists_expansion deletions_evaluated.1
  refine ⟨ast, fresh, root, merged, expands, fun expanded => ?_⟩
  obtain ⟨l, there, isMarked⟩ := (Option.any_eq_true _ _).mp survives
  exact Bool.false_ne_true ((expanded _ l there).symm.trans isMarked)

theorem expanded_of_expands_copyAfterDeletion :
    ∃ ast fresh root, MergedFrom copyAfterDeletion (ascii "a.hcs") ast fresh ∧
      ast.Expands fresh (.returned true root) ∧ Expanded root := by
  obtain ⟨ast, fresh, root, merged, expands, tests, -⟩ := exists_expansion deletions_evaluated.2
  exact ⟨ast, fresh, root, merged, expands, expanded_of_expands merged expands
    (fun s reached => (harmless_sound (tests s reached)).copies)
    fun s reached => (harmless_sound (tests s reached)).refers⟩

end Hdf.HcGen
