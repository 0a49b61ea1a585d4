import Hdf.HcGen.Termination

/-!
# Conformance to templates

A node that inherits should have no member that its template lacks.
`ConfigNode::Compare` is to check that, but it looks every child up in the node
itself, where it finds it. The `Copy` before it keeps what is there and cannot
fail either. So a call of `InheritExpand` accepts every node.

## Main results

* `compare_eq_true`: the comparison always succeeds
* `accepts_of_inherits`, `not_rejects`: every call accepts
* `checksTemplate_iff`: a call does what it should when there is nothing to reject
-/

namespace Hdf.HcGen

open Transition
open Hdf.Tree hiding node leaf

/-- An object has a member of given names and types at the end of a path of such members. -/
def hasPath : List (Bytes × ObjectType) → AstObject → Bool
  | [], _ => true
  | key :: path, object =>
    object.children.any fun child => childKey child == key && hasPath path child

/-- Every member of an object, at every level, is a member of the template, too. -/
def Conforms (object template : AstObject) : Prop :=
  ∀ path, hasPath path object = true → hasPath path template = true

/-- `InheritExpand` is about to be called on `node`, and its template is the node at `ref`. -/
structure Inherits (s : State) (node : ConfigNode) (children : List AstObject) (ref : Pos)
    (templateNode : ConfigNode) (members : List AstObject) : Prop where
  enter : Entering s (.node node children)
  marked : node.nodeType = .inherit
  found : lookup s.root s.current node.refNodePath = some ref
  template : s.root.get? ref = some (.node templateNode members)

/-- The call of `InheritExpand` that starts in a state returns true: its `Copy` ends, and the walk
goes on. -/
def Accepts (s : State) (ref : Pos) : Prop :=
  ∃ u t, Steps step s u ∧ u.current = s.current ∧ u.control = .copy (.inherit ref) false [] ∧
    step u = .next t

/-- The call of `InheritExpand` that starts in a state returns false. -/
def Rejects (s : State) (ref : Pos) : Prop :=
  ∃ u frames root, Steps step s u ∧ u.current = s.current ∧
    u.control = .copy (.inherit ref) false frames ∧ step u = .halt (.returned false root)

/-- The call of `InheritExpand` that starts in a state accepts a node that conforms to its template,
and rejects any other. -/
def ChecksTemplate (s : State) (ref : Pos) (object template : AstObject) : Prop :=
  (Accepts s ref → Conforms object template) ∧ (¬ Conforms object template → Rejects s ref)

/-! ### The comparison -/

theorem lookupIndex_isSome {children : List AstObject} {child : AstObject}
    (member : child ∈ children) :
    (lookupIndex children (name child) (some (type child))).isSome = true := by
  rw [Option.isSome_iff_ne_none, Ne, lookupIndex_eq_none_iff, not_not]
  exact List.mem_map_of_mem member

theorem compareChildren_eq_true {all rest : List AstObject} (within : ∀ c ∈ rest, c ∈ all)
    (each : ∀ c ∈ rest, compare c = true) : compareChildren all rest = true := by
  induction rest with
  | nil => rfl
  | cons child rest ih =>
    have found := lookupIndex_isSome (within child List.mem_cons_self)
    cases child with
    | leaf leaf =>
      rw [compareChildren, found, Bool.true_and]
      exact ih (fun c member => within c (List.mem_cons_of_mem _ member))
        fun c member => each c (List.mem_cons_of_mem _ member)
    | node node children =>
      rw [compareChildren, each _ List.mem_cons_self, Bool.and_true]
      exact found

/-- Every child is found in its own parent. -/
theorem compare_eq_true (object : AstObject) : compare object = true := by
  induction object using Tree.induct with
  | leaf leaf => rfl
  | node node children ih =>
    rw [compare]
    exact compareChildren_eq_true (fun _ member => member) ih

/-! ### The calls -/

variable {s t u : State} {ast : Ast} {fresh bound : ℕ} {ref : Pos} {frame : CopyFrame}
  {frames : List CopyFrame}

theorem leave_ne_false {removed hasNext : Bool} {root : AstObject} :
    leave s removed hasNext ≠ .halt (.returned false root) := by
  rw [leave]
  split
  · split
    · nofun
    · rintro ⟨⟩
  · split <;> nofun

theorem forward_ne_false {root : AstObject} : forward s ≠ .halt (.returned false root) := by
  rw [forward]
  split
  · nofun
  · split
    · exact leave_ne_false
    · nofun

/-- No round of a call that inherits makes the expansion fail. -/
theorem step_ne_false {root : AstObject} (control : s.control = .copy (.inherit ref) false frames) :
    step s ≠ .halt (.returned false root) := by
  rw [step, control]
  dsimp only
  cases frames with
  | nil =>
    rw [copyStep, finishJob]
    split
    · rw [if_pos (compare_eq_true _)]
      exact forward_ne_false
    · simp
  | cons frame frames =>
    rw [copyStep]
    split
    · simp
    split
    · simp
    dsimp only
    split
    · simp
    split
    · simp
    · rw [copyLeaf, if_pos (by rfl)]
      simp

theorem not_rejects : ¬ Rejects s ref := by
  rintro ⟨u, frames, root, -, -, control, halts⟩
  exact step_ne_false control halts

/-- A call that inherits, on its way. -/
structure Inheriting (ast : Ast) (fresh bound : ℕ) (s : State) (ref : Pos) (u : State)
    (frames : List CopyFrame) : Prop where
  reached : ast.Reaches fresh u
  steps : Steps step s u
  current : u.current = s.current
  control : u.control = .copy (.inherit ref) false frames
  chained : Chained bound u.root frames
  sources : ∀ frame ∈ frames, IsNode u.root frame.src
  template : IsNode u.root ref

/-- A round goes on within the call. -/
theorem Inheriting.next (call : Inheriting ast fresh bound s ref u (frame :: frames)) :
    ∃ t frames', step u = .next t ∧ t.control = .copy (.inherit ref) false frames' := by
  obtain ⟨node, children, source⟩ := (call.sources frame List.mem_cons_self).get?
  rw [step, call.control]
  dsimp only
  rw [copyStep, source]
  dsimp only
  split
  · exact ⟨_, _, rfl, rfl⟩
  split
  · exact ⟨_, _, rfl, rfl⟩
  split
  · exact ⟨_, _, rfl, rfl⟩
  · rw [copyLeaf, if_pos (by rfl)]
    exact ⟨_, _, rfl, rfl⟩

theorem IsNode.appendAt {root child : AstObject} {p q : Pos} (there : IsNode root p)
    (node : IsNode root q) : IsNode (root.appendAt p child) q := by
  obtain ⟨_, _, there⟩ := there.get?
  obtain ⟨node, label⟩ := node
  exact ⟨node, label?_appendAt_of_some there label⟩

/-- A round keeps the call going and lowers its measure. -/
theorem Inheriting.round (merged : ast.Merged)
    (narrow : ∀ s, ast.Reaches fresh s → Narrow bound s.root)
    (call : Inheriting ast fresh bound s ref u (frame :: frames)) :
    ∃ t frames', Inheriting ast fresh bound s ref t frames' ∧
      copyCost bound t.root frames' < copyCost bound u.root (frame :: frames) := by
  obtain ⟨t, frames', goes, control'⟩ := call.next
  have coherent := Coherent.of_reaches merged call.reached
  obtain ⟨chained, less⟩ := copyCost_step coherent (distinctKeys_of_reaches merged call.reached)
    (narrow u call.reached) call.chained call.control control' goes
  have later : u.current = t.current ∧ (∀ frame ∈ frames', IsNode t.root frame.src) ∧
      IsNode t.root ref := by
    have rest (f : CopyFrame) (member : f ∈ frames) : IsNode u.root f.src :=
      call.sources f (List.mem_cons_of_mem _ member)
    have first := call.sources frame List.mem_cons_self
    cases copyRound call.control control' goes with
    | popped =>
      cases control'
      exact ⟨rfl, rest, call.template⟩
    | appended copying absent =>
      cases control'
      have there := (coherent.running _ _ _ call.control).node frame List.mem_cons_self
      exact ⟨rfl, List.forall_mem_cons.mpr
        ⟨there.appendAt first, fun f member => there.appendAt (rest f member)⟩,
        there.appendAt call.template⟩
    | pushed copying present =>
      cases control'
      have inTree := copying.source.resolve_right (by rintro ⟨_, h⟩; cases h)
      exact ⟨rfl, List.forall_mem_cons.mpr
        ⟨isNode_of_get? inTree, List.forall_mem_cons.mpr ⟨first, rest⟩⟩, call.template⟩
    | skipped copying =>
      cases control'
      exact ⟨rfl, List.forall_mem_cons.mpr ⟨first, rest⟩, call.template⟩
    | overwritten copying overwrites writes => cases writes
  exact ⟨t, frames', ⟨call.reached.next goes, call.steps.tail goes,
    later.1.symm.trans call.current, control', chained, later.2.1, later.2.2⟩, less⟩

theorem Inheriting.ends (merged : ast.Merged)
    (narrow : ∀ s, ast.Reaches fresh s → Narrow bound s.root)
    (call : Inheriting ast fresh bound s ref u frames) :
    ∃ t, Inheriting ast fresh bound s ref t [] := by
  generalize cost : copyCost bound u.root frames = m
  induction m using Nat.strong_induction_on generalizing u frames with
  | _ m ih =>
    cases frames with
    | nil => exact ⟨u, call⟩
    | cons frame frames =>
      obtain ⟨t, frames', call', less⟩ := call.round merged narrow
      exact ih _ (cost ▸ less) call' rfl

/-- The walk goes on from an object that is not the root. -/
theorem forward_goes {object : AstObject} (there : s.root.get? s.current = some object)
    (inner : s.current ≠ []) : ∃ t, forward s = .next t := by
  rw [forward, there]
  dsimp only
  split
  · rw [leave]
    split
    · rename_i top
      exact absurd top inner
    · split <;> exact ⟨_, rfl⟩
  · exact ⟨_, rfl⟩

theorem Inheriting.accepted (merged : ast.Merged) (call : Inheriting ast fresh bound s ref u []) :
    ∃ t, step u = .next t := by
  have coherent := Coherent.of_reaches merged call.reached
  obtain ⟨served, label, inherits⟩ := (coherent.running _ _ _ call.control).serves
  have inner := coherent.current_ne_nil label (by rw [show _ = _ from inherits]; decide)
  obtain ⟨children, there⟩ := get?_of_label?_inl label
  obtain ⟨templateNode, members, template⟩ := call.template.get?
  rw [step, call.control]
  dsimp only
  rw [copyStep, finishJob, there, template]
  dsimp only
  rw [if_pos (compare_eq_true _)]
  obtain ⟨node, children', still⟩ :=
    (isNode_updateNode (isNode_updateNode (isNode_of_get? there))).get?
  exact forward_goes still inner

/-- Every call of `InheritExpand` whose template is a node accepts. -/
theorem accepts_of_inherits (merged : ast.Merged) (reached : ast.Reaches fresh s)
    {node templateNode : ConfigNode} {children members : List AstObject}
    (inherits : Inherits s node children ref templateNode members) : Accepts s ref := by
  obtain ⟨enter, marked, found, template⟩ := inherits
  obtain ⟨bound, narrow⟩ : ∃ bound, ∀ s, ast.Reaches fresh s → Narrow bound s.root :=
    exists_narrow merged
  have goes : step s =
      .next { s with control := .copy (.inherit ref) false [⟨s.current, ref, 0⟩] } := by
    rw [step, enter.control, enter.walk]
    dsimp only
    rw [walkForward, enter.there]
    dsimp only
    rw [if_neg (by rw [enter.first]; decide), inheritExpandVisit,
      if_neg (not_not.mpr marked), found, ← enter.walk]
  have call : Inheriting ast fresh bound s ref _ _ :=
    ⟨reached.next goes, .single goes, rfl, rfl, chained_start goes enter.control rfl,
      List.forall_mem_singleton.mpr (isNode_of_get? template), isNode_of_get? template⟩
  obtain ⟨u, done⟩ := call.ends merged narrow
  obtain ⟨t, goes'⟩ := done.accepted merged
  exact ⟨u, t, done.steps, done.current, done.control, goes'⟩

/-- `InheritExpand` does what it should exactly for the nodes that conform: it rejects none. -/
theorem checksTemplate_iff (merged : ast.Merged) (reached : ast.Reaches fresh s)
    {node templateNode : ConfigNode} {children members : List AstObject}
    (inherits : Inherits s node children ref templateNode members) :
    ChecksTemplate s ref (.node node children) (.node templateNode members) ↔
      Conforms (.node node children) (.node templateNode members) := by
  constructor
  · rintro ⟨accepted, -⟩
    exact accepted (accepts_of_inherits merged reached inherits)
  · exact fun conforms => ⟨fun _ => conforms, fun other => absurd conforms other⟩

/-! ### Examples -/

/-- The call of `InheritExpand` that a state starts, if any. -/
def inheriting (s : State) :
    Option (ConfigNode × List AstObject × Pos × ConfigNode × List AstObject) :=
  if s.control = .walk ∧ s.walk = .inheritExpand ∧ s.preVisited = false then
    match s.root.get? s.current with
    | some (.node node children) =>
      if node.nodeType = .inherit then
        (lookup s.root s.current node.refNodePath).bind fun ref =>
          match s.root.get? ref with
          | some (.node templateNode members) => some (node, children, ref, templateNode, members)
          | _ => none
      else none
    | _ => none
  else none

theorem inherits_of_inheriting {node templateNode : ConfigNode} {children members : List AstObject}
    (call : inheriting s = some (node, children, ref, templateNode, members)) :
    Inherits s node children ref templateNode members := by
  unfold inheriting at call
  split at call
  case isFalse => cases call
  case isTrue entered =>
    split at call
    case h_2 => cases call
    case h_1 there =>
      split at call
      case isFalse => cases call
      case isTrue marked =>
        obtain ⟨ref', found, call⟩ := Option.bind_eq_some_iff.mp call
        split at call
        case h_2 => cases call
        case h_1 template =>
          cases call
          exact ⟨⟨entered.1, entered.2.1, there, entered.2.2⟩, marked, found, template⟩

/-- Members without members of their own conform when the template has them. -/
theorem conforms_of_flat {node templateNode : ConfigNode} {children members : List AstObject}
    (flat : ∀ c ∈ children, c.children = [])
    (keys : ∀ c ∈ children, ∃ d ∈ members, childKey d = childKey c) :
    Conforms (.node node children) (.node templateNode members) := by
  intro path there
  cases path with
  | nil => rfl
  | cons key path =>
    obtain ⟨c, member, at_⟩ := List.any_eq_true.mp there
    obtain ⟨same, below⟩ := Bool.and_eq_true_iff.mp at_
    obtain ⟨d, member', same'⟩ := keys c member
    cases path with
    | nil => exact List.any_eq_true.mpr ⟨d, member', by rw [same', same]; rfl⟩
    | cons key' path =>
      rw [hasPath, flat c member] at below
      cases below

/-- A node with a member that its template lacks. -/
def extraMember : FileSystem :=
  .single (ascii "a.hcs")
    (ascii "root \x7b module = \"m\"; template t \x7b a = 1; \x7d n :: t \x7b b = 2; \x7d \x7d")

/-- A node with a member of its template. -/
def ownMember : FileSystem :=
  .single (ascii "a.hcs")
    (ascii "root \x7b module = \"m\"; template t \x7b a = 1; \x7d n :: t \x7b a = 2; \x7d \x7d")

/-- The state starts a call on a node with the member `b`, which the template lacks. -/
def inheritsExtra (s : State) : Bool :=
  (inheriting s).any fun (node, children, _, templateNode, members) =>
    hasPath [(ascii "b", .confTerm)] (.node node children) &&
      !hasPath [(ascii "b", .confTerm)] (.node templateNode members)

/-- The state starts a call on a node whose members are terms that the template has. -/
def inheritsOwn (s : State) : Bool :=
  (inheriting s).any fun (_, children, _, _, members) =>
    children.all fun c => c.children.isEmpty && members.any fun d => childKey d == childKey c

private theorem conformance_evaluated :
    expansionComesTo extraMember (ascii "a.hcs") inheritsExtra 40 = true ∧
      expansionPasses extraMember (ascii "a.hcs") (fun _ => true) (fun _ => true) 40 = true ∧
      expansionComesTo ownMember (ascii "a.hcs") inheritsOwn 40 = true := by
  rw [extraMember, ownMember]
  iterate 3 rw [ascii_ofList]
  decide +kernel

/-- What two evaluations show about one source. -/
theorem exists_expansion_reached {fs : FileSystem} {main : Bytes} {test : State → Bool}
    {rounds : ℕ} (comes : expansionComesTo fs main test rounds = true)
    (passes : expansionPasses fs main (fun _ => true) (fun _ => true) rounds = true) :
    ∃ ast fresh root s, MergedFrom fs main ast fresh ∧
      ast.Expands fresh (.returned true root) ∧ ast.Reaches fresh s ∧ test s = true := by
  unfold expansionComesTo at comes
  unfold expansionPasses at passes
  split at comes
  case h_1 => cases comes
  case h_2 ast fresh merges =>
    rw [merges] at passes
    dsimp only at passes
    rw [Bool.and_eq_true] at passes
    have result := passes.2
    split at comes
    case h_1 => cases comes
    case h_2 first goes =>
      obtain ⟨root', rfl⟩ := Ast.expand_eq_next goes
      obtain ⟨s, steps, test⟩ := exists_steps_of_comesTo comes
      split at result
      case h_1 => cases result
      case h_2 root leaves =>
        obtain ⟨outcome, expands, tree⟩ := Option.bind_eq_some_iff.mp leaves
        obtain rfl : outcome = .returned true root := by
          unfold Outcome.tree at tree
          split at tree <;> simp_all
        exact ⟨ast, fresh, root, s, mergedFrom_of_mergeWithin merges,
          Ast.expands_of_expandWithin expands, ⟨root', goes, steps⟩, test⟩

theorem extraMember_accepted :
    ∃ ast fresh root s node children ref templateNode members,
      MergedFrom extraMember (ascii "a.hcs") ast fresh ∧ ast.Expands fresh (.returned true root) ∧
        ast.Reaches fresh s ∧ Inherits s node children ref templateNode members ∧
        ¬ Conforms (.node node children) (.node templateNode members) ∧
        ¬ ChecksTemplate s ref (.node node children) (.node templateNode members) := by
  obtain ⟨ast, fresh, root, s, merged, expands, reached, extra⟩ :=
    exists_expansion_reached conformance_evaluated.1 conformance_evaluated.2.1
  obtain ⟨⟨node, children, ref, templateNode, members⟩, call, extra⟩ :=
    (Option.any_eq_true _ _).mp extra
  obtain ⟨there, absent⟩ := Bool.and_eq_true_iff.mp extra
  have other : ¬ Conforms (.node node children) (.node templateNode members) := by
    intro conforms
    rw [conforms _ there] at absent
    cases absent
  exact ⟨ast, fresh, root, s, node, children, ref, templateNode, members, merged, expands, reached,
    inherits_of_inheriting call, other, fun checks => not_rejects (checks.2 other)⟩

theorem checksTemplate_ownMember :
    ∃ ast fresh s node children ref templateNode members,
      MergedFrom ownMember (ascii "a.hcs") ast fresh ∧ ast.Reaches fresh s ∧
        Inherits s node children ref templateNode members ∧
        ChecksTemplate s ref (.node node children) (.node templateNode members) := by
  obtain ⟨ast, fresh, s, merged, reached, own⟩ := exists_reached conformance_evaluated.2.2
  obtain ⟨⟨node, children, ref, templateNode, members⟩, call, own⟩ :=
    (Option.any_eq_true _ _).mp own
  have inherits := inherits_of_inheriting call
  refine ⟨ast, fresh, s, node, children, ref, templateNode, members, merged, reached, inherits,
    (checksTemplate_iff merged.merged reached inherits).mpr (conforms_of_flat ?_ ?_)⟩
  · intro c member
    have both := Bool.and_eq_true_iff.mp (List.all_eq_true.mp own c member)
    exact List.isEmpty_iff.mp both.1
  · intro c member
    have both := Bool.and_eq_true_iff.mp (List.all_eq_true.mp own c member)
    obtain ⟨d, member', same⟩ := List.any_eq_true.mp both.2
    exact ⟨d, member', beq_iff_eq.mp same⟩

end Hdf.HcGen
