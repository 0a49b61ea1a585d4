import Hdf.HcGen.ExpandKeys
import Hdf.HcGen.ExpandLabels

/-!
# The nested Copy loops end

`ConfigNode::Copy` may append to the very child lists that outer calls are still
reading. It ends all the same: a call enters a child of its target only when a
source child has the same name and type, source siblings differ in these, and a
child it has appended itself is never entered. So every node of the target is
entered at most once, and each call makes a bounded number of rounds.

The measure of a stack of calls adds up, for every call, the rounds it has left
and the cost of entering those children of its target whose keys it has not met.

## Main results

* `copyCost_step`: a round within `Copy` lowers the measure
-/

namespace Hdf.HcGen

open Transition
open Hdf.Tree hiding node leaf

/-! ### Children whose keys were not met -/

section Unmet

variable {α κ : Type*} [DecidableEq κ] (key : α → κ) (weight : α → ℕ)

/-- The weights of those objects of a list whose keys are not among `met`. -/
def unmet (met : List κ) (cs : List α) : ℕ := ((cs.filter fun c => key c ∉ met).map weight).sum

variable {key weight} {met met' : List κ} {cs : List α} {c d : α} {j : ℕ}

@[simp] theorem unmet_none : unmet key weight [] cs = (cs.map weight).sum := by simp [unmet]

@[simp] theorem unmet_nil : unmet key weight met [] = 0 := rfl

theorem unmet_cons :
    unmet key weight met (c :: cs) =
      (if key c ∈ met then 0 else weight c) + unmet key weight met cs := by
  by_cases inside : key c ∈ met <;> simp [unmet, inside]

theorem unmet_append (cs ds : List α) :
    unmet key weight met (cs ++ ds) = unmet key weight met cs + unmet key weight met ds := by
  simp [unmet]

theorem unmet_mono (grown : ∀ k ∈ met, k ∈ met') :
    unmet key weight met' cs ≤ unmet key weight met cs := by
  induction cs with
  | nil => rfl
  | cons c cs ih =>
    have head : (if key c ∈ met' then 0 else weight c) ≤ if key c ∈ met then 0 else weight c := by
      by_cases inside : key c ∈ met
      · rw [if_pos inside, if_pos (grown _ inside)]
      · rw [if_neg inside]
        split <;> omega
    rw [unmet_cons, unmet_cons]
    exact Nat.add_le_add head ih

/-- An object met for the first time pays for its weight. -/
theorem unmet_add_le (grown : ∀ k ∈ met, k ∈ met') (member : c ∈ cs) (before : key c ∉ met)
    (after : key c ∈ met') :
    unmet key weight met' cs + weight c ≤ unmet key weight met cs := by
  obtain ⟨front, rest, rfl⟩ := List.append_of_mem member
  have front_le : unmet key weight met' front ≤ unmet key weight met front := unmet_mono grown
  have rest_le : unmet key weight met' rest ≤ unmet key weight met rest := unmet_mono grown
  rw [unmet_append, unmet_append, unmet_cons, unmet_cons, if_pos after, if_neg before]
  omega

/-- Changing an object that was met does not matter. -/
theorem unmet_modify_of_met {g : α → α} (there : cs[j]? = some c) (same : key (g c) = key c)
    (inside : key c ∈ met) : unmet key weight met (cs.modify j g) = unmet key weight met cs := by
  induction cs generalizing j with
  | nil => simp at there
  | cons d cs ih =>
    cases j with
    | zero =>
      obtain rfl : d = c := by simpa using there
      simp [unmet_cons, same, inside]
    | succ j => rw [List.modify_succ_cons, unmet_cons, unmet_cons, ih (by simpa using there)]

/-- Nor does a change that keeps key and weight. -/
theorem unmet_modify_of_same {g : α → α} (there : cs[j]? = some c) (same : key (g c) = key c)
    (equal : weight (g c) = weight c) :
    unmet key weight met (cs.modify j g) = unmet key weight met cs := by
  induction cs generalizing j with
  | nil => simp at there
  | cons d cs ih =>
    cases j with
    | zero =>
      obtain rfl : d = c := by simpa using there
      simp [unmet_cons, same, equal]
    | succ j => rw [List.modify_succ_cons, unmet_cons, unmet_cons, ih (by simpa using there)]

end Unmet

/-! ### The measure -/

/-- The key of an object. -/
def childKey (object : AstObject) : Bytes × ObjectType := Label.key object.label

/-- The keys of the children at a position. -/
def keysAt (root : AstObject) (p : Pos) : List (Bytes × ObjectType) :=
  (root.childrenAt p).map childKey

/-- What entering a node costs, besides entering its children. -/
def nodeCost (bound : ℕ) : Label → ℕ
  | .inl _ => bound + 2
  | .inr _ => 0

namespace CopyFrame

/-- The keys of the source children that a call is done with. -/
def consumed (frame : CopyFrame) (root : AstObject) : List (Bytes × ObjectType) :=
  (keysAt root frame.src).take frame.index

/-- The cost of the target's children that a call may still enter. -/
def enterable (frame : CopyFrame) (bound : ℕ) (root : AstObject) : ℕ :=
  unmet childKey (weigh (nodeCost bound)) (frame.consumed root) (root.childrenAt frame.dst)

/-- The rounds a call has left, and what it may still enter. -/
def cost (frame : CopyFrame) (bound : ℕ) (root : AstObject) : ℕ :=
  bound + 1 - frame.index + frame.enterable bound root

/-- The call after a round. -/
def next (frame : CopyFrame) : CopyFrame := { frame with index := frame.index + 1 }

end CopyFrame

/-- The measure of a stack of calls. -/
def copyCost (bound : ℕ) (root : AstObject) (frames : List CopyFrame) : ℕ :=
  (frames.map fun frame => frame.cost bound root).sum

@[simp] theorem copyCost_cons (bound : ℕ) (root : AstObject) (frame : CopyFrame)
    (frames : List CopyFrame) :
    copyCost bound root (frame :: frames) = frame.cost bound root + copyCost bound root frames :=
  rfl

/-- The inner call works on a child of the outer call's target that the outer
call has met. -/
def Nested (root : AstObject) (inner outer : CopyFrame) : Prop :=
  ∃ j c, inner.dst = j :: outer.dst ∧ (root.childrenAt outer.dst)[j]? = some c ∧
    childKey c ∈ outer.consumed root

/-- The calls of a stack are nested, and none has made too many rounds. -/
structure Chained (bound : ℕ) (root : AstObject) (frames : List CopyFrame) : Prop where
  rounds : ∀ frame ∈ frames, frame.index ≤ bound
  nested : frames.IsChain (Nested root)

/-! ### Changes below a position -/

/-- `root'` differs from `root` at or below `q` only, and has the old keys in
their old places. -/
structure Extends (root root' : AstObject) (q : Pos) : Prop where
  keys : ∀ p, keysAt root p <+: keysAt root' p
  beside : ∀ r j p, q = r ++ j :: p → ∃ g : AstObject → AstObject,
    root'.childrenAt p = (root.childrenAt p).modify j g ∧
      ∀ c, (root.childrenAt p)[j]? = some c → childKey (g c) = childKey c

section

variable {root root' child : AstObject} {q : Pos} {bound : ℕ} {frame inner outer : CopyFrame}
  {frames : List CopyFrame}

theorem getElem?_keysAt (root : AstObject) (p : Pos) (i : ℕ) :
    (keysAt root p)[i]? = (root.label? (i :: p)).map Label.key := by
  rw [keysAt, List.getElem?_map, getElem?_childrenAt, label?, Option.map_map]
  rfl

private theorem key_modifyAt {f : AstObject → AstObject} {u v : AstObject} {p : Pos}
    (there : u.get? p = some v) (same : Label.key (f v).label = Label.key v.label) :
    Label.key (u.modifyAt p f).label = Label.key u.label := by
  rcases List.eq_nil_or_concat p with rfl | ⟨p, i, rfl⟩
  · obtain rfl : u = v := by simpa using there
    exact same
  · rw [List.concat_eq_append, modifyAt_append]
    exact congrArg Label.key (label_modifyChild _ _ _)

private theorem extends_modifyAt {f : AstObject → AstObject} {u : AstObject}
    (there : root.get? q = some u) (same : Label.key (f u).label = Label.key u.label)
    (keeps : ∀ p l, root.label? p = some l →
      ∃ l', (root.modifyAt q f).label? p = some l' ∧ Label.key l' = Label.key l) :
    Extends root (root.modifyAt q f) q := by
  constructor
  · intro p
    rw [List.prefix_iff_getElem?]
    intro i inside
    have old : (keysAt root p)[i]? = some (keysAt root p)[i] := List.getElem?_eq_getElem inside
    rw [getElem?_keysAt] at old
    obtain ⟨l, label, key⟩ := Option.map_eq_some_iff.mp old
    obtain ⟨l', label', key'⟩ := keeps _ l label
    rw [getElem?_keysAt, label', Option.map_some, key', key]
  · rintro r j p rfl
    refine ⟨fun c => c.modifyAt r f, childrenAt_modifyAt_under root r p j f, fun c child => ?_⟩
    rw [getElem?_childrenAt] at child
    rw [get?_append, child] at there
    exact key_modifyAt there same

theorem extends_appendAt (there : IsNode root q) : Extends root (root.appendAt q child) q := by
  obtain ⟨node, children, there⟩ := there.get?
  refine extends_modifyAt there rfl fun p l label => ⟨l, ?_, rfl⟩
  exact label?_appendAt_of_some there label

theorem extends_updateLeaf {leaf : Leaf} {f : Leaf → Leaf} (there : root.get? q = some (.leaf leaf))
    (same : Label.key (.inr (f leaf)) = Label.key (.inr leaf)) :
    Extends root (updateLeaf root q f) q := by
  refine extends_modifyAt there same fun p l label => ?_
  by_cases eq : p = q
  · subst eq
    rw [label?_of_get? there] at label
    cases label
    exact ⟨_, by rw [← relabelAt, label?_relabelAt_self, label?_of_get? there]; rfl, same⟩
  · exact ⟨l, by rw [← relabelAt, label?_relabelAt_of_ne eq, label], rfl⟩

theorem Extends.consumed (h : Extends root root' q) (frame : CopyFrame) :
    ∀ k ∈ frame.consumed root, k ∈ frame.consumed root' :=
  ((h.keys frame.src).take frame.index).subset

/-- A change below the target of an inner call does not cost its outer call anything. -/
theorem Extends.cost_outer (h : Extends root root' q) (below : inner.dst <:+ q)
    (nested : Nested root inner outer) :
    outer.cost bound root' ≤ outer.cost bound root ∧ Nested root' inner outer := by
  obtain ⟨j, c, dst, child, met⟩ := nested
  obtain ⟨r, split⟩ := below
  rw [dst] at split
  obtain ⟨g, children, keeps⟩ := h.beside r j outer.dst split.symm
  have grown := h.consumed outer
  have met' := grown _ met
  refine ⟨?_, j, g c, dst, by rw [children, List.getElem?_modify, child]; simp, ?_⟩
  · rw [CopyFrame.cost, CopyFrame.cost, CopyFrame.enterable, CopyFrame.enterable, children,
      unmet_modify_of_met child (keeps c child) met']
    exact Nat.add_le_add_left (unmet_mono grown) _
  · rw [keeps c child]
    exact met'

theorem Extends.chain (h : Extends root root' q) {outers : List CopyFrame}
    (below : inner.dst <:+ q) (chain : (inner :: outers).IsChain (Nested root)) :
    copyCost bound root' outers ≤ copyCost bound root outers ∧
      (inner :: outers).IsChain (Nested root') := by
  induction outers generalizing inner with
  | nil => exact ⟨le_rfl, .singleton _⟩
  | cons outer outers ih =>
    obtain ⟨nested, rest⟩ := List.isChain_cons_cons.mp chain
    obtain ⟨cost, nested'⟩ : outer.cost bound root' ≤ outer.cost bound root ∧
        Nested root' inner outer := h.cost_outer below nested
    obtain ⟨j, _, dst, _⟩ := nested
    have above : outer.dst <:+ inner.dst := by
      rw [dst]
      exact List.suffix_cons _ _
    obtain ⟨costs, rest'⟩ := ih (above.trans below) rest
    refine ⟨?_, List.isChain_cons_cons.mpr ⟨nested', rest'⟩⟩
    rw [copyCost_cons, copyCost_cons]
    exact Nat.add_le_add cost costs

/-! ### The innermost call -/

/-- The source child that a call looks at is in the tree. -/
theorem CopyFrame.key_of_child (there : root.get? (frame.index :: frame.src) = some child) :
    (keysAt root frame.src)[frame.index]? = some (childKey child) := by
  rw [getElem?_keysAt, label?_of_get? there]
  rfl

theorem CopyFrame.consumed_next (frame : CopyFrame) (root : AstObject) :
    ∀ k ∈ frame.consumed root, k ∈ frame.next.consumed root :=
  (List.take_prefix_take_left (Nat.le_succ frame.index)).subset

theorem CopyFrame.mem_consumed_next
    (there : root.get? (frame.index :: frame.src) = some child) :
    childKey child ∈ frame.next.consumed root := by
  apply List.mem_of_getElem? (i := frame.index)
  rw [consumed, next, List.getElem?_take_of_lt (Nat.lt_succ_self _)]
  exact frame.key_of_child there

/-- Source siblings have different keys, so the one looked at was not met before. -/
theorem CopyFrame.not_mem_consumed (distinct : DistinctSiblings Label.key root)
    (there : root.get? (frame.index :: frame.src) = some child) :
    childKey child ∉ frame.consumed root := by
  intro met
  obtain ⟨n, hn⟩ := List.mem_iff_getElem?.mp met
  have small : n < frame.index := by
    by_contra large
    rw [consumed, List.getElem?_take_eq_none (Nat.le_of_not_lt large)] at hn
    cases hn
  rw [consumed, List.getElem?_take_of_lt small] at hn
  obtain ⟨a, cs, parent, _⟩ := exists_node_of_child there
  have nodup : (keysAt root frame.src).Nodup := by
    rw [keysAt, childrenAt_of_get? parent]
    exact distinct frame.src _ parent
  obtain ⟨hn', value⟩ := List.getElem?_eq_some_iff.mp hn
  obtain ⟨hi', value'⟩ := List.getElem?_eq_some_iff.mp (frame.key_of_child there)
  have := nodup.getElem_inj_iff.mp (value.trans value'.symm)
  omega

/-- A round that changes the tree below the target only is paid for by being one round
less, if the target's children that may still be entered have not become more. -/
theorem CopyFrame.cost_round (rounds : frame.index < bound + 1)
    (fewer : frame.next.enterable bound root' ≤ frame.enterable bound root) :
    frame.next.cost bound root' < frame.cost bound root := by
  have index : frame.next.index = frame.index + 1 := rfl
  rw [cost, cost, index]
  omega

/-- Going on without a change of the tree. -/
theorem CopyFrame.cost_next (rounds : frame.index < bound + 1) :
    frame.next.cost bound root < frame.cost bound root :=
  frame.cost_round rounds (unmet_mono (frame.consumed_next root))

/-- Entering a child of the target is paid for by not entering it again. -/
theorem CopyFrame.cost_push {node : ConfigNode} {children : List AstObject} {i : ℕ}
    (distinct : DistinctSiblings Label.key root) (rounds : frame.index < bound + 1)
    (there : root.get? (frame.index :: frame.src) = some (.node node children))
    (present : lookupIndex (root.childrenAt frame.dst) node.name (some .confNode) = some i) :
    CopyFrame.cost ⟨i :: frame.dst, frame.index :: frame.src, 0⟩ bound root +
      frame.next.cost bound root < frame.cost bound root := by
  obtain ⟨c, child, named, typed⟩ := lookupIndex_spec present
  have key : childKey c = childKey (.node node children) := Prod.ext named typed
  obtain ⟨target, below, rfl⟩ := exists_node_of_type typed
  have entered : CopyFrame.enterable ⟨i :: frame.dst, frame.index :: frame.src, 0⟩ bound root =
      (below.map (weigh (nodeCost bound))).sum := by
    rw [getElem?_childrenAt] at child
    rw [enterable, consumed, List.take_zero, childrenAt_of_get? child]
    exact unmet_none
  have unit : weigh (nodeCost bound) (.node target below) =
      bound + 2 + (below.map (weigh (nodeCost bound))).sum := weigh_node _ target below
  have index : frame.next.index = frame.index + 1 := rfl
  have outer : frame.next.enterable bound root + weigh (nodeCost bound) (.node target below) ≤
      frame.enterable bound root :=
    unmet_add_le (frame.consumed_next root) (List.mem_of_getElem? child)
      (by rw [key]; exact frame.not_mem_consumed distinct there)
      (by rw [key]; exact frame.mem_consumed_next there)
  rw [cost, cost, cost, entered, index]
  dsimp only
  omega

/-- An appended child is either met already or no node at all. -/
theorem CopyFrame.cost_append {clone : AstObject} (rounds : frame.index < bound + 1)
    (there : IsNode root frame.dst)
    (harmless : childKey clone ∈ frame.next.consumed root ∨ weigh (nodeCost bound) clone = 0) :
    frame.next.cost bound (root.appendAt frame.dst clone) < frame.cost bound root := by
  have extends_ : Extends root (root.appendAt frame.dst clone) frame.dst := extends_appendAt there
  obtain ⟨node, children, there⟩ := there.get?
  refine frame.cost_round rounds ?_
  have grown : ∀ k ∈ frame.consumed root, k ∈ frame.next.consumed (root.appendAt frame.dst clone) :=
    fun k inside => extends_.consumed frame.next k (frame.consumed_next root k inside)
  have last : unmet childKey (weigh (nodeCost bound))
      (frame.next.consumed (root.appendAt frame.dst clone)) [clone] = 0 := by
    rw [unmet_cons]
    rcases harmless with met | free
    · rw [if_pos (extends_.consumed frame.next _ met), unmet_nil]
    · rw [free, ite_self, unmet_nil]
  have dst : frame.next.dst = frame.dst := rfl
  rw [enterable, enterable, dst, childrenAt_of_get? (get?_appendAt_self there),
    childrenAt_of_get? there, children_node, children_node, unmet_append, last, Nat.add_zero]
  exact unmet_mono grown

/-- Overwriting a leaf of the target costs nothing. -/
theorem CopyFrame.cost_overwrite {leaf : Leaf} {f : Leaf → Leaf} {i : ℕ}
    (rounds : frame.index < bound + 1) (there : root.get? (i :: frame.dst) = some (.leaf leaf))
    (same : Label.key (.inr (f leaf)) = Label.key (.inr leaf)) :
    frame.next.cost bound (updateLeaf root (i :: frame.dst) f) < frame.cost bound root := by
  have extends_ := extends_updateLeaf there same
  refine frame.cost_round rounds ?_
  have grown : ∀ k ∈ frame.consumed root,
      k ∈ frame.next.consumed (updateLeaf root (i :: frame.dst) f) :=
    fun k inside => extends_.consumed frame.next k (frame.consumed_next root k inside)
  have children : (updateLeaf root (i :: frame.dst) f).childrenAt frame.dst =
      (root.childrenAt frame.dst).modify i fun c => c.modifyAt [] (Tree.relabel id f) :=
    childrenAt_modifyAt_under root [] frame.dst i _
  have child : (root.childrenAt frame.dst)[i]? = some (.leaf leaf) := by
    rw [getElem?_childrenAt, there]
  have dst : frame.next.dst = frame.dst := rfl
  rw [enterable, enterable, dst, children, unmet_modify_of_same child same]
  · exact unmet_mono grown
  · exact (weigh_leaf (nodeCost bound) (f leaf)).trans (weigh_leaf (nodeCost bound) leaf).symm

end

/-! ### A round of Copy -/

section

variable {s t : State} {bound : ℕ} {job job' : Job} {hasNext hasNext' : Bool}
  {frame : CopyFrame} {frames frames' : List CopyFrame} {child : AstObject}

/-- No object of the tree has more than `bound` parts. -/
def Narrow (bound : ℕ) (root : AstObject) : Prop :=
  ∀ p u, root.get? p = some u → (allChildren u).length ≤ bound

theorem Copying.index_lt (narrow : Narrow bound s.root)
    (h : Copying s job hasNext frame frames child) : frame.index < bound := by
  obtain ⟨src, there, next⟩ := Option.bind_eq_some_iff.mp h.child
  exact (List.getElem?_eq_some_iff.mp next).1.trans_le (narrow _ _ there)

/-- What a round appends cannot be entered by the call that appended it. -/
theorem Copying.harmless (h : Copying s job hasNext frame frames child) :
    childKey (build s.fresh child) ∈ frame.next.consumed s.root ∨
      weigh (nodeCost bound) (build s.fresh child) = 0 := by
  rcases h.source with inTree | ⟨v, rfl⟩
  · left
    rw [childKey, label_build, steadyKey_key.build]
    exact frame.mem_consumed_next inTree
  · exact .inr (weigh_leaf _ _)

private theorem Chained.of_round (chained : Chained bound s.root (frame :: frames))
    (index : frame.index < bound) {root : AstObject}
    (chain : (frame :: frames).IsChain (Nested root)) :
    Chained bound root (frame.next :: frames) := by
  refine ⟨fun f member => ?_, ?_⟩
  · rcases List.mem_cons.mp member with rfl | outer
    · exact index
    · exact chained.rounds f (List.mem_cons_of_mem _ outer)
  · cases chain with
    | singleton => exact .singleton _
    | cons_cons nested rest => exact .cons_cons nested rest

/-- A round within `Copy` lowers the measure. -/
theorem copyCost_step (coherent : Coherent s) (distinct : DistinctSiblings Label.key s.root)
    (narrow : Narrow bound s.root) (chained : Chained bound s.root frames)
    (control : s.control = .copy job hasNext frames)
    (control' : t.control = .copy job' hasNext' frames') (goes : step s = .next t) :
    Chained bound t.root frames' ∧
      copyCost bound t.root frames' < copyCost bound s.root frames := by
  cases copyRound control control' goes with
  | @popped frame =>
    cases control'
    have rounds := chained.rounds frame List.mem_cons_self
    refine ⟨⟨fun f member => chained.rounds f (List.mem_cons_of_mem _ member),
      chained.nested.of_cons⟩, ?_⟩
    rw [copyCost_cons, CopyFrame.cost]
    dsimp only
    omega
  | @appended frame _ child copying absent =>
    cases control'
    have index := copying.index_lt narrow
    have there := (coherent.running _ _ _ control).node frame List.mem_cons_self
    have grows : Extends s.root (s.root.appendAt frame.dst (build s.fresh child)) frame.dst :=
      extends_appendAt there
    obtain ⟨outer, chain⟩ := grows.chain List.suffix_rfl chained.nested
    have inner := frame.cost_append (index.trans (Nat.lt_succ_self _)) there
      copying.harmless
    exact ⟨chained.of_round index chain, Nat.add_lt_add_of_lt_of_le inner outer⟩
  | @pushed frame _ node children i copying present =>
    cases control'
    have index := copying.index_lt narrow
    have inTree := copying.source.resolve_right (by rintro ⟨_, h⟩; cases h)
    obtain ⟨c, child, named, typed⟩ := lookupIndex_spec present
    have key : childKey c = childKey (.node node children) := Prod.ext named typed
    have inner := frame.cost_push distinct (index.trans (Nat.lt_succ_self _)) inTree present
    have advanced := chained.of_round index chained.nested
    refine ⟨⟨fun f member => ?_, ?_⟩, ?_⟩
    · rcases List.mem_cons.mp member with rfl | outer
      · exact Nat.zero_le _
      · exact advanced.rounds f outer
    · exact .cons_cons ⟨i, c, rfl, child, key ▸ frame.mem_consumed_next inTree⟩ advanced.nested
    · rw [copyCost_cons, copyCost_cons, copyCost_cons, ← add_assoc]
      exact Nat.add_lt_add_right inner _
  | @skipped frame _ leaf copying =>
    cases control'
    have index := copying.index_lt narrow
    exact ⟨chained.of_round index chained.nested,
      Nat.add_lt_add_right (frame.cost_next (index.trans (Nat.lt_succ_self _))) _⟩
  | @overwritten frame _ this leaf copied i copying overwrites writes copies =>
    cases control'
    have index := copying.index_lt narrow
    have there := overwrites.there
    have same := steadyKey_key.payload _ _ _ copies
    obtain ⟨outer, chain⟩ := (extends_updateLeaf there same).chain (List.suffix_cons _ _)
      chained.nested
    have inner := frame.cost_overwrite (index.trans (Nat.lt_succ_self _)) there same
    exact ⟨chained.of_round index chain, Nat.add_lt_add_of_lt_of_le inner outer⟩

end

end Hdf.HcGen
