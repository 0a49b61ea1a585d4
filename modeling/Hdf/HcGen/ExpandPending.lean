import Hdf.HcGen.ExpandCoherence

/-!
# What NodeExpand has settled

`NodeExpand` calls back on an object after its children. So at any time the
tree splits into the objects it is done with and those still ahead: the current
one, its ancestors and everything to its right. A weight that the callback
brings to zero on every object, and that no copy brings back, is then carried by
the objects ahead only, and by none once the walk is over.

## Main results

* `Settled.preserved`: a step keeps this when it appends nothing of that weight
* `Settled.weigh_source`: what a node reference copies is settled already
-/

namespace Hdf.HcGen

open Transition
open Hdf.Tree hiding node leaf

/-- The weight ahead of a walk once it is done with the object at `c`. -/
def ahead (w : Label → ℕ) (root : AstObject) (c : Pos) : ℕ := rightOf w root c + above w root c

/-- The weight ahead of `NodeExpand`, of the current object included. -/
def pending (w : Label → ℕ) (s : State) : ℕ :=
  ahead w s.root s.current +
    if s.control = .walk ∧ s.preVisited = false then weighAt w s.root s.current
    else labelWeight w s.root s.current

/-- The weight is carried by objects still ahead of `NodeExpand`, and by none
after that walk. -/
structure Settled (w : Label → ℕ) (s : State) : Prop where
  nodeExpand : s.walk = .nodeExpand → s.control ≠ .copyArray → weigh w s.root = pending w s
  inheritExpand : s.walk = .inheritExpand → weigh w s.root = 0

/-- The weight of a leaf does not depend on what is copied into it. -/
def IgnoresPayload (w : Label → ℕ) : Prop :=
  ∀ (leaf : Leaf) object copied, leaf.getValue.copyFrom object = some copied →
    w (.inr (leaf.setValue copied)) = w (.inr leaf)

/-- The callback of `NodeExpand` brings the weight of every object to zero. -/
structure Clearing (w : Label → ℕ) : Prop where
  restful : ∀ object, restful object = true → w object.label = 0
  refNode : ∀ term path uid, term.value = .nodeRef path →
    w (.inr (Leaf.setRefNode uid (.term term))) = 0
  payload : IgnoresPayload w
  inherit : ∀ (node : ConfigNode) index count classes, w (.inl {
    node with inheritIndex := index, inheritCount := count, subClasses := classes }) = w (.inl node)

section

variable {w : Label → ℕ} {s t : State}

theorem pending_opened (opened : ¬ (s.control = .walk ∧ s.preVisited = false)) :
    pending w s = ahead w s.root s.current + labelWeight w s.root s.current := by
  rw [pending, if_neg opened]

theorem pending_copying {job : Job} {hasNext : Bool} {frames : List CopyFrame}
    (control : s.control = .copy job hasNext frames) :
    pending w s = ahead w s.root s.current + labelWeight w s.root s.current :=
  pending_opened (by simp [control])

/-- Nothing but the object itself is pending when the walk calls back on it. -/
theorem Visiting.pending {object : AstObject} (visit : Visiting s object) :
    pending w s = ahead w s.root s.current + w object.label := by
  by_cases again : s.preVisited = true
  · rw [pending_opened (by simp [again]), labelWeight_of_get? visit.there]
  · have childless := visit.done.resolve_right again
    rw [HcGen.pending, if_pos ⟨visit.control, by simpa using again⟩, weighAt_of_get? visit.there,
      weigh_eq, childless, List.map_nil, List.sum_nil, add_zero]

/-- Everything is pending when an expansion starts. -/
theorem settled_start {root : AstObject} {fresh : ℕ} (w : Label → ℕ) :
    Settled w (start root fresh) := by
  refine ⟨fun _ _ => ?_, fun second => by cases second⟩
  rw [pending, if_pos ⟨rfl, rfl⟩]
  change weigh w root = rightOf w root [] + above w root [] + weighAt w root []
  rw [rightOf, above, weighAt, get?_nil]
  simp

/-! ### Going on -/

theorem Left.length_le {removed hasNext : Bool} (h : Left s removed hasNext t) :
    s.current.length ≤ t.current.length + 1 := by
  cases h with
  | sibling current => rw [current]; exact Nat.le_succ _
  | parent current => rw [current]; exact le_rfl
  | walk => exact Nat.le_succ _

/-- `NodeExpand` goes on only from an object other than the root. -/
theorem Left.inner {removed hasNext : Bool} (h : Left s removed hasNext t)
    (first : t.walk = .nodeExpand) : s.current ≠ [] := by
  cases h with
  | sibling current | parent current => simp [current]
  | walk => cases first

/-- Going down opens the current object and changes nothing else. -/
theorem pending_of_down {object : AstObject} (control : s.control = .walk)
    (there : s.root.get? s.current = some object) (inner : object.children ≠ [])
    (first : s.preVisited = false) :
    pending w { s with current := 0 :: s.current, preVisited := false, control := .walk } =
      pending w s := by
  have opens := rightOf_first (w := w) there inner
  rw [pending, if_pos ⟨rfl, rfl⟩, pending, if_pos ⟨control, first⟩, ahead, ahead, above]
  dsimp only
  omega

/-- When a walk leaves an object for another one, what was ahead is pending. -/
theorem pending_of_left (inner : s.current ≠ []) (leaves : Left s false s.hasNext t) :
    pending w t = ahead w s.root s.current := by
  cases leaves with
  | @sibling i parent current next =>
    have sibling : (s.root.get? ((i + 1) :: parent)).isSome := by
      simpa [State.hasNext, current] using next
    obtain ⟨u, there⟩ := Option.isSome_iff_exists.mp sibling
    change pending w { s with
      current := (i + 1) :: parent, preVisited := false, control := .walk } = _
    rw [pending, if_pos ⟨rfl, rfl⟩, current, ahead, ahead, rightOf_next there, above, above]
    dsimp only
    omega
  | @parent i parent current last =>
    have no : s.root.get? ((i + 1) :: parent) = none := by
      simpa [State.hasNext, current] using last
    rw [pending_opened (by simp), current, ahead, ahead, rightOf_last no, above]
    dsimp only
    omega
  | walk current => exact absurd current inner

/-- After the removal of the current object the next sibling stands in its place. -/
theorem pending_of_left_removed (inner : s.current ≠ [])
    (leaves : Left { s with root := s.root.eraseAt s.current } true s.hasNext t) :
    pending w t = ahead w s.root s.current := by
  cases leaves with
  | @sibling i parent current next =>
    dsimp only at current
    have sibling : (s.root.get? ((i + 1) :: parent)).isSome := by
      simpa [State.hasNext, current] using next
    obtain ⟨u, there⟩ := Option.isSome_iff_exists.mp sibling
    have moved := (rightOf_eraseAt (w := w) there).2
    change pending w { s with
      root := s.root.eraseAt s.current
      current := i :: parent, preVisited := false, control := .walk } = _
    rw [pending, if_pos ⟨rfl, rfl⟩, current, ahead, ahead, ← moved, above, above,
      above_eraseAt_parent, labelWeight_eraseAt_parent]
    dsimp only
    omega
  | @parent i parent current last =>
    dsimp only at current
    have no : s.root.get? ((i + 1) :: parent) = none := by
      simpa [State.hasNext, current] using last
    change pending w { s with
      root := s.root.eraseAt s.current, current := parent, preVisited := true,
      control := .walk } = _
    rw [pending_opened (by simp), current, ahead, ahead, rightOf_last no, above,
      rightOf_eraseAt_parent, above_eraseAt_parent, labelWeight_eraseAt_parent]
    omega
  | walk current => exact absurd current inner

theorem Settled.of_left (walk : s.walk = .nodeExpand) (leaves : Left s false s.hasNext t)
    (rest : weigh w s.root = ahead w s.root s.current) : Settled w t := by
  by_cases inner : s.current = []
  · cases leaves with
    | sibling current | parent current => cases inner.symm.trans current
    | walk =>
      refine ⟨fun first => (by cases first), fun _ => ?_⟩
      change weigh w s.root = 0
      rw [rest, inner]
      rfl
  · exact ⟨fun _ _ => by rw [leaves.root, rest, pending_of_left inner leaves], fun second => by
      cases (leaves.walk_of_first inner walk).symm.trans second⟩

theorem Settled.of_left_removed (walk : s.walk = .nodeExpand) (inner : s.current ≠ [])
    (leaves : Left { s with root := s.root.eraseAt s.current } true s.hasNext t)
    (rest : weigh w (s.root.eraseAt s.current) = ahead w s.root s.current) : Settled w t :=
  ⟨fun _ _ => by rw [leaves.root, rest, pending_of_left_removed inner leaves], fun second => by
    cases (leaves.walk_of_first inner walk).symm.trans second⟩

/-! ### Changing the tree -/

section

variable {root object : AstObject} {c q : Pos}

theorem labelWeight_relabelAt {M : Type*} [AddCancelCommMonoid M] {w : Label → M} {u : AstObject}
    {f : ConfigNode → ConfigNode} {g : Leaf → Leaf}
    (there : root.get? q = some u) (same : w (u.relabel f g).label = w u.label) (p : Pos) :
    labelWeight w (root.relabelAt q f g) p = labelWeight w root p := by
  by_cases eq : p = q
  · subst eq
    rw [labelWeight, label?_relabelAt_self, label?_of_get? there, labelWeight_of_get? there]
    cases u <;> exact same
  · rw [labelWeight, label?_relabelAt_of_ne eq, labelWeight]

theorem ahead_relabelAt {u : AstObject} {f : ConfigNode → ConfigNode} {g : Leaf → Leaf}
    (there : root.get? q = some u) (same : w (u.relabel f g).label = w u.label)
    (h : (root.get? c).isSome) : ahead w (root.relabelAt q f g) c = ahead w root c := by
  rw [ahead, rightOf_relabelAt there same h,
    above_congr fun p _ _ _ => labelWeight_relabelAt there same p, ahead]

/-- Updates at or below the current object leave what is ahead alone. -/
theorem ahead_modifyAt (r : Pos) (f : AstObject → AstObject) :
    ahead w (root.modifyAt (r ++ c) f) c = ahead w root c := by
  rw [ahead, rightOf_modifyAt, above_modifyAt, ahead]

theorem labelWeight_appendAt {node : ConfigNode} {children : List AstObject} {child : AstObject}
    (there : root.get? q = some (.node node children)) {p : Pos} (h : (root.label? p).isSome) :
    labelWeight w (root.appendAt q child) p = labelWeight w root p := by
  obtain ⟨l, label⟩ := Option.isSome_iff_exists.mp h
  rw [labelWeight, label?_appendAt_of_some there label, labelWeight, label]

theorem ahead_appendAt {node : ConfigNode} {children : List AstObject} {child : AstObject}
    (there : root.get? q = some (.node node children)) (weightless : weigh w child = 0)
    (h : (root.get? c).isSome) : ahead w (root.appendAt q child) c = ahead w root c := by
  rw [ahead, rightOf_appendAt there weightless h, ahead]
  congr 1
  refine above_congr fun p k r split => labelWeight_appendAt there ?_
  rw [label?, Option.isSome_map]
  apply get?_isSome_of_append (r := r ++ [k])
  rw [List.append_assoc, List.singleton_append, ← split]
  exact h

/-- Moving the first child of the current object into a leaf leaves what is ahead alone. -/
theorem ahead_moveTerm {leaf : Leaf} {f : Leaf → Leaf} (there : root.get? q = some (.leaf leaf))
    (same : w (.inr (f leaf)) = w (.inr leaf)) (h : (root.get? c).isSome) :
    ahead w ((updateLeaf root q f).eraseAt (0 :: c)) c = ahead w root c :=
  (ahead_modifyAt [] _).trans (ahead_relabelAt there same h)

theorem hasNext_moveTerm (q : Pos) (f : Leaf → Leaf) :
    State.hasNext { s with root := (updateLeaf s.root q f).eraseAt (0 :: s.current) } =
      s.hasNext := by
  refine hasNext_eq_of_label? rfl fun i parent current => ?_
  dsimp only
  rw [label?_eraseAt_outside, updateLeaf, isSome_label?_relabelAt]
  intro r k same
  have := congrArg List.length same
  rw [current] at this
  simp at this
  omega

/-- When only the current object's own label is still pending around it, its
removal leaves what is ahead. -/
theorem weigh_eraseAt_current (there : root.get? c = some object) (inner : c ≠ [])
    (rest : weigh w root = ahead w root c + w object.label) :
    weigh w (root.eraseAt c) = ahead w root c := by
  have parts := rightOf_add_above_le (w := w) there
  have whole : w object.label ≤ weigh w object := by
    rw [weigh_eq]
    exact Nat.le_add_right _ _
  cases c with
  | nil => exact absurd rfl inner
  | cons i parent =>
    have exchange := weigh_eraseAt w there
    rw [ahead] at rest ⊢
    omega

end

/-! ### The steps keep the weight ahead -/

/-- A round of `NodeExpand` that ends in its walk has gone down from the current
object or is done with it. -/
theorem pending_of_walking (coherent : Coherent s) (goes : step s = .next t)
    (first : t.walk = .nodeExpand) (walking : t.control = .walk) :
    (s.control = .walk ∧ t.current.length = s.current.length + 1 ∧
      ∀ w, IgnoresPayload w → pending w t = pending w s) ∨
    (s.current.length ≤ t.current.length + 1 ∧
      ∀ w, IgnoresPayload w → pending w t = ahead w s.root s.current) := by
  cases stepped goes with
  | endless control => cases control.symm.trans walking
  | down control _ there inner opened =>
    exact .inl ⟨control, rfl, fun _ _ => pending_of_down control there inner opened⟩
  | passed visit _ leaves =>
    exact .inr ⟨leaves.length_le, fun _ _ => pending_of_left (leaves.inner first) leaves⟩
  | removed visit _ leaves =>
    exact .inr ⟨leaves.length_le, fun _ _ => pending_of_left_removed (leaves.inner first) leaves⟩
  | resolved visit value found target leaves =>
    refine .inr ⟨leaves.length_le, fun w _ => ?_⟩
    rw [← hasNext_relabel (f := id)] at leaves
    exact (pending_of_left (s := { s with root := _ }) (leaves.inner first) leaves).trans
      (ahead_modifyAt [] _)
  | refStarts | copyStarts => cases walking
  | termMoved visit marked refers there first' copies leaves =>
    refine .inr ⟨leaves.length_le, fun w payload => ?_⟩
    have exists_ : (s.root.get? s.current).isSome := by rw [visit.there]; rfl
    rw [← hasNext_moveTerm] at leaves
    exact (pending_of_left (s := { s with root := _ }) (leaves.inner first) leaves).trans
      (ahead_moveTerm there (payload _ _ _ copies) exists_)
  | @valueMoved _ _ _ copied ref _ visit marked refers there copies leaves =>
    refine .inr ⟨leaves.length_le, fun w payload => ?_⟩
    have exists_ : (s.root.get? s.current).isSome := by rw [visit.there]; rfl
    have next : s.hasNext = State.hasNext { s with
      root := updateLeaf s.root ref (Leaf.setValue copied) } := hasNext_relabel.symm
    rw [next] at leaves
    exact (pending_of_left_removed (s := { s with
      root := updateLeaf s.root ref (Leaf.setValue copied) }) (leaves.inner first) leaves).trans
      (ahead_relabelAt there (payload _ _ _ copies) exists_)
  | stuck | popped | appended | pushed | skipped | overwritten => cases walking
  | copied control leaves =>
    have running := coherent.running _ _ _ control
    rw [running.hasNext running.walk] at leaves
    exact .inr ⟨leaves.length_le, fun _ _ => pending_of_left (leaves.inner first) leaves⟩
  | referred control leaves =>
    have running := coherent.running _ _ _ control
    rw [running.hasNext running.walk] at leaves
    exact .inr ⟨leaves.length_le, fun _ _ => pending_of_left_removed (leaves.inner first) leaves⟩
  | inherited control _ _ went =>
    cases (went.walk_of_second (coherent.running _ _ _ control).walk).symm.trans first
  | back _ walk _ _ leaves => cases (leaves.walk_of_second walk).symm.trans first
  | forth enter _ went => cases (went.walk_of_second enter.walk).symm.trans first
  | inheritStarts => cases walking

/-- In a node reference's `Copy` everything below the waiting node is settled. -/
theorem Settled.weigh_source (settled : Settled w s) (coherent : Coherent s) {hasNext : Bool}
    {frame : CopyFrame} {frames : List CopyFrame} {child : AstObject}
    (copying : Copying s .nodeRef hasNext frame frames child)
    (inTree : s.root.get? (frame.index :: frame.src) = some child) : weigh w child = 0 := by
  have running := coherent.running _ _ _ copying.control
  have rest := settled.nodeExpand running.walk (by simp [copying.control])
  obtain ⟨r, below⟩ := (running.reaches frame List.mem_cons_self).2
  obtain ⟨node, label, _⟩ := running.serves
  obtain ⟨children, there⟩ := get?_of_label?_inl label
  have parts := rightOf_add_above_le (w := w) there
  rw [pending_copying copying.control, labelWeight_of_get? there, label_node, ahead] at rest
  rw [weigh_node] at parts
  have none : (children.map (weigh w)).sum = 0 := by omega
  have split : frame.index :: frame.src = (frame.index :: r) ++ s.current := by
    rw [← below, List.cons_append]
  rw [split, get?_append, there, Option.bind_some] at inTree
  rw [weigh_eq_zero_iff]
  intro p l inside
  have outer : (Tree.node node children).label? (p ++ frame.index :: r) = some l := by
    rw [label?_append, inTree, Option.bind_some, inside]
  rcases List.eq_nil_or_concat (p ++ frame.index :: r) with empty | ⟨front, k, whole⟩
  · simp at empty
  · rw [whole, List.concat_eq_append, label?_append] at outer
    obtain ⟨first, member, deeper⟩ := Option.bind_eq_some_iff.mp outer
    have child : first ∈ children := List.mem_of_getElem? (by simpa [get?_cons] using member)
    have zero : weigh w first = 0 :=
      List.sum_eq_zero_iff.mp none _ (List.mem_map_of_mem child)
    exact weigh_eq_zero_iff.mp zero front l deeper

private theorem Settled.of_second {t : State} (walk : t.walk = .inheritExpand)
    (none : weigh w t.root = 0) : Settled w t :=
  ⟨(fun first => by cases walk.symm.trans first), fun _ => none⟩

/-- A round inside `Copy` that keeps the tree and the weight keeps the account. -/
private theorem Settled.of_copying (settled : Settled w s) {job job' : Job}
    {hasNext hasNext' : Bool} {frames frames' : List CopyFrame}
    (control : s.control = .copy job hasNext frames)
    (control' : t.control = .copy job' hasNext' frames')
    (walk : t.walk = s.walk) (weight : weigh w t.root = weigh w s.root)
    (parts : ahead w t.root t.current = ahead w s.root s.current)
    (own : labelWeight w t.root t.current = labelWeight w s.root s.current) : Settled w t := by
  refine ⟨fun first _ => ?_, fun second => ?_⟩
  · rw [weight, settled.nodeExpand (walk ▸ first) (by simp [control]),
      pending_copying control, pending_copying control', parts, own]
  · rw [weight, settled.inheritExpand (walk ▸ second)]

private theorem Settled.of_down {object : AstObject} (settled : Settled w s)
    (control : s.control = .walk) (walk : s.walk = .nodeExpand)
    (there : s.root.get? s.current = some object) (inner : object.children ≠ [])
    (first : s.preVisited = false) :
    Settled w { s with current := 0 :: s.current, preVisited := false, control := .walk } := by
  refine ⟨fun _ _ => ?_, fun second => by cases walk.symm.trans second⟩
  rw [pending_of_down control there inner first]
  exact settled.nodeExpand walk (by simp [control])

/-- Giving the visited object a label without weight settles it. -/
private theorem Settled.relabel_current {object : AstObject} {f : ConfigNode → ConfigNode}
    {g : Leaf → Leaf} (settled : Settled w s) (visit : Visiting s object)
    (cleared : w (object.relabel f g).label = 0) :
    weigh w (s.root.relabelAt s.current f g) =
      ahead w (s.root.relabelAt s.current f g) s.current := by
  have before := settled.nodeExpand visit.walk (by simp [visit.control])
  rw [visit.pending] at before
  have exchange := weigh_relabelAt w visit.there f g
  have parts : ahead w (s.root.relabelAt s.current f g) s.current = ahead w s.root s.current :=
    ahead_modifyAt [] _
  omega

private theorem Settled.resolve {term : ConfigTerm} {uid : ℕ} (settled : Settled w s)
    (visit : Visiting s (.leaf (.term term)))
    (cleared : w (.inr (Leaf.setRefNode uid (.term term))) = 0)
    (leaves : Left { s with root := updateLeaf s.root s.current (Leaf.setRefNode uid) } false
      s.hasNext t) : Settled w t := by
  have same : s.hasNext =
      State.hasNext { s with root := updateLeaf s.root s.current (Leaf.setRefNode uid) } :=
    hasNext_relabel.symm
  rw [same] at leaves
  exact Settled.of_left (s := { s with
    root := updateLeaf s.root s.current (Leaf.setRefNode uid) }) visit.walk leaves
    (settled.relabel_current visit cleared)

private theorem Settled.move_term {node : ConfigNode} {children : List AstObject}
    {child : AstObject}
    {leaf : Leaf} {copied : Value} {ref : Pos} (settled : Settled w s) (clearing : Clearing w)
    (visit : Visiting s (.node node children)) (own : w (.inl node) = 0)
    (there : s.root.get? ref = some (.leaf leaf))
    (first : s.root.get? (0 :: s.current) = some child)
    (copies : leaf.getValue.copyFrom child = some copied)
    (leaves : Left {
      s with
      root := (updateLeaf s.root ref (Leaf.setValue copied)).eraseAt (0 :: s.current) } false
      s.hasNext t) : Settled w t := by
  set moved := updateLeaf s.root ref (Leaf.setValue copied) with hmoved
  have payload := clearing.payload leaf child copied copies
  have before := settled.nodeExpand visit.walk (by simp [visit.control])
  rw [visit.pending, label_node, own, add_zero] at before
  have weight : weigh w moved = weigh w s.root := weigh_updateLeaf there payload
  have exists_ : (s.root.get? s.current).isSome := by rw [visit.there]; rfl
  have parts : ahead w moved s.current = ahead w s.root s.current :=
    ahead_relabelAt there payload exists_
  have again : (moved.label? (0 :: s.current)).isSome := by
    rw [hmoved, updateLeaf, isSome_label?_relabelAt, label?_of_get? first]
    rfl
  obtain ⟨_, label⟩ := Option.isSome_iff_exists.mp again
  obtain ⟨dropped, dropThere, _⟩ := label?_eq_some.mp label
  obtain ⟨a, cs, above, inside⟩ := exists_node_of_child dropThere
  have split : ahead w moved s.current + weigh w (.node a cs) ≤ weigh w moved :=
    rightOf_add_above_le above
  have part : weigh w dropped ≤ weigh w (.node a cs) := by
    rw [weigh_node]
    exact (List.single_le_sum (by simp) _
      (List.mem_map_of_mem (List.mem_of_getElem? inside))).trans (Nat.le_add_left _ _)
  have erase := weigh_eraseAt w dropThere
  have kept : ahead w (moved.eraseAt (0 :: s.current)) s.current = ahead w s.root s.current :=
    ahead_moveTerm there payload exists_
  rw [← hasNext_moveTerm ref (Leaf.setValue copied)] at leaves
  refine Settled.of_left (s := { s with root := moved.eraseAt (0 :: s.current) }) visit.walk
    leaves ?_
  change weigh w (moved.eraseAt (0 :: s.current)) =
    ahead w (moved.eraseAt (0 :: s.current)) s.current
  omega

private theorem Settled.move_value {node : ConfigNode} {children : List AstObject} {leaf : Leaf}
    {copied : Value} {ref : Pos} (settled : Settled w s) (clearing : Clearing w)
    (coherent : Coherent s) (visit : Visiting s (.node node children))
    (marked : node.nodeType = .ref) (there : s.root.get? ref = some (.leaf leaf))
    (copies : leaf.getValue.copyFrom (.node node children) = some copied)
    (leaves : Left {
      s with
      root := (updateLeaf s.root ref (Leaf.setValue copied)).eraseAt s.current } true
      s.hasNext t) : Settled w t := by
  set moved := updateLeaf s.root ref (Leaf.setValue copied) with hmoved
  have label := label?_of_get? visit.there
  have inner : s.current ≠ [] := coherent.current_ne_nil label (by simp [marked])
  have payload := clearing.payload leaf _ copied copies
  have before := settled.nodeExpand visit.walk (by simp [visit.control])
  rw [visit.pending, label_node] at before
  have weight : weigh w moved = weigh w s.root := weigh_updateLeaf there payload
  have exists_ : (s.root.get? s.current).isSome := by rw [visit.there]; rfl
  have parts : ahead w moved s.current = ahead w s.root s.current :=
    ahead_relabelAt there payload exists_
  obtain ⟨children', current⟩ := get?_of_label?_inl (label?_updateLeaf_inl (q := ref)
    (f := Leaf.setValue copied) label)
  have next : s.hasNext = State.hasNext { s with root := moved } := hasNext_relabel.symm
  rw [next] at leaves
  exact Settled.of_left_removed (s := { s with root := moved }) visit.walk inner leaves
    (weigh_eraseAt_current current inner (by rw [weight, before, parts, label_node]))

/-- A step keeps the weight on pending objects, unless it appends objects of that
weight or leaves a reference of that weight standing. -/
theorem Settled.preserved (clearing : Clearing w) (coherent : Coherent s) (settled : Settled w s)
    (appends : ∀ job dst child, Appends s job dst child → weigh w (build s.fresh child) = 0)
    (moves : ∀ node children ref term, Visiting s (.node node children) → node.nodeType = .ref →
      Refers s node ref → s.root.get? ref = some (.leaf (.term term)) → w (.inl node) = 0)
    (goes : step s = .next t) : Settled w t := by
  cases stepped goes with
  | endless => exact settled
  | down control walk there inner first => exact settled.of_down control walk there inner first
  | passed visit rests leaves =>
    refine .of_left visit.walk leaves ?_
    have before := settled.nodeExpand visit.walk (by simp [visit.control])
    rwa [visit.pending, clearing.restful _ rests, add_zero] at before
  | removed visit dead leaves =>
    have inner := coherent.current_ne_nil_of_deleted visit.there dead
    refine .of_left_removed visit.walk inner leaves (weigh_eraseAt_current visit.there inner ?_)
    rw [settled.nodeExpand visit.walk (by simp [visit.control]), visit.pending]
  | resolved visit value found target leaves =>
    exact settled.resolve visit (clearing.refNode _ _ _ value) leaves
  | refStarts visit =>
    refine ⟨fun _ _ => ?_, fun second => by cases visit.walk.symm.trans second⟩
    rw [pending_copying rfl, settled.nodeExpand visit.walk (by simp [visit.control]),
      visit.pending, labelWeight_of_get? visit.there]
  | @copyStarts node children _ visit =>
    refine ⟨fun _ _ => ?_, fun second => by cases visit.walk.symm.trans second⟩
    have cleared : w (.inl { node with nodeType := .noref }) = 0 :=
      clearing.restful (.node { node with nodeType := .noref } children) rfl
    have rest := settled.relabel_current (g := id)
      (f := fun node => { node with nodeType := .noref })
      visit cleared
    have own : labelWeight w (updateNode s.root s.current fun node =>
        { node with nodeType := .noref }) s.current = 0 := by
      rw [labelWeight, updateNode, label?_relabelAt_self, label?_of_get? visit.there]
      exact cleared
    rw [pending_copying rfl]
    dsimp only
    rw [own, add_zero]
    exact rest
  | termMoved visit marked refers there first copies leaves =>
    exact settled.move_term clearing visit (moves _ _ _ _ visit marked refers there) there first
      copies leaves
  | valueMoved visit marked refers there copies leaves =>
    exact settled.move_value clearing coherent visit marked there copies leaves
  | stuck => exact ⟨fun _ going => absurd rfl going, settled.inheritExpand⟩
  | popped control => exact settled.of_copying control rfl rfl rfl rfl rfl
  | @appended job _ frame frames child copying absent =>
    have running := coherent.running _ _ _ copying.control
    obtain ⟨_, _, there⟩ := (running.node frame List.mem_cons_self).get?
    have weightless := appends job frame.dst child ⟨_, frame, frames, copying, rfl, absent⟩
    obtain ⟨_, label, _⟩ := running.serves
    have exists_ : (s.root.label? s.current).isSome := by rw [label]; rfl
    refine settled.of_copying copying.control rfl rfl ?_ ?_ (labelWeight_appendAt there exists_)
    · exact (weigh_appendAt w there).trans (by rw [weightless, add_zero])
    · exact ahead_appendAt there weightless (by simpa [label?] using exists_)
  | pushed copying | skipped copying => exact settled.of_copying copying.control rfl rfl rfl rfl rfl
  | overwritten copying present overwrites there fits copies =>
    have payload := clearing.payload _ _ _ copies
    obtain ⟨_, label, _⟩ := (coherent.running _ _ _ copying.control).serves
    have exists_ : (s.root.label? s.current).isSome := by rw [label]; rfl
    refine settled.of_copying copying.control rfl rfl (weigh_updateLeaf there payload)
      (ahead_relabelAt there payload (by simpa [label?] using exists_)) ?_
    exact labelWeight_relabelAt there payload _
  | copied control leaves =>
    have running := coherent.running _ _ _ control
    obtain ⟨node, label, plain⟩ := running.serves
    obtain ⟨children, there⟩ := get?_of_label?_inl label
    rw [running.hasNext running.walk] at leaves
    refine .of_left running.walk leaves ?_
    have cleared : w (.inl node) = 0 :=
      clearing.restful (.node node children) (by
        have : node.nodeType = .noref := plain
        simp [restful, ConfigNode.unexpanded, this])
    rw [settled.nodeExpand running.walk (by simp [control]), pending_copying control,
      labelWeight_of_get? there, label_node, cleared, add_zero]
  | referred control leaves =>
    have running := coherent.running _ _ _ control
    obtain ⟨node, label, marked⟩ := running.serves
    obtain ⟨children, there⟩ := get?_of_label?_inl label
    have inner : s.current ≠ [] := coherent.current_ne_nil label (by
      have : node.nodeType = .ref := marked
      simp [this])
    rw [running.hasNext running.walk] at leaves
    refine .of_left_removed running.walk inner leaves (weigh_eraseAt_current there inner ?_)
    rw [settled.nodeExpand running.walk (by simp [control]), pending_copying control,
      labelWeight_of_get? there]
  | inherited control there base goes =>
    have walk := (coherent.running _ _ _ control).walk
    refine .of_second (goes.walk_of_second walk) ?_
    rw [goes.root, ← settled.inheritExpand walk]
    have current := isNode_of_get? there
    exact (weigh_updateNode (isNode_updateNode current) fun node =>
      clearing.inherit node _ _ _).trans
      (weigh_updateNode (isNode_of_get? base) fun node => clearing.inherit node _ _ _)
  | back control walk there again leaves =>
    refine .of_second (leaves.walk_of_second walk) ?_
    rw [leaves.root, settled.inheritExpand walk]
  | forth enter plain goes =>
    refine .of_second (goes.walk_of_second enter.walk) ?_
    rw [goes.root, settled.inheritExpand enter.walk]
  | inheritStarts enter => exact .of_second enter.walk (settled.inheritExpand enter.walk)

end

end Hdf.HcGen
