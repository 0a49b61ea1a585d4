import Hdf.HcGen.ExpandSteps
import Hdf.HcGen.Merged

/-!
# The nested loops of an expansion stay in step

While a `Copy` runs, the walk that started it waits at its current node. The
copies are appended to the target of a node reference, which the current node
does not lie under, or to the current node itself; so what the walk found out
about its next sibling before it called back is still right when it goes on.

## Main results

* `Coherent.preserved`, `Coherent.of_reaches`: the invariant holds in every state reached
* `Ast.Expands.last`: the tree an expansion leaves is that of its last state
-/

namespace Hdf.HcGen

open Transition
open Hdf.Tree hiding node leaf

/-! ### Looking up children -/

theorem exists_node_of_type {object : AstObject} (h : type object = .confNode) :
    ∃ node children, object = .node node children := by
  cases object with
  | node node children => exact ⟨node, children, rfl⟩
  | leaf leaf =>
    cases leaf with
    | term term => cases h
    | value value =>
      cases value with
      | datum d => cases d <;> cases h
      | nodeRef path | delete | array => cases h

/-- The position holds a node. -/
def IsNode (root : AstObject) (p : Pos) : Prop := ∃ node, root.label? p = some (.inl node)

theorem isNode_of_get? {root : AstObject} {p : Pos} {node : ConfigNode} {children : List AstObject}
    (h : root.get? p = some (.node node children)) : IsNode root p := ⟨node, label?_of_get? h⟩

theorem get?_of_label?_inl {root : AstObject} {p : Pos} {node : ConfigNode}
    (h : root.label? p = some (.inl node)) :
    ∃ children, root.get? p = some (.node node children) := by
  obtain ⟨object, there, label⟩ := label?_eq_some.mp h
  cases object with
  | leaf leaf => cases label
  | node node' children => cases label; exact ⟨children, there⟩

theorem IsNode.get? {root : AstObject} {p : Pos} (h : IsNode root p) :
    ∃ node children, root.get? p = some (.node node children) := by
  obtain ⟨node, label⟩ := h
  obtain ⟨children, there⟩ := get?_of_label?_inl label
  exact ⟨node, children, there⟩

theorem isNode_of_lookupIndex {root : AstObject} {p : Pos} {wanted : Bytes} {i : ℕ}
    (h : lookupIndex (root.childrenAt p) wanted (some .confNode) = some i) :
    IsNode root (i :: p) := by
  obtain ⟨child, there, _, isNode⟩ := lookupIndex_spec h
  obtain ⟨node, children, rfl⟩ := exists_node_of_type isNode
  rw [getElem?_childrenAt] at there
  exact isNode_of_get? there

theorem label?_updateLeaf_inl {root : AstObject} {p q : Pos} {f : Leaf → Leaf} {node : ConfigNode}
    (h : root.label? p = some (.inl node)) : (updateLeaf root q f).label? p = some (.inl node) := by
  by_cases same : p = q
  · subst same
    rw [updateLeaf, label?_relabelAt_self, h]
    rfl
  · rw [updateLeaf, label?_relabelAt_of_ne same, h]

theorem isNode_updateNode {root : AstObject} {p q : Pos} {f : ConfigNode → ConfigNode}
    (h : IsNode root p) : IsNode (updateNode root q f) p := by
  obtain ⟨node, label⟩ := h
  by_cases same : p = q
  · subst same
    exact ⟨f node, by rw [updateNode, label?_relabelAt_self, label]; rfl⟩
  · exact ⟨node, by rw [updateNode, label?_relabelAt_of_ne same, label]⟩

theorem weigh_updateLeaf {M : Type*} [AddCancelCommMonoid M] {w : Label → M} {root : AstObject}
    {q : Pos} {leaf : Leaf} {f : Leaf → Leaf} (there : root.get? q = some (.leaf leaf))
    (same : w (.inr (f leaf)) = w (.inr leaf)) : weigh w (updateLeaf root q f) = weigh w root := by
  have exchange := weigh_relabelAt w there id f
  rw [label_leaf, Tree.relabel, label_leaf, same] at exchange
  exact add_right_cancel exchange

theorem weigh_updateNode {M : Type*} [AddCancelCommMonoid M] {w : Label → M} {root : AstObject}
    {q : Pos} {f : ConfigNode → ConfigNode} (there : IsNode root q)
    (same : ∀ node, w (.inl (f node)) = w (.inl node)) :
    weigh w (updateNode root q f) = weigh w root := by
  obtain ⟨node, children, there⟩ := there.get?
  have exchange := weigh_relabelAt w there f id
  rw [label_node, Tree.relabel, label_node, same] at exchange
  exact add_right_cancel exchange

/-! ### The invariant -/

/-- The kind of node whose callback starts a job. -/
def Job.Serves (node : ConfigNode) : Job → Prop
  | nodeRef => node.nodeType = .ref
  | nodeCopy => node.nodeType = .noref
  | inherit _ => node.nodeType = .inherit

/-- The walk a job belongs to. -/
def Job.walk : Job → Walk
  | nodeRef => .nodeExpand
  | nodeCopy => .nodeExpand
  | inherit _ => .inheritExpand

/-- Where a job's `Copy` reads and writes while the walk waits at `current`. -/
def Job.Reaches (current : Pos) (frame : CopyFrame) : Job → Prop
  | nodeRef => ¬ frame.dst <:+ current ∧ current <:+ frame.src
  | nodeCopy => current <:+ frame.dst
  | inherit _ => current <:+ frame.dst

/-- A running `Copy` belongs to the node the walk waits at. -/
structure Running (s : State) (job : Job) (hasNext : Bool) (frames : List CopyFrame) : Prop where
  serves : ∃ node, s.root.label? s.current = some (.inl node) ∧ job.Serves node
  walk : s.walk = job.walk
  hasNext : s.walk = .nodeExpand → hasNext = s.hasNext
  reaches : ∀ frame ∈ frames, job.Reaches s.current frame
  node : ∀ frame ∈ frames, IsNode s.root frame.dst

/-- The root is a plain node, and the job in progress fits the walk. -/
structure Coherent (s : State) : Prop where
  root : PlainRoot s.root
  running : ∀ job hasNext frames, s.control = .copy job hasNext frames →
    Running s job hasNext frames

/-- A node that refers to another one is not the root. -/
theorem Coherent.current_ne_nil {s : State} (h : Coherent s) {node : ConfigNode}
    (label : s.root.label? s.current = some (.inl node)) (marked : node.nodeType ≠ .noref) :
    s.current ≠ [] := by
  intro top
  obtain ⟨plain, same, noref⟩ := h.root
  rw [top, same] at label
  cases label
  exact marked noref

theorem Coherent.current_ne_nil_of_deleted {s : State} (h : Coherent s) {object : AstObject}
    (there : s.root.get? s.current = some object) (dead : deleted object = true) :
    s.current ≠ [] := by
  cases object with
  | node node children =>
    refine h.current_ne_nil (label?_of_get? there) fun plain => ?_
    simp [deleted, plain] at dead
  | leaf leaf =>
    intro top
    obtain ⟨plain, same, _⟩ := h.root
    rw [top] at there
    rw [label?_of_get? there] at same
    cases same

theorem Job.Reaches.push {current : Pos} {frame : CopyFrame} {job : Job} {i : ℕ}
    (h : job.Reaches current frame) :
    job.Reaches current ⟨i :: frame.dst, frame.index :: frame.src, 0⟩ := by
  have up (p : Pos) (k : ℕ) : p <:+ k :: p := List.suffix_cons k p
  cases job with
  | nodeRef => exact ⟨fun below => h.1 ((up _ i).trans below), h.2.trans (up _ _)⟩
  | nodeCopy | inherit template => exact List.IsSuffix.trans h (up _ i)

/-- A job never writes into the child list that its walk is in. -/
theorem Job.Reaches.dst_not_above {i : ℕ} {parent : Pos} {frame : CopyFrame} {job : Job}
    (h : job.Reaches (i :: parent) frame) : ¬ frame.dst <:+ parent := by
  intro above
  have inside : ¬ i :: parent <:+ frame.dst := fun below => by
    have := below.length_le.trans above.length_le
    simp at this
  cases job with
  | nodeRef => exact h.1 (above.trans (List.suffix_cons i parent))
  | nodeCopy | inherit template => exact inside h

theorem hasNext_eq_of_label? {s t : State} (current : t.current = s.current)
    (same : ∀ i parent, s.current = i :: parent →
      (t.root.label? ((i + 1) :: parent)).isSome = (s.root.label? ((i + 1) :: parent)).isSome) :
    t.hasNext = s.hasNext := by
  unfold State.hasNext
  rw [current]
  split
  · rfl
  · rename_i i parent split
    simpa [label?] using same i parent split

private theorem hasNext_append {s : State} {q : Pos} {child : AstObject} {node : ConfigNode}
    {children : List AstObject} (there : s.root.get? q = some (.node node children))
    (outside : ∀ i parent, s.current = i :: parent → ¬ q <:+ parent) {fresh : ℕ}
    {control : Control} :
    State.hasNext {
      s with root := s.root.appendAt q child, fresh := fresh, control := control } =
      s.hasNext := by
  apply hasNext_eq_of_label?
  · rfl
  · intro i parent split
    have old : ¬ children.length :: q <:+ (i + 1) :: parent := by
      intro below
      rcases List.suffix_cons_iff.mp below with same | below
      · exact outside i parent split (by rw [List.tail_eq_of_cons_eq same])
      · exact outside i parent split ((List.suffix_cons _ q).trans below)
    exact congrArg Option.isSome (label?_appendAt_old there old)

theorem isSome_label?_relabelAt {root : AstObject} {p q : Pos}
    {f : ConfigNode → ConfigNode} {g : Leaf → Leaf} :
    ((root.relabelAt q f g).label? p).isSome = (root.label? p).isSome := by
  by_cases same : p = q
  · subst same
    rw [label?_relabelAt_self, Option.isSome_map]
  · rw [label?_relabelAt_of_ne same]

theorem hasNext_relabel {s : State} {q : Pos} {f : ConfigNode → ConfigNode} {g : Leaf → Leaf}
    {control : Control} :
    State.hasNext { s with root := s.root.relabelAt q f g, control := control } = s.hasNext :=
  hasNext_eq_of_label? rfl fun _ _ _ => isSome_label?_relabelAt

/-! ### The steps keep the invariant -/

theorem PlainRoot.eraseAt {root : AstObject} (h : PlainRoot root) (p : Pos) :
    PlainRoot (root.eraseAt p) := by
  cases p with
  | nil => exact h
  | cons i p =>
    obtain ⟨node, label, plain⟩ := h
    exact ⟨node, by rw [label?_eraseAt_outside (by simp), label], plain⟩

theorem PlainRoot.updateLeaf {root : AstObject} (h : PlainRoot root) (p : Pos) (f : Leaf → Leaf) :
    PlainRoot (updateLeaf root p f) := by
  obtain ⟨node, label, plain⟩ := h
  exact ⟨node, label?_updateLeaf_inl label, plain⟩

theorem PlainRoot.updateNode {root : AstObject} (h : PlainRoot root) (p : Pos)
    {f : ConfigNode → ConfigNode}
    (keeps : ∀ node, node.nodeType = .noref → (f node).nodeType = .noref) :
    PlainRoot (updateNode root p f) := by
  obtain ⟨node, label, plain⟩ := h
  by_cases same : ([] : Pos) = p
  · subst same
    exact ⟨f node, by rw [HcGen.updateNode, label?_relabelAt_self, label]; rfl, keeps node plain⟩
  · exact ⟨node, by rw [HcGen.updateNode, label?_relabelAt_of_ne same, label], plain⟩

theorem PlainRoot.appendAt {root child : AstObject} (h : PlainRoot root) {p : Pos}
    (there : IsNode root p) : PlainRoot (root.appendAt p child) := by
  obtain ⟨node, label, plain⟩ := h
  obtain ⟨_, _, there⟩ := there.get?
  exact ⟨node, label?_appendAt_of_some there label, plain⟩

private theorem Running.drop {s : State} {job : Job} {hasNext : Bool} {frame : CopyFrame}
    {frames : List CopyFrame} (h : Running s job hasNext (frame :: frames)) :
    Running s job hasNext frames :=
  { h with
    reaches := fun f member => h.reaches f (List.mem_cons_of_mem _ member)
    node := fun f member => h.node f (List.mem_cons_of_mem _ member) }

/-- Counting a child of the innermost call as done changes nothing. -/
private theorem Running.advance {s : State} {job : Job} {hasNext : Bool} {frame : CopyFrame}
    {frames : List CopyFrame} (h : Running s job hasNext (frame :: frames)) :
    Running s job hasNext ({ frame with index := frame.index + 1 } :: frames) where
  serves := h.serves
  walk := h.walk
  hasNext := h.hasNext
  reaches f member := by
    rcases List.mem_cons.mp member with rfl | later
    · have head := h.reaches frame List.mem_cons_self
      cases job <;> exact head
    · exact h.reaches f (List.mem_cons_of_mem _ later)
  node f member := by
    rcases List.mem_cons.mp member with rfl | later
    · exact h.node frame List.mem_cons_self
    · exact h.node f (List.mem_cons_of_mem _ later)

/-- Moving the control does not matter to a running job. -/
private theorem Running.setControl {s : State} {job : Job} {hasNext : Bool}
    {frames : List CopyFrame} (h : Running s job hasNext frames) (control : Control) :
    Running { s with control := control } job hasNext frames :=
  ⟨h.serves, h.walk, h.hasNext, h.reaches, h.node⟩

private theorem Running.push {s : State} {job : Job} {hasNext : Bool} {frame : CopyFrame}
    {frames : List CopyFrame} {wanted : Bytes} {i : ℕ}
    (h : Running s job hasNext (frame :: frames))
    (present : lookupIndex (s.root.childrenAt frame.dst) wanted (some .confNode) = some i) :
    Running s job hasNext (⟨i :: frame.dst, frame.index :: frame.src, 0⟩ ::
      { frame with index := frame.index + 1 } :: frames) where
  serves := h.serves
  walk := h.walk
  hasNext := h.hasNext
  reaches f member := by
    rcases List.mem_cons.mp member with rfl | later
    · exact (h.reaches frame List.mem_cons_self).push
    · exact h.advance.reaches f later
  node f member := by
    rcases List.mem_cons.mp member with rfl | later
    · exact isNode_of_lookupIndex present
    · exact h.advance.node f later

private theorem Running.append {s : State} {job : Job} {hasNext : Bool} {frame : CopyFrame}
    {frames : List CopyFrame} (h : Running s job hasNext (frame :: frames)) (child : AstObject)
    (fresh : ℕ) (control : Control) :
    Running { s with root := s.root.appendAt frame.dst child, fresh := fresh, control := control }
      job hasNext (frame :: frames) := by
  obtain ⟨node, children, there⟩ := (h.node frame List.mem_cons_self).get?
  have keeps {p : Pos} {l : Label} (label : s.root.label? p = some l) :
      (s.root.appendAt frame.dst child).label? p = some l := label?_appendAt_of_some there label
  refine ⟨?_, h.walk, ?_, h.reaches, ?_⟩
  · obtain ⟨served, label, kind⟩ := h.serves
    exact ⟨served, keeps label, kind⟩
  · intro walk
    rw [h.hasNext walk]
    refine (hasNext_append there ?_).symm
    intro i parent split
    have reach := h.reaches frame List.mem_cons_self
    rw [split] at reach
    exact reach.dst_not_above
  · intro f member
    obtain ⟨node, label⟩ := h.node f member
    exact ⟨node, keeps label⟩

private theorem Running.updateLeaf {s : State} {job : Job} {hasNext : Bool}
    {frames : List CopyFrame} (h : Running s job hasNext frames) (p : Pos) (f : Leaf → Leaf)
    (control : Control) :
    Running { s with root := updateLeaf s.root p f, control := control } job hasNext frames := by
  refine ⟨?_, h.walk, ?_, h.reaches, ?_⟩
  · obtain ⟨served, label, kind⟩ := h.serves
    exact ⟨served, label?_updateLeaf_inl label, kind⟩
  · intro walk
    rw [h.hasNext walk]
    exact hasNext_relabel.symm
  · intro frame member
    obtain ⟨node, label⟩ := h.node frame member
    exact ⟨node, label?_updateLeaf_inl label⟩

/-- Once the walk is in control again there is no job to speak of. -/
private theorem Coherent.of_walk {t : State} (root : PlainRoot t.root)
    (control : t.control = .walk) :
    Coherent t :=
  ⟨root, fun _ _ _ running => by rw [control] at running; cases running⟩

private theorem Coherent.of_running {t : State} {job : Job} {hasNext : Bool}
    {frames : List CopyFrame} (root : PlainRoot t.root)
    (control : t.control = .copy job hasNext frames)
    (running : Running t job hasNext frames) : Coherent t :=
  ⟨root, fun _ _ _ same => by rw [control] at same; cases same; exact running⟩

theorem Coherent.preserved {s t : State} (h : Coherent s) (goes : step s = .next t) :
    Coherent t := by
  have root : PlainRoot s.root := h.root
  cases stepped goes with
  | endless => exact h
  | down => exact .of_walk root rfl
  | passed _ _ leaves => exact .of_walk (leaves.root ▸ root) leaves.control
  | removed _ _ leaves => exact .of_walk (leaves.root ▸ root.eraseAt _) leaves.control
  | resolved _ _ _ _ leaves => exact .of_walk (leaves.root ▸ root.updateLeaf _ _) leaves.control
  | refStarts visit marked refers there =>
    refine .of_running root rfl ⟨⟨_, label?_of_get? visit.there, marked⟩, visit.walk, fun _ => rfl,
      ?_, ?_⟩ <;> simp only [List.mem_singleton, forall_eq]
    · exact ⟨refers.stranger, List.suffix_rfl⟩
    · exact isNode_of_get? there
  | @copyStarts node _ _ visit =>
    refine .of_running (root.updateNode _ fun _ _ => rfl) rfl ⟨?_, visit.walk, ?_, ?_, ?_⟩
    · refine ⟨{ node with nodeType := .noref }, ?_, rfl⟩
      rw [updateNode, label?_relabelAt_self, label?_of_get? visit.there]
      rfl
    · intro _
      exact hasNext_relabel.symm
    · simp only [List.mem_singleton, forall_eq]
      exact List.suffix_rfl
    · simp only [List.mem_singleton, forall_eq]
      exact isNode_updateNode (isNode_of_get? visit.there)
  | termMoved _ _ _ _ _ _ leaves =>
    refine .of_walk ?_ leaves.control
    rw [leaves.root]
    exact (root.updateLeaf _ _).eraseAt (0 :: s.current)
  | valueMoved _ _ _ _ _ leaves =>
    refine .of_walk ?_ leaves.control
    rw [leaves.root]
    exact (root.updateLeaf _ _).eraseAt _
  | stuck => exact ⟨root, fun _ _ _ same => by cases same⟩
  | popped control => exact .of_running root rfl ((h.running _ _ _ control).drop.setControl _)
  | appended copying =>
    have running := h.running _ _ _ copying.control
    exact .of_running (root.appendAt (running.node _ List.mem_cons_self)) rfl
      ((running.append _ _ _).advance)
  | pushed copying present =>
    exact .of_running root rfl (((h.running _ _ _ copying.control).push present).setControl _)
  | skipped copying =>
    exact .of_running root rfl ((h.running _ _ _ copying.control).advance.setControl _)
  | overwritten copying =>
    exact .of_running (root.updateLeaf _ _) rfl
      ((h.running _ _ _ copying.control).advance.updateLeaf _ _ _)
  | copied _ leaves => exact .of_walk (leaves.root ▸ root) leaves.control
  | referred _ leaves => exact .of_walk (leaves.root ▸ root.eraseAt _) leaves.control
  | inherited _ _ _ goes =>
    refine .of_walk ?_ goes.control
    rw [goes.root]
    refine (root.updateNode _ ?_).updateNode _ ?_ <;> exact fun _ plain => plain
  | back _ _ _ _ leaves => exact .of_walk (leaves.root ▸ root) leaves.control
  | forth _ _ goes => exact .of_walk (goes.root ▸ root) goes.control
  | inheritStarts enter marked found =>
    refine .of_running root rfl ⟨⟨_, label?_of_get? enter.there, marked⟩, enter.walk, ?_, ?_, ?_⟩
    · intro walk
      rw [enter.walk] at walk
      cases walk
    · simp only [List.mem_singleton, forall_eq]
      exact List.suffix_rfl
    · simp only [List.mem_singleton, forall_eq]
      exact isNode_of_get? enter.there

/-! ### How an expansion returns -/

section

variable {s : State} {root : AstObject}

private theorem leave_eq_halt {removed hasNext : Bool} {outcome : Outcome}
    (h : leave s removed hasNext = .halt outcome) :
    s.walk = .inheritExpand ∧ s.current = [] ∧ outcome = .returned true s.root := by
  unfold leave at h
  split at h
  case h_1 top =>
    split at h
    case h_1 => cases h
    case h_2 second => cases h; exact ⟨second, top, rfl⟩
  case h_2 => split at h <;> cases h

private theorem forward_eq_halt (h : forward s = .halt (.returned true root)) :
    s.walk = .inheritExpand ∧ s.current = [] ∧ root = s.root := by
  unfold forward at h
  split at h
  case h_1 => cases h
  case h_2 =>
    split at h
    case isTrue =>
      obtain ⟨second, top, same⟩ := leave_eq_halt h
      cases same
      exact ⟨second, top, rfl⟩
    case isFalse => cases h

private theorem leave_ne_true {removed hasNext : Bool} (first : s.walk = .nodeExpand) :
    leave s removed hasNext ≠ .halt (.returned true root) := by
  intro h
  cases first.symm.trans (leave_eq_halt h).1

private theorem nodeRefOrCopy_ne_true {node : ConfigNode} {hasNext : Bool}
    (first : s.walk = .nodeExpand) :
    nodeRefOrCopy s node hasNext ≠ .halt (.returned true root) := by
  unfold nodeRefOrCopy
  split
  · intro h
    cases h
  · split
    · intro h
      cases h
    · split
      · unfold nodeRefExpand
        split
        · intro h
          cases h
        · intro h
          cases h
        · unfold termMove
          split
          · split <;> (intro h; cases h)
          · split
            · exact leave_ne_true first
            · intro h
              cases h
        · unfold valueMove
          split
          · intro h
            cases h
          · split
            · exact leave_ne_true first
            · intro h
              cases h
      · intro h
        cases h

private theorem nodeExpandVisit_ne_true {object : AstObject} (first : s.walk = .nodeExpand) :
    nodeExpandVisit s object ≠ .halt (.returned true root) := by
  unfold nodeExpandVisit
  split
  · split
    · exact leave_ne_true first
    · exact nodeRefOrCopy_ne_true first
    · exact nodeRefOrCopy_ne_true first
    · exact leave_ne_true first
  · split
    · exact leave_ne_true first
    · unfold termRefExpand
      split
      · intro h
        cases h
      · exact leave_ne_true first
    · exact leave_ne_true first
  · exact leave_ne_true first

private theorem copyLeaf_ne_true {job : Job} {hasNext : Bool} {frames : List CopyFrame} {dst : Pos}
    {src : Leaf} : copyLeaf s job hasNext frames dst src ≠ .halt (.returned true root) := by
  unfold copyLeaf
  split
  · intro h
    cases h
  · split
    · split
      · split <;> (intro h; cases h)
      · intro h
        cases h
    · intro h
      cases h

private theorem copyStep_ne_true {job : Job} {hasNext : Bool} {frame : CopyFrame}
    {frames : List CopyFrame} :
    copyStep s job hasNext (frame :: frames) ≠ .halt (.returned true root) := by
  simp only [copyStep]
  split
  · intro h
    cases h
  · split
    · intro h
      cases h
    · split
      · intro h
        cases h
      · split
        · intro h
          cases h
        · exact copyLeaf_ne_true

/-- An expansion returns true at the end of its second walk only, with the tree
of its last state. -/
theorem Coherent.returns_true (h : Coherent s) (halts : step s = .halt (.returned true root)) :
    s.walk = .inheritExpand ∧ root = s.root := by
  unfold step at halts
  split at halts
  case h_1 => cases halts
  case h_2 job hasNext frames control =>
    cases frames with
    | cons frame frames => exact absurd halts copyStep_ne_true
    | nil =>
      have running := h.running _ _ _ control
      rw [copyStep] at halts
      cases job with
      | nodeCopy => exact absurd halts (leave_ne_true running.walk)
      | nodeRef =>
        rw [finishJob] at halts
        exact absurd halts (leave_ne_true running.walk)
      | inherit template =>
        rw [finishJob] at halts
        split at halts
        case h_1 node children templateNode below there base =>
          split at halts
          case isTrue =>
            -- the node that inherits is not the root, so the walk is not at its end
            obtain ⟨served, label, marked⟩ := running.serves
            have inner := (forward_eq_halt halts).2.1
            obtain ⟨plain, top, noref⟩ := h.root
            rw [show s.current = [] from inner, top] at label
            cases label
            cases noref.symm.trans marked
          case isFalse => cases halts
        case h_2 => cases halts
  case h_3 control =>
    split at halts
    case h_1 first =>
      unfold walkBackward at halts
      split at halts
      case h_1 => cases halts
      case h_2 =>
        split at halts
        case isTrue => exact absurd halts (nodeExpandVisit_ne_true first)
        case isFalse => cases halts
    case h_2 second =>
      unfold walkForward at halts
      split at halts
      case h_1 => cases halts
      case h_2 object there =>
        split at halts
        case isTrue =>
          obtain ⟨_, _, same⟩ := leave_eq_halt halts
          cases same
          exact ⟨second, rfl⟩
        case isFalse =>
          unfold inheritExpandVisit at halts
          split at halts
          case h_1 =>
            split at halts
            case isTrue => exact ⟨second, (forward_eq_halt halts).2.2⟩
            case isFalse => split at halts <;> cases halts
          case h_2 => exact ⟨second, (forward_eq_halt halts).2.2⟩

end

/-! ### Runs -/

/-- A property of the first state that every step from a reached state keeps
holds of every state reached. -/
theorem Ast.Reaches.invariant {I : State → Prop} {ast : Ast} {fresh : ℕ} {s : State}
    (first : ∀ root, ast.astRoot = some root → I (start root fresh))
    (keeps : ∀ s t, ast.Reaches fresh s → I s → step s = .next t → I t)
    (reached : ast.Reaches fresh s) : I s := by
  obtain ⟨root, goes, steps⟩ := reached
  exact Steps.invariant_of_reached (fun t u prior => keeps t u ⟨root, goes, prior⟩)
    (first root (Ast.expand_root goes)) steps

theorem Ast.Reaches.next {ast : Ast} {fresh : ℕ} {s t : State} (reached : ast.Reaches fresh s)
    (goes : step s = .next t) : ast.Reaches fresh t := by
  obtain ⟨root, first, steps⟩ := reached
  exact ⟨root, first, steps.tail goes⟩

/-- Every state of an expansion is coherent. -/
theorem Coherent.of_reaches {ast : Ast} {fresh : ℕ} {s : State} (merged : ast.Merged)
    (reached : ast.Reaches fresh s) : Coherent s :=
  reached.invariant (fun root there => .of_walk (merged.plain root there) rfl)
    fun _ _ _ h goes => h.preserved goes

/-- An expansion that returns true leaves the tree of a state of its second walk. -/
theorem Ast.Expands.last {ast : Ast} {fresh : ℕ} {root : AstObject} (merged : ast.Merged)
    (expands : ast.Expands fresh (.returned true root)) :
    ∃ s, ast.Reaches fresh s ∧ s.walk = .inheritExpand ∧ s.root = root := by
  rcases expands with halts | ⟨root', goes, s, steps, halts⟩
  · unfold Ast.expand at halts
    split at halts
    · cases halts
    · split at halts
      · cases halts
      · split at halts <;> cases halts
  · have reached : ast.Reaches fresh s := ⟨root', goes, steps⟩
    obtain ⟨second, same⟩ := (Coherent.of_reaches merged reached).returns_true halts
    exact ⟨s, reached, second, same.symm⟩

end Hdf.HcGen
