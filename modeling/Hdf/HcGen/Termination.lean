import Hdf.HcGen.Evaluation
import Hdf.HcGen.ExpandBounds
import Hdf.HcGen.ExpandPending
import Hdf.Lib.Acyclic
import Hdf.Lib.Measure

/-!
# Termination of the expansion

`Ast::Expand` walks a tree that it changes, and three things can keep it from
ending. `ConfigArray::Copy` appends the first element of its source forever. A
node reference that appends further node references can go on doing so in front
of the walk. A template that inherits from itself unfolds forever. Every run
without these ends.

In `NodeExpand` the node references ahead of the walk become fewer, and between
two of them the walk advances. In `InheritExpand` a node that inherits is
replaced by nodes that inherit from templates of lower rank. Within a `Copy` the
cost of the active calls falls.

## Main definitions

* `CopiesArray`, `ReferredResolved`, `Passes`: what a state is about to do
* `InheritsFrom`: a template passes on nodes that inherit from another one
* `measure`: the measure of a state

## Main results

* `exists_expands`: the expansion ends when no step does one of the three things
* `not_expands_of_copiesArray`: a `Copy` into an array never ends
* `array_overwritten`: a run that comes to such a `Copy`
-/

namespace Hdf.HcGen

open Transition
open Hdf.Tree hiding node leaf

/-! ### The condition -/

/-- A node reference in this state appends no node that is a reference itself. -/
def ReferredResolved (s : State) : Prop :=
  ∀ dst child, Appends s .nodeRef dst child →
    ∀ p node, child.label? p = some (.inl node) → node.nodeType ≠ .ref

/-- A node that inherits by `path` gets a node that inherits by `path'` in this state. -/
def Passes (s : State) (path path' : Bytes) : Prop :=
  ∃ template dst child node p heir, Appends s (.inherit template) dst child ∧
    s.root.label? s.current = some (.inl node) ∧ node.refNodePath = path ∧
    child.label? p = some (.inl heir) ∧ heir.nodeType = .inherit ∧ heir.refNodePath = path'

/-- Some node that inherits by `path` gets a node that inherits by `path'`. -/
def InheritsFrom (ast : Ast) (fresh : ℕ) (path path' : Bytes) : Prop :=
  ∃ s, ast.Reaches fresh s ∧ Passes s path path'

/-! ### The measure -/

/-- The number of node references of a label. -/
def references : Label → ℕ
  | .inl node => if node.nodeType = .ref then 1 else 0
  | .inr _ => 0

/-- Every object counts once. -/
def one : Label → ℕ := fun _ => 1

/-- The rank of the path that a label inherits by, if it does. -/
def heirs (rank : Bytes → ℕ) : Label → Multiset ℕ
  | .inl node => if node.nodeType = .inherit then {rank node.refNodePath} else 0
  | .inr _ => 0

/-- The rank of the path of the current node. -/
def rankAt (rank : Bytes → ℕ) (s : State) : ℕ :=
  ((s.root.label? s.current).map fun l => rank (Label.path l)).getD 0

/-- The weight ahead of `InheritExpand`, which calls back on a node before its children. -/
def coming {M : Type*} [AddCancelCommMonoid M] (w : Label → M) (s : State) : M :=
  rightOf w s.root s.current +
    if s.control = .walk ∧ s.preVisited = true then 0 else weighAt w s.root s.current

/-- The nodes that are still to be resolved. While a node is being filled from its
template, only its own rank and higher ones count. -/
def work (rank : Bytes → ℕ) (s : State) : Multiset ℕ :=
  match s.walk with
  | .nodeExpand => Multiset.replicate (pending references s) 0
  | .inheritExpand =>
    match s.control with
    | .copy .. => (coming (heirs rank) s).filter (rankAt rank s ≤ ·)
    | _ => coming (heirs rank) s

/-- The steps that a walk has left when nothing is appended. -/
def toGo (s : State) : ℕ :=
  match s.walk with
  | .nodeExpand => 2 * pending one s - s.current.length
  | .inheritExpand =>
    2 * coming one s + (s.current.length + if s.preVisited then 1 else 0)

/-- The steps of the walk, between which a node copy takes place. -/
def rounds (s : State) : ℕ :=
  match s.control with
  | .walk => 2 * toGo s + 1
  | .copy .nodeCopy _ _ => 2 * toGo s
  | _ => 0

/-- The rounds of the active `Copy` calls. -/
def copies (bound : ℕ) (s : State) : ℕ :=
  match s.control with
  | .copy _ _ frames => copyCost bound s.root frames
  | _ => 0

/-- The walks still to be done. -/
def phase (s : State) : ℕ :=
  match s.walk with
  | .nodeExpand => 1
  | .inheritExpand => 0

/-- The measure of a state of an expansion. -/
def measure (rank : Bytes → ℕ) (bound : ℕ) (s : State) : ℕ × Multiset ℕ × ℕ × ℕ :=
  (phase s, work rank s, rounds s, copies bound s)

section

variable {M : Type*} [AddCancelCommMonoid M] {w : Label → M} {s t : State} {rank : Bytes → ℕ}
  {bound : ℕ}

/-! ### The second walk -/

theorem Left.depth_le {removed hasNext : Bool} (h : Left s removed hasNext t) :
    (t.current.length + if t.preVisited then 1 else 0) ≤ s.current.length := by
  cases h with
  | sibling current | parent current | walk current => rw [current]; exact le_rfl

theorem coming_of_left (second : s.walk = .inheritExpand) (leaves : Left s false s.hasNext t) :
    coming w t = rightOf w s.root s.current := by
  cases leaves with
  | @sibling i parent current next =>
    have sibling : (s.root.get? ((i + 1) :: parent)).isSome := by
      simpa [State.hasNext, current] using next
    obtain ⟨u, there⟩ := Option.isSome_iff_exists.mp sibling
    rw [coming, if_neg (by simp), current, rightOf_next there, add_comm]
    rfl
  | @parent i parent current last =>
    have no : s.root.get? ((i + 1) :: parent) = none := by
      simpa [State.hasNext, current] using last
    rw [coming, if_pos ⟨rfl, rfl⟩, current, rightOf_last no, add_zero]
  | walk _ first => cases first.symm.trans second

theorem coming_of_went (second : s.walk = .inheritExpand) (went : Went s t) :
    coming w t + labelWeight w s.root s.current =
      rightOf w s.root s.current + weighAt w s.root s.current := by
  cases went with
  | down there inner =>
    rw [coming, if_neg (by simp)]
    exact rightOf_first there inner
  | left there childless leaves =>
    rw [coming_of_left second leaves, weighAt_of_get? there, weigh_eq, childless, List.map_nil,
      List.sum_nil, add_zero, labelWeight_of_get? there]

theorem coming_entering {object : AstObject} (enter : Entering s object) :
    coming w s = rightOf w s.root s.current + weighAt w s.root s.current := by
  rw [coming, if_neg (by simp [enter.first])]

theorem coming_copying {job : Job} {hasNext : Bool} {frames : List CopyFrame}
    (control : s.control = .copy job hasNext frames) :
    coming w s = rightOf w s.root s.current + weighAt w s.root s.current := by
  rw [coming, if_neg (by simp [control])]

end

/-! ### Within a Copy -/

section

variable {s t : State} {job job' : Job} {hasNext hasNext' : Bool} {frames frames' : List CopyFrame}

theorem CopyRound.keeps (round : CopyRound s job hasNext frames t) :
    t.walk = s.walk ∧ t.current = s.current ∧
      ∃ frames', t.control = .copy job hasNext frames' := by
  cases round <;> exact ⟨rfl, rfl, _, rfl⟩

/-- What is ahead of `NodeExpand` stays the same when nothing of weight is appended
by a node reference. -/
theorem CopyRound.pending {w : Label → ℕ} (round : CopyRound s job hasNext frames t)
    (coherent : Coherent s) (control : s.control = .copy job hasNext frames)
    (first : s.walk = .nodeExpand)
    (payload : IgnoresPayload w)
    (clean : ∀ dst child, Appends s .nodeRef dst child → weigh w (build s.fresh child) = 0) :
    pending w t = pending w s := by
  have running := coherent.running _ _ _ control
  obtain ⟨_, label, _⟩ := running.serves
  have labeled : (s.root.label? s.current).isSome := by rw [label]; rfl
  have exists_ : (s.root.get? s.current).isSome := by simpa [label?] using labeled
  obtain ⟨_, _, _, control'⟩ := round.keeps
  rw [pending_copying control, pending_copying control']
  cases round with
  | popped => rfl
  | @appended frame frames child copying absent =>
    obtain ⟨_, _, there⟩ := (running.node frame List.mem_cons_self).get?
    congr 1
    · cases job with
      | nodeRef =>
        exact ahead_appendAt there (clean _ _ ⟨_, frame, frames, copying, rfl, absent⟩) exists_
      | nodeCopy =>
        obtain ⟨r, below⟩ := running.reaches frame List.mem_cons_self
        rw [← below]
        exact ahead_modifyAt r _
      | inherit template => cases first.symm.trans running.walk
    · exact labelWeight_appendAt there labeled
  | pushed | skipped => rfl
  | overwritten _ overwrites _ copies =>
    have same := payload _ _ _ copies
    congr 1
    · exact ahead_relabelAt overwrites.there same exists_
    · exact labelWeight_relabelAt overwrites.there same _

theorem mem_weigh {w : Label → Multiset ℕ} {object : AstObject} {r : ℕ}
    (h : r ∈ weigh w object) : ∃ p l, object.label? p = some l ∧ r ∈ w l := by
  have list (ls : List Label) (member : r ∈ (ls.map w).sum) : ∃ l ∈ ls, r ∈ w l := by
    induction ls with
    | nil => simp at member
    | cons l ls ih =>
      rw [List.map_cons, List.sum_cons, Multiset.mem_add] at member
      rcases member with here | later
      · exact ⟨l, List.mem_cons_self, here⟩
      · obtain ⟨l', inside, there⟩ := ih later
        exact ⟨l', List.mem_cons_of_mem _ inside, there⟩
  obtain ⟨l, inside, there⟩ := list _ h
  obtain ⟨p, label⟩ := mem_labels_iff.mp inside
  exact ⟨p, l, label, there⟩

/-- A node that is being filled gets heirs of lower rank only. -/
theorem heirs_lt {rank : Bytes → ℕ}
    (ranked : ∀ path path', Passes s path path' → rank path' < rank path) {template dst : Pos}
    {child : AstObject} (coherent : Coherent s) (appends : Appends s (.inherit template) dst child)
    {r : ℕ} (member : r ∈ weigh (heirs rank) (build s.fresh child)) : r < rankAt rank s := by
  obtain ⟨hasNext, frame, frames, copying, _⟩ := id appends
  obtain ⟨node, label, _⟩ := (coherent.running _ _ _ copying.control).serves
  obtain ⟨p, l, there, inside⟩ := mem_weigh member
  rw [label?_build] at there
  obtain ⟨l, original, rfl⟩ := Option.map_eq_some_iff.mp there
  have own : rankAt rank s = rank node.refNodePath := by rw [rankAt, label]; rfl
  rw [own]
  rcases l with heir | leaf
  · rw [buildLabel, heirs] at inside
    split at inside
    case isTrue inherits =>
      rw [Multiset.mem_singleton.mp inside]
      exact ranked _ _ ⟨template, dst, child, node, p, heir, appends, label, rfl,
        original, inherits, rfl⟩
    case isFalse => simp at inside
  · cases leaf <;> simp [buildLabel, heirs] at inside

theorem CopyRound.work_inherit {rank : Bytes → ℕ} {template : Pos}
    (round : CopyRound s (.inherit template) hasNext frames t) (coherent : Coherent s)
    (control : s.control = .copy (.inherit template) hasNext frames)
    (ranked : ∀ path path', Passes s path path' → rank path' < rank path) :
    work rank t = work rank s := by
  have running := coherent.running _ _ _ control
  have second : s.walk = .inheritExpand := running.walk
  obtain ⟨node, label, _⟩ := running.serves
  obtain ⟨walk, current, _, control'⟩ := round.keeps
  have value (u : State) (second : u.walk = .inheritExpand) {frames : List CopyFrame}
      (control : u.control = .copy (.inherit template) hasNext frames) :
      work rank u = (rightOf (heirs rank) u.root u.current +
        weighAt (heirs rank) u.root u.current).filter (rankAt rank u ≤ ·) := by
    rw [work, second, control]
    dsimp only
    rw [coming_copying control]
  rw [value t (walk.trans second) control', value s second control]
  cases round with
  | popped => rfl
  | @appended frame frames child copying absent =>
    obtain ⟨_, _, there⟩ := (running.node frame List.mem_cons_self).get?
    have appends : Appends s (.inherit template) frame.dst child :=
      ⟨_, frame, frames, copying, rfl, absent⟩
    have same : rankAt rank { s with root := s.root.appendAt frame.dst (build s.fresh child) } =
        rankAt rank s := by
      rw [rankAt, rankAt, label, label?_appendAt_of_some there label]
    have none : (weigh (heirs rank) (build s.fresh child)).filter (rankAt rank s ≤ ·) = 0 :=
      Multiset.filter_eq_nil.mpr fun r member =>
        not_le.mpr (heirs_lt ranked coherent appends member)
    obtain ⟨r, below⟩ := running.reaches frame List.mem_cons_self
    have right : rightOf (heirs rank) (s.root.appendAt frame.dst (build s.fresh child)) s.current =
        rightOf (heirs rank) s.root s.current := by
      rw [← below]
      exact rightOf_modifyAt _ r _ _
    have own : weighAt (heirs rank) (s.root.appendAt frame.dst (build s.fresh child)) s.current =
        weighAt (heirs rank) s.root s.current + weigh (heirs rank) (build s.fresh child) := by
      rw [← below] at there ⊢
      exact weighAt_appendAt_under there
    change Multiset.filter (rankAt rank { s with
      root := s.root.appendAt frame.dst (build s.fresh child) } ≤ ·) _ = _
    dsimp only
    rw [same, right, own, ← add_assoc, Multiset.filter_add, none, add_zero]
  | pushed | skipped => rfl
  | overwritten _ _ writes => cases writes

end

/-! ### Every step lowers the measure -/

section

variable {s t : State} {rank : Bytes → ℕ} {bound : ℕ}

/-- A run that goes on stands at an object of the tree. -/
theorem Coherent.current_there (coherent : Coherent s) (going : s.control ≠ .copyArray)
    (goes : step s = .next t) : (s.root.get? s.current).isSome := by
  cases control : s.control with
  | copyArray => exact absurd control going
  | copy job hasNext frames =>
    obtain ⟨_, label, _⟩ := (coherent.running _ _ _ control).serves
    obtain ⟨_, there⟩ := get?_of_label?_inl label
    rw [there]
    rfl
  | walk =>
    cases there : s.root.get? s.current with
    | some object => rfl
    | none =>
      cases walk : s.walk <;> simp [step, control, walk, walkBackward, walkForward, there] at goes

theorem ahead_le_pending (w : Label → ℕ) (s : State) : ahead w s.root s.current ≤ pending w s :=
  Nat.le_add_right _ _

/-- The walk has more ahead of it than it has above it. -/
theorem length_lt_pending (there : (s.root.get? s.current).isSome) :
    ahead one s.root s.current + 1 ≤ pending one s ∧
      s.current.length < pending one s := by
  obtain ⟨object, found⟩ := Option.isSome_iff_exists.mp there
  have depth : above one s.root s.current = s.current.length := above_one there
  have own : 1 ≤ weighAt one s.root s.current := by
    rw [weighAt_of_get? found, weigh_eq]
    exact Nat.le_add_right _ _
  have label : labelWeight one s.root s.current = 1 := by rw [labelWeight_of_get? found]; rfl
  have open_ : ahead one s.root s.current + 1 ≤ pending one s := by
    rw [pending]
    split <;> omega
  refine ⟨open_, ?_⟩
  rw [ahead, depth] at open_
  omega

private theorem clean_references (resolved : ReferredResolved s) {dst : Pos} {child : AstObject}
    (appends : Appends s .nodeRef dst child) : weigh references (build s.fresh child) = 0 := by
  rw [weigh_eq_zero_iff]
  intro p l there
  rw [label?_build] at there
  obtain ⟨l, original, rfl⟩ := Option.map_eq_some_iff.mp there
  rcases l with node | leaf
  · exact if_neg (resolved dst child appends p node original)
  · cases leaf <;> rfl

/-- A round within `Copy` lowers the measure. -/
theorem measure_lower_copy {job job' : Job} {hasNext hasNext' : Bool}
    {frames frames' : List CopyFrame}
    (coherent : Coherent s) (distinct : DistinctSiblings Label.key s.root)
    (narrow : Narrow bound s.root) (chained : Chained bound s.root frames)
    (resolved : ReferredResolved s)
    (ranked : ∀ path path', Passes s path path' → rank path' < rank path)
    (control : s.control = .copy job hasNext frames)
    (control' : t.control = .copy job' hasNext' frames') (goes : step s = .next t) :
    Lower (measure rank bound t) (measure rank bound s) := by
  have fewer := (copyCost_step coherent distinct narrow chained control control' goes).2
  have round := copyRound control control' goes
  have running := coherent.running _ _ _ control
  obtain ⟨walk, current, frames'', control''⟩ := round.keeps
  cases control''.symm.trans control'
  have phase : phase t = phase s := by rw [HcGen.phase, walk, HcGen.phase]
  have inner : copies bound t < copies bound s := by
    rw [copies, control', copies, control]
    exact fewer
  have work : work rank t = work rank s := by
    cases job with
    | nodeRef =>
      have first : s.walk = .nodeExpand := running.walk
      rw [HcGen.work, walk, HcGen.work, first]
      dsimp only
      rw [round.pending coherent control first (fun _ _ _ _ => rfl)
        fun _ _ => clean_references resolved]
    | nodeCopy =>
      have first : s.walk = .nodeExpand := running.walk
      rw [HcGen.work, walk, HcGen.work, first]
      dsimp only
      rw [round.pending coherent control first (fun _ _ _ _ => rfl)
        fun _ _ => clean_references resolved]
    | inherit template => exact round.work_inherit coherent control ranked
  have rounds : rounds t = rounds s := by
    cases job with
    | nodeRef => rw [HcGen.rounds, control', HcGen.rounds, control]
    | nodeCopy =>
      have first : s.walk = .nodeExpand := running.walk
      rw [HcGen.rounds, control', HcGen.rounds, control]
      dsimp only
      rw [toGo, walk, toGo, first, current]
      dsimp only
      rw [round.pending coherent control first (fun _ _ _ _ => rfl)]
      rintro dst child ⟨_, _, _, copying, _⟩
      cases copying.control.symm.trans control
    | inherit template => rw [HcGen.rounds, control', HcGen.rounds, control]
  rw [measure, measure, phase, work, rounds]
  exact lower_of_inner inner

theorem walk_of_second (coherent : Coherent s) (goes : step s = .next t)
    (second : s.walk = .inheritExpand) : t.walk = .inheritExpand := by
  have done {object : AstObject} (visit : Visiting s object) : False := by
    cases visit.walk.symm.trans second
  cases stepped goes with
  | down _ walk => cases walk.symm.trans second
  | passed visit | removed visit | resolved visit | refStarts visit | copyStarts visit
  | termMoved visit | valueMoved visit => exact (done visit).elim
  | copied control | referred control =>
    cases (coherent.running _ _ _ control).walk.symm.trans second
  | inherited _ _ _ went => exact went.walk_of_second second
  | back _ _ _ _ leaves => exact leaves.walk_of_second second
  | forth _ _ went => exact went.walk_of_second second
  | _ => exact second

theorem ignoresPayload_of_const {w : Label → ℕ} {n : ℕ} (h : ∀ leaf, w (.inr leaf) = n) :
    IgnoresPayload w := fun leaf _ copied _ => (h (leaf.setValue copied)).trans (h leaf).symm

/-- A round that ends in the walk of `NodeExpand` lowers the measure. -/
theorem measure_lower_first (coherent : Coherent s) (going : s.control ≠ .copyArray)
    (goes : step s = .next t) (first : t.walk = .nodeExpand) (walking : t.control = .walk) :
    Lower (measure rank bound t) (measure rank bound s) := by
  have before : s.walk = .nodeExpand := by
    cases walk : s.walk with
    | nodeExpand => rfl
    | inheritExpand => cases (walk_of_second coherent goes walk).symm.trans first
  have there := coherent.current_there going goes
  obtain ⟨open_, deep⟩ := length_lt_pending there
  have phase : phase t = phase s := by rw [HcGen.phase, first, HcGen.phase, before]
  have workS : work rank s = Multiset.replicate (pending references s) 0 := by
    rw [work, before]
  have workT : work rank t = Multiset.replicate (pending references t) 0 := by
    rw [work, first]
  have goS : toGo s = 2 * pending one s - s.current.length := by rw [toGo, before]
  have goT : toGo t = 2 * pending one t - t.current.length := by rw [toGo, first]
  have roundsT : rounds t = 2 * toGo t + 1 := by rw [rounds, walking]
  have ones : IgnoresPayload one := ignoresPayload_of_const fun _ => rfl
  have refs : IgnoresPayload references := ignoresPayload_of_const fun _ => rfl
  rw [measure, measure, phase]
  rcases pending_of_walking coherent goes first walking with
    ⟨control, deeper, same⟩ | ⟨depth, left⟩
  · have pendingOne := same one ones
    rw [workS, workT, same references refs]
    refine lower_of_rounds le_rfl ?_
    rw [roundsT, rounds, control]
    dsimp only
    omega
  · have pendingOne := left one ones
    have pendingRefs := left references refs
    have fewer := ahead_le_pending references s
    rw [workS, workT, pendingRefs]
    cases control : s.control with
    | copyArray => exact absurd control going
    | walk =>
      refine lower_of_rounds (Multiset.replicate_le_replicate _ |>.mpr fewer) ?_
      rw [roundsT, rounds, control]
      dsimp only
      omega
    | copy job hasNext frames =>
      have running := coherent.running _ _ _ control
      cases job with
      | nodeCopy =>
        refine lower_of_rounds (Multiset.replicate_le_replicate _ |>.mpr fewer) ?_
        rw [roundsT, rounds, control]
        dsimp only
        omega
      | nodeRef =>
        obtain ⟨node, label, marked⟩ := running.serves
        have marked : node.nodeType = .ref := marked
        have own : pending references s = ahead references s.root s.current + 1 := by
          rw [pending_copying control, labelWeight, label]
          simp [references, marked]
        refine lower_of_work_lt ?_
        rw [own]
        exact Multiset.lt_replicate_succ.mpr le_rfl
      | inherit template => cases before.symm.trans running.walk

theorem Went.depth_le (h : Went s t) :
    (t.current.length + if t.preVisited then 1 else 0) ≤ s.current.length + 1 := by
  cases h with
  | down => exact le_rfl
  | left _ _ leaves => exact leaves.depth_le.trans (Nat.le_succ _)

theorem work_of_inherit (second : s.walk = .inheritExpand) (walking : s.control = .walk) :
    work rank s = coming (heirs rank) s := by rw [work, second, walking]

theorem rounds_of_inherit (second : s.walk = .inheritExpand) (walking : s.control = .walk) :
    rounds s = 2 * (2 * coming one s + (s.current.length + if s.preVisited then 1 else 0)) + 1 := by
  rw [rounds, walking]
  dsimp only
  rw [toGo, second]

private theorem labelWeight_one (there : (s.root.get? s.current).isSome) :
    labelWeight one s.root s.current = 1 := by
  obtain ⟨object, found⟩ := Option.isSome_iff_exists.mp there
  rw [labelWeight_of_get? found]
  rfl

/-- The node that has been filled is replaced by the nodes it got. -/
theorem measure_lower_inherited {template : Pos} {hasNext : Bool} {node : ConfigNode}
    {children : List AstObject} {templateNode : ConfigNode} {below : List AstObject}
    (coherent : Coherent s) (control : s.control = .copy (.inherit template) hasNext [])
    (there : s.root.get? s.current = some (.node node children))
    (base : s.root.get? template = some (.node templateNode below)) {f g : ConfigNode → ConfigNode}
    (went : Went { s with
      root := updateNode (updateNode s.root template f) s.current g } t)
    (keepsF : ∀ node, heirs rank (.inl (f node)) = heirs rank (.inl node))
    (keepsG : ∀ node, heirs rank (.inl (g node)) = heirs rank (.inl node)) :
    Lower (measure rank bound t) (measure rank bound s) := by
  have running := coherent.running _ _ _ control
  have second : s.walk = .inheritExpand := running.walk
  obtain ⟨node', label, marked⟩ := running.serves
  obtain rfl : node = node' := by
    rw [label?_of_get? there] at label
    exact Sum.inl.inj (Option.some.inj label)
  have marked : node.nodeType = .inherit := marked
  have own : rankAt rank s = rank node.refNodePath := by rw [rankAt, label]; rfl
  obtain ⟨_, _, again⟩ := (isNode_updateNode (q := template) (f := f) (isNode_of_get? there)).get?
  have exists_ : (s.root.get? s.current).isSome := by rw [there]; rfl
  have exists' : ((updateNode s.root template f).get? s.current).isSome := by rw [again]; rfl
  have after := coming_of_went (w := heirs rank) (by exact second) went
  dsimp only at after
  rw [updateNode, rightOf_relabelAt again (keepsG _) exists', weighAt_relabelAt again (keepsG _),
    labelWeight_relabelAt again (keepsG _), updateNode, rightOf_relabelAt base (keepsF _) exists_,
    weighAt_relabelAt base (keepsF _), labelWeight_relabelAt base (keepsF _),
    labelWeight_of_get? there, label_node, heirs, if_pos marked, ← coming_copying control] at after
  have phase : phase t = phase s := by
    rw [HcGen.phase, went.walk_of_second second, HcGen.phase]
    dsimp only
    rw [second]
  rw [measure, measure, phase, work_of_inherit (went.walk_of_second second) went.control]
  refine lower_of_replaced (r := rankAt rank s) ?_
  rw [work, second, control]
  dsimp only
  rw [← after, own, add_comm, Multiset.singleton_add]

/-- A round of the walk of `InheritExpand` lowers the measure. -/
theorem measure_lower_second (coherent : Coherent s) (goes : step s = .next t)
    (second : s.walk = .inheritExpand) (walking : t.control = .walk) :
    Lower (measure rank bound t) (measure rank bound s) := by
  have later := walk_of_second coherent goes second
  have phase : phase t = phase s := by rw [HcGen.phase, later, HcGen.phase, second]
  have done {object : AstObject} (visit : Visiting s object) : False := by
    cases visit.walk.symm.trans second
  cases stepped goes with
  | endless control => cases control.symm.trans walking
  | down _ walk => cases walk.symm.trans second
  | passed visit | removed visit | resolved visit | termMoved visit | valueMoved visit =>
    exact (done visit).elim
  | copied control | referred control =>
    cases (coherent.running _ _ _ control).walk.symm.trans second
  | inherited control there base went =>
    exact measure_lower_inherited coherent control there base went (fun _ => rfl) fun _ => rfl
  | back control _ there again leaves =>
    have same {M : Type} [AddCancelCommMonoid M] (w : Label → M) : coming w t = coming w s := by
      rw [coming_of_left second leaves, coming, if_pos ⟨control, again⟩, add_zero]
    rw [measure, measure, phase, work_of_inherit later walking, work_of_inherit second control,
      same]
    refine lower_of_rounds le_rfl ?_
    have depth := leaves.depth_le
    rw [rounds_of_inherit later walking, rounds_of_inherit second control, same, again, if_pos rfl]
    omega
  | forth enter _ went =>
    have after {M : Type} [AddCancelCommMonoid M] (w : Label → M) :
        coming w t + labelWeight w s.root s.current = coming w s := by
      rw [coming_of_went second went, coming_entering enter]
    have fewer : coming (heirs rank) t ≤ coming (heirs rank) s := by
      rw [← after]
      exact Multiset.le_add_right _ _
    rw [measure, measure, phase, work_of_inherit later walking,
      work_of_inherit second enter.control]
    refine lower_of_rounds fewer ?_
    have depth := went.depth_le
    have ones := after one
    rw [labelWeight_one (by rw [enter.there]; rfl)] at ones
    rw [rounds_of_inherit later walking, rounds_of_inherit second enter.control, ← ones,
      enter.first]
    simp only [Bool.false_eq_true, if_false]
    omega
  | _ => cases walking

/-- The start of a `Copy` lowers the measure. -/
theorem measure_lower_start {job : Job} {hasNext : Bool} {frames : List CopyFrame}
    (goes : step s = .next t) (walking : s.control = .walk)
    (control : t.control = .copy job hasNext frames) :
    Lower (measure rank bound t) (measure rank bound s) := by
  have rounds : rounds s = 2 * toGo s + 1 := by rw [HcGen.rounds, walking]
  cases stepped goes with
  | endless control => cases control.symm.trans walking
  | refStarts visit marked refers there =>
    refine lower_of_rounds ?_ ?_
    · rw [work, work, visit.walk]
      dsimp only
      rw [pending_copying rfl, visit.pending, labelWeight_of_get? visit.there]
    · rw [rounds]
      exact Nat.succ_pos _
  | copyStarts visit marked refers =>
    have left (w : Label → ℕ) : ahead w (updateNode s.root s.current fun node =>
        { node with nodeType := .noref }) s.current = ahead w s.root s.current :=
      ahead_modifyAt [] _
    have own (w : Label → ℕ) (node : ConfigNode)
        (label : s.root.label? s.current = some (.inl node)) :
        labelWeight w (updateNode s.root s.current fun node => { node with nodeType := .noref })
          s.current = w (.inl { node with nodeType := .noref }) := by
      rw [labelWeight, updateNode, label?_relabelAt_self, label]
      rfl
    have label := label?_of_get? visit.there
    refine lower_of_rounds ?_ ?_
    · rw [work, work, visit.walk]
      dsimp only
      rw [pending_copying rfl, visit.pending]
      dsimp only
      rw [left, own references _ label]
      exact (Multiset.replicate_le_replicate _).mpr (Nat.add_le_add_left (Nat.zero_le _) _)
    · rw [rounds, HcGen.rounds, toGo, toGo, visit.walk]
      dsimp only
      rw [pending_copying rfl, visit.pending]
      dsimp only
      rw [left, own one _ label]
      exact Nat.lt_succ_self _
  | inheritStarts enter marked found =>
    refine lower_of_rounds ?_ ?_
    · rw [work_of_inherit enter.walk walking, work, enter.walk]
      dsimp only
      rw [coming_copying rfl, coming_entering enter]
      exact Multiset.filter_le _ _
    · rw [rounds]
      exact Nat.succ_pos _
  | popped same => cases same.symm.trans walking
  | appended copying | pushed copying | skipped copying | overwritten copying =>
    cases copying.control.symm.trans walking
  | inherited same | copied same | referred same => cases same.symm.trans walking
  | down | stuck => cases control
  | passed _ _ leaves | removed _ _ leaves | resolved _ _ _ _ leaves | termMoved _ _ _ _ _ _ leaves
  | valueMoved _ _ _ _ _ leaves | back _ _ _ _ leaves => cases leaves.control.symm.trans control
  | forth _ _ went => cases went.control.symm.trans control

/-- The loop of `ConfigArray::Copy` is entered only when a state is about to enter it. -/
theorem control_ne_copyArray (going : s.control ≠ .copyArray) (noArray : ¬ CopiesArray s)
    (goes : step s = .next t) : t.control ≠ .copyArray := by
  intro control
  cases stepped goes with
  | stuck array => exact noArray array
  | endless control => exact going control
  | passed _ _ leaves | removed _ _ leaves | resolved _ _ _ _ leaves | termMoved _ _ _ _ _ _ leaves
  | valueMoved _ _ _ _ _ leaves | copied _ leaves | referred _ leaves =>
    cases leaves.control.symm.trans control
  | inherited _ _ _ went => cases went.control.symm.trans control
  | back _ _ _ _ leaves => cases leaves.control.symm.trans control
  | forth _ _ went => cases went.control.symm.trans control
  | _ => cases control

/-- The calls of a `Copy` are nested when it starts, too. -/
theorem chained_start {job : Job} {hasNext : Bool} {frames : List CopyFrame}
    (goes : step s = .next t) (walking : s.control = .walk)
    (control : t.control = .copy job hasNext frames) : Chained bound t.root frames := by
  have single (root : AstObject) (dst src : Pos) : Chained bound root [⟨dst, src, 0⟩] :=
    ⟨by simp, .singleton _⟩
  cases stepped goes with
  | endless control => cases control.symm.trans walking
  | refStarts | copyStarts | inheritStarts => cases control; exact single _ _ _
  | popped same => cases same.symm.trans walking
  | appended copying | pushed copying | skipped copying | overwritten copying =>
    cases copying.control.symm.trans walking
  | inherited same | copied same | referred same => cases same.symm.trans walking
  | down | stuck => cases control
  | passed _ _ leaves | removed _ _ leaves | resolved _ _ _ _ leaves | termMoved _ _ _ _ _ _ leaves
  | valueMoved _ _ _ _ _ leaves | back _ _ _ _ leaves => cases leaves.control.symm.trans control
  | forth _ _ went => cases went.control.symm.trans control

/-- A run that is not in the loop of `ConfigArray::Copy`, and whose calls of `Copy` are nested. -/
structure Going (bound : ℕ) (s : State) : Prop where
  control : s.control ≠ .copyArray
  chained : ∀ job hasNext frames, s.control = .copy job hasNext frames →
    Chained bound s.root frames

theorem Going.preserved (going : Going bound s) (coherent : Coherent s)
    (distinct : DistinctSiblings Label.key s.root) (narrow : Narrow bound s.root)
    (noArray : ¬ CopiesArray s) (goes : step s = .next t) : Going bound t := by
  refine ⟨control_ne_copyArray going.control noArray goes, fun job hasNext frames control' => ?_⟩
  cases control : s.control with
  | copyArray => exact absurd control going.control
  | walk => exact chained_start goes control control'
  | copy job' hasNext' frames' =>
    exact (copyCost_step coherent distinct narrow (going.chained _ _ _ control) control control'
      goes).1

/-- Every step lowers the measure. -/
theorem measure_lower (going : Going bound s) (coherent : Coherent s)
    (distinct : DistinctSiblings Label.key s.root) (narrow : Narrow bound s.root)
    (noArray : ¬ CopiesArray s) (resolved : ReferredResolved s)
    (ranked : ∀ path path', Passes s path path' → rank path' < rank path)
    (goes : step s = .next t) : Lower (measure rank bound t) (measure rank bound s) := by
  cases control' : t.control with
  | copyArray => exact absurd control' (control_ne_copyArray going.control noArray goes)
  | copy job hasNext frames =>
    cases control : s.control with
    | copyArray => exact absurd control going.control
    | walk => exact measure_lower_start goes control control'
    | copy job' hasNext' frames' =>
      exact measure_lower_copy coherent distinct narrow (going.chained _ _ _ control)
        resolved ranked
        control control' goes
  | walk =>
    cases first : s.walk with
    | inheritExpand => exact measure_lower_second coherent goes first control'
    | nodeExpand =>
      cases later : t.walk with
      | nodeExpand => exact measure_lower_first coherent going.control goes later control'
      | inheritExpand =>
        refine lower_of_phase ?_
        rw [phase, later, phase, first]
        exact Nat.one_pos

end

/-! ### Termination -/

section

variable {fs : FileSystem} {main : Bytes} {ast : Ast} {fresh : ℕ}

theorem Ast.expand_cases (ast : Ast) (fresh : ℕ) :
    (∃ outcome, ast.expand fresh = .halt outcome) ∨
      ∃ root, ast.expand fresh = .next (start root fresh) := by
  cases h : ast.expand fresh with
  | halt outcome => exact .inl ⟨outcome, rfl⟩
  | next s =>
    obtain ⟨root, rfl⟩ := Ast.expand_eq_next h
    exact .inr ⟨root, rfl⟩

/-- When no step of the expansion copies into an array or lets a node reference
append further node references, and no template inherits from itself, the
expansion ends. -/
theorem exists_expands (merged : MergedFrom fs main ast fresh)
    (arrays : ∀ s, ast.Reaches fresh s → ¬ CopiesArray s)
    (resolved : ∀ s, ast.Reaches fresh s → ReferredResolved s)
    (acyclic : ∀ path, ¬ Relation.TransGen (InheritsFrom ast fresh) path path) :
    ∃ outcome, ast.Expands fresh outcome := by
  have inv := merged.merged
  obtain ⟨bound, narrow⟩ : ∃ bound, ∀ s, ast.Reaches fresh s → Narrow bound s.root :=
    exists_narrow inv
  obtain ⟨paths, inside⟩ : ∃ paths : List Bytes, ∀ s, ast.Reaches fresh s →
      AllLabels (fun l => Label.path l ∈ paths) s.root := exists_paths inv
  have targets (path path' : Bytes) (h : InheritsFrom ast fresh path path') : path' ∈ paths := by
    obtain ⟨s, reached, template, dst, child, _, p, heir, appends, _, _, original, _, rfl⟩ := h
    obtain ⟨_, frame, _, copying, _⟩ := appends
    rcases copying.source with inTree | ⟨v, rfl⟩
    · exact (inside s reached).subtree inTree p _ original
    · have leaf : AllLabels (fun l => l ≠ .inl heir) (.leaf (.value v)) :=
        allLabels_leaf.mpr (by simp)
      exact absurd rfl (leaf p _ original)
  obtain ⟨rank, ranked, -⟩ := exists_rank_of_acyclic targets acyclic
  rcases ast.expand_cases fresh with ⟨outcome, halts⟩ | ⟨root, goes⟩
  · exact ⟨outcome, .inl halts⟩
  · have terminates : Terminates step (start root fresh) :=
      terminates_of_measure wellFounded_lower (measure rank bound)
        (I := fun s => ast.Reaches fresh s ∧ Going bound s)
        ⟨⟨root, goes, .refl⟩, by simp [start], by simp [start]⟩
        (fun s t ⟨reached, going⟩ next => ⟨reached.next next,
          going.preserved (.of_reaches inv reached) (distinctKeys_of_reaches inv reached)
            (narrow s reached) (arrays s reached) next⟩)
        fun s t ⟨reached, going⟩ next => measure_lower going (.of_reaches inv reached)
          (distinctKeys_of_reaches inv reached) (narrow s reached) (arrays s reached)
          (resolved s reached)
          (fun path path' passes => ranked path path' ⟨s, reached, passes⟩) next
    obtain ⟨outcome, returns⟩ := terminates
    exact ⟨outcome, .inr ⟨root, goes, returns⟩⟩

end

/-! ### The endless loop -/

theorem Refers.nodeRefOrCopy {s : State} {node : ConfigNode} {ref : Pos}
    (refers : Refers s node ref)
    (marked : node.nodeType = .ref) (hasNext : Bool) :
    nodeRefOrCopy s node hasNext = nodeRefExpand s ref hasNext := by
  have stranger : isElders ref s.current = false :=
    Bool.eq_false_iff.mpr (by simpa [isElders] using refers.stranger)
  rw [HcGen.nodeRefOrCopy, refers.found]
  simp [stranger, marked]

theorem Visiting.step_of_ref {s : State} {node : ConfigNode} {children : List AstObject} {ref : Pos}
    (visit : Visiting s (.node node children)) (marked : node.nodeType = .ref)
    (refers : Refers s node ref) : step s = nodeRefExpand s ref s.hasNext := by
  rw [step, visit.control, visit.walk]
  dsimp only
  rw [walkBackward, visit.there]
  dsimp only
  rw [if_pos visit.done, nodeExpandVisit, marked]
  exact refers.nodeRefOrCopy marked _

/-- A state that is about to copy into an array goes on to the loop. -/
theorem CopiesArray.step {s : State} (h : CopiesArray s) :
    step s = .next { s with control := .copyArray } := by
  cases h with
  | @overwrite dst this leaf overwrites fits array elements =>
    obtain ⟨job, hasNext, frame, frames, i, copying, present, rfl, writes, there⟩ := overwrites
    obtain ⟨src, source, next⟩ := Option.bind_eq_some_iff.mp copying.child
    have none := copyFrom_eq_none_iff.mpr ⟨array, elements⟩
    rw [HcGen.step, copying.control]
    simp only [copyStep, source, next, present, copyLeaf, writes, there, fits, none]
    rfl
  | term visit marked refers there first array elements =>
    rw [visit.step_of_ref marked refers, nodeRefExpand, there]
    dsimp only
    rw [termMove, first]
    dsimp only
    rw [copyFrom_eq_none_iff.mpr ⟨array, elements⟩]
  | @value node children ref value visit marked refers there array elements =>
    have none : value.copyFrom (.node node children) = none :=
      copyFrom_eq_none_iff.mpr ⟨array, elements⟩
    rw [visit.step_of_ref marked refers, nodeRefExpand, there]
    dsimp only
    rw [valueMove, visit.there]
    dsimp only
    rw [none]

theorem not_expands_of_copyArray {ast : Ast} {fresh : ℕ} {s : State}
    (reached : ast.Reaches fresh s) (control : s.control = .copyArray) (outcome : Outcome) :
    ¬ ast.Expands fresh outcome := by
  have loops : step s = .next s := by rw [step, control]
  obtain ⟨root, goes, steps⟩ := reached
  rintro (halts | ⟨root', goes', returns⟩)
  · cases goes.symm.trans halts
  · cases goes.symm.trans goes'
    exact not_returns_of_loop steps loops returns

/-- An expansion that comes to copying into an array never ends. -/
theorem not_expands_of_copiesArray {ast : Ast} {fresh : ℕ} {s : State}
    (reached : ast.Reaches fresh s) (array : CopiesArray s) (outcome : Outcome) :
    ¬ ast.Expands fresh outcome :=
  not_expands_of_copyArray (reached.next array.step) rfl outcome

/-! ### Examples -/

/-- Decides that a state is not about to copy into an array. -/
def keepsArrays (s : State) : Bool :=
  match step s with
  | .next t => t.control != .copyArray
  | .halt _ => true

theorem keepsArrays_sound {s : State} (h : keepsArrays s = true) : ¬ CopiesArray s := by
  intro array
  rw [keepsArrays, array.step] at h
  simp at h

/-- Decides `ReferredResolved`. -/
def referredResolved (s : State) : Bool :=
  match appending s with
  | some (.nodeRef, _, child) => weigh references child == 0
  | _ => true

theorem referredResolved_sound {s : State} (h : referredResolved s = true) :
    ReferredResolved s := by
  intro dst child appends p node there
  rw [referredResolved, appends.appending] at h
  have none := weigh_eq_zero_iff.mp (beq_iff_eq.mp h) p _ there
  simpa [references] using none

/-- Decides that only nodes that inherit by `path` get nodes that inherit, and
these inherit by `path'`. -/
def passesOnly (path path' : Bytes) (s : State) : Bool :=
  match appending s with
  | some (.inherit _, _, child) => child.labels.all fun
    | .inl heir => heir.nodeType != .inherit ||
      (heir.refNodePath == path' && (s.root.label? s.current).all fun l => Label.path l == path)
    | .inr _ => true
  | _ => true

theorem passesOnly_sound {path path' : Bytes} {s : State} (h : passesOnly path path' s = true)
    {source target : Bytes} (passes : Passes s source target) :
    source = path ∧ target = path' := by
  obtain ⟨template, dst, child, node, p, heir, appends, current, rfl, label, inherits, rfl⟩ :=
    passes
  rw [passesOnly, appends.appending] at h
  have inside := List.all_eq_true.mp h _ (mem_labels_iff.mpr ⟨p, label⟩)
  simpa [inherits, current, Label.path, and_comm] using inside

/-- An array with an element is overwritten by another one. -/
def arrayOverwritten : FileSystem :=
  .single (ascii "a.hcs")
    (ascii "root \x7b module = \"m\"; p \x7b t = [1]; \x7d n : &p \x7b t = [2]; \x7d \x7d")

/-- A template that inherits from another one, a copy and a reference. -/
def templateChain : FileSystem :=
  .single (ascii "a.hcs") (ascii
    "root \x7b module = \"m\"; template a \x7b v = 1; \x7d template b \x7b c :: root.a \x7b \x7d \x7d x :: b \x7b \x7d y : x \x7b \x7d z : &y \x7b w = 2; \x7d \x7d")

private theorem termination_evaluated :
    expansionComesTo arrayOverwritten (ascii "a.hcs") (fun s => s.control == .copyArray) 40 =
        true ∧
      expansionPasses templateChain (ascii "a.hcs")
        (fun s => keepsArrays s && referredResolved s && passesOnly (ascii "b") (ascii "root.a") s)
        (fun _ => true) 90 = true := by
  rw [arrayOverwritten, templateChain]
  iterate 3 rw [ascii_ofList]
  decide +kernel

theorem array_overwritten :
    ∃ ast fresh, MergedFrom arrayOverwritten (ascii "a.hcs") ast fresh ∧
      ¬ ∃ outcome, ast.Expands fresh outcome := by
  obtain ⟨ast, fresh, s, merged, reached, loops⟩ := exists_reached termination_evaluated.1
  refine ⟨ast, fresh, merged, ?_⟩
  rintro ⟨outcome, expands⟩
  exact not_expands_of_copyArray reached (by simpa using loops) outcome expands

theorem exists_expands_templateChain :
    ∃ ast fresh, MergedFrom templateChain (ascii "a.hcs") ast fresh ∧
      ∃ outcome, ast.Expands fresh outcome := by
  obtain ⟨ast, fresh, root, merged, expands, tests, -⟩ :=
    exists_expansion termination_evaluated.2
  have each (s : State) (reached : ast.Reaches fresh s) := Bool.and_eq_true_iff.mp (tests s reached)
  have both (s : State) (reached : ast.Reaches fresh s) :=
    Bool.and_eq_true_iff.mp (each s reached).1
  have edge (path path' : Bytes) (h : InheritsFrom ast fresh path path') :
      path = ascii "b" ∧ path' = ascii "root.a" := by
    obtain ⟨s, reached, passes⟩ := h
    exact passesOnly_sound (each s reached).2 passes
  refine ⟨ast, fresh, merged, exists_expands merged
    (fun s reached => keepsArrays_sound (both s reached).1)
    (fun s reached => referredResolved_sound (both s reached).2) fun path cycle => ?_⟩
  obtain ⟨_, first, _⟩ := Relation.TransGen.head'_iff.mp cycle
  obtain ⟨_, _, last⟩ := Relation.TransGen.tail'_iff.mp cycle
  exact absurd ((edge _ _ first).1.symm.trans (edge _ _ last).2) (by decide)

end Hdf.HcGen
