import Hdf.HcGen.Expand
import Hdf.Lib.Traversal

/-!
# What one step of an expansion can do

Every invariant of `Ast::Expand` is derived from the one inversion in this file:
`stepped` lists the rounds that go on to another state, with what was read from
the tree and what was written to it. How a walk goes on afterwards is inverted
separately, by `leave_eq_next` and `forward_eq_next`.

## Main results

* `stepped`: a step that goes on is one of the listed rounds
* `copyRound`: so is a step that stays within a `Copy`
-/

namespace Hdf.HcGen

open Transition

/-- A node that `NodeExpand` still has to resolve or remove. -/
def ConfigNode.unexpanded (node : ConfigNode) : Bool :=
  node.nodeType == .copy || node.nodeType == .ref || node.nodeType == .delete

/-- `NodeExpand` neither changes nor removes such an object. -/
def restful : AstObject → Bool
  | .node node _ => !node.unexpanded
  | .leaf (.term term) =>
    match term.value with
    | .delete => false
    | .nodeRef _ => false
    | _ => true
  | .leaf (.value _) => true

/-- `NodeExpand` removes such an object. -/
def deleted : AstObject → Bool
  | .node node _ => node.nodeType == .delete
  | .leaf (.term term) => term.value == .delete
  | .leaf (.value _) => false

/-! ### Copies of objects -/

theorem buildList_eq (fresh : ℕ) (cs : List AstObject) :
    buildList fresh cs = cs.map (build fresh) := by
  induction cs with
  | nil => rfl
  | cons c cs ih => rw [buildList, ih, List.map_cons]

@[simp] theorem children_build (fresh : ℕ) (object : AstObject) :
    (build fresh object).children = object.children.map (build fresh) := by
  cases object with
  | node node children => rw [build, buildList_eq]; rfl
  | leaf leaf => cases leaf <;> rfl

@[simp] theorem label_build (fresh : ℕ) (object : AstObject) :
    (build fresh object).label = buildLabel fresh object.label := by
  cases object with
  | node node children => rw [build]; rfl
  | leaf leaf => cases leaf <;> rfl

theorem get?_build (fresh : ℕ) (object : AstObject) (p : Pos) :
    (build fresh object).get? p = (object.get? p).map (build fresh) := by
  induction p with
  | nil => rfl
  | cons i p ih =>
    rw [Tree.get?_cons, ih, Tree.get?_cons]
    cases object.get? p with
    | none => rfl
    | some u => simp

/-- A copy has the labels of the original, as the copy constructors make them. -/
theorem label?_build (fresh : ℕ) (object : AstObject) (p : Pos) :
    (build fresh object).label? p = (object.label? p).map (buildLabel fresh) := by
  rw [Tree.label?, get?_build, Option.map_map, Tree.label?, Option.map_map]
  congr 1
  funext u
  exact label_build fresh u

/-! ### Leaving an object -/

/-- How a walk goes on from the object it is done with. -/
inductive Left (s : State) (removed hasNext : Bool) : State → Prop
  | sibling {i parent} (current : s.current = i :: parent) (next : hasNext = true) :
    Left s removed hasNext {
      s with
      current := (if removed then i else i + 1) :: parent
      preVisited := false
      control := .walk }
  | parent {i parent} (current : s.current = i :: parent) (last : hasNext = false) :
    Left s removed hasNext { s with current := parent, preVisited := true, control := .walk }
  | walk (current : s.current = []) (first : s.walk = .nodeExpand) :
    Left s removed hasNext {
      s with
      walk := .inheritExpand
      preVisited := false
      control := .walk }

theorem leave_eq_next {s t : State} {removed hasNext : Bool}
    (h : leave s removed hasNext = .next t) : Left s removed hasNext t := by
  unfold leave at h
  split at h
  case h_1 current =>
    split at h
    case h_1 first => cases h; exact .walk current first
    case h_2 => cases h
  case h_2 i parent current =>
    split at h
    case isTrue next => cases h; exact .sibling current next
    case isFalse last => cases h; exact .parent current (Bool.eq_false_iff.mpr last)

/-- How the forward walk goes on after its callback. -/
inductive Went (s : State) : State → Prop
  | down {object} (there : s.root.get? s.current = some object) (inner : object.children ≠ []) :
    Went s { s with current := 0 :: s.current, preVisited := false, control := .walk }
  | left {object t} (there : s.root.get? s.current = some object) (childless : object.children = [])
    (leaves : Left s false s.hasNext t) : Went s t

theorem forward_eq_next {s t : State} (h : forward s = .next t) : Went s t := by
  unfold forward at h
  split at h
  case h_1 => cases h
  case h_2 object there =>
    split at h
    case isTrue childless => exact .left there childless (leave_eq_next h)
    case isFalse inner => cases h; exact .down there inner

section

variable {s t : State} {removed hasNext : Bool}

@[simp] theorem Left.root (h : Left s removed hasNext t) : t.root = s.root := by cases h <;> rfl

@[simp] theorem Left.fresh (h : Left s removed hasNext t) : t.fresh = s.fresh := by cases h <;> rfl

@[simp] theorem Left.control (h : Left s removed hasNext t) : t.control = .walk := by
  cases h <;> rfl

theorem Left.walk_of_first (h : Left s removed hasNext t) (inner : s.current ≠ [])
    (first : s.walk = .nodeExpand) : t.walk = .nodeExpand := by
  cases h with
  | sibling | parent => exact first
  | walk current => exact absurd current inner

theorem Left.walk_of_second (h : Left s removed hasNext t) (second : s.walk = .inheritExpand) :
    t.walk = .inheritExpand := by
  cases h with
  | sibling | parent => exact second
  | walk => rfl

theorem Went.walk_of_second (h : Went s t) (second : s.walk = .inheritExpand) :
    t.walk = .inheritExpand := by
  cases h with
  | down => exact second
  | left _ _ leaves => exact leaves.walk_of_second second

@[simp] theorem Went.root (h : Went s t) : t.root = s.root := by
  cases h with
  | down => rfl
  | left _ _ leaves => exact leaves.root

@[simp] theorem Went.fresh (h : Went s t) : t.fresh = s.fresh := by
  cases h with
  | down => rfl
  | left _ _ leaves => exact leaves.fresh

@[simp] theorem Went.control (h : Went s t) : t.control = .walk := by
  cases h with
  | down => rfl
  | left _ _ leaves => exact leaves.control

end

/-! ### Rounds that change the tree -/

/-- The state is in a call of `ConfigNode::Copy` that looks at `child` next. -/
structure Copying (s : State) (job : Job) (hasNext : Bool) (frame : CopyFrame)
    (frames : List CopyFrame) (child : AstObject) : Prop where
  control : s.control = .copy job hasNext (frame :: frames)
  child : ((s.root.get? frame.src).bind fun src => (allChildren src)[frame.index]?) = some child

/-- The child is an object of the tree, unless the source is a leaf whose parts
are read as objects of their own. -/
theorem Copying.source {s : State} {job : Job} {hasNext : Bool} {frame : CopyFrame}
    {frames : List CopyFrame} {child : AstObject} (h : Copying s job hasNext frame frames child) :
    s.root.get? (frame.index :: frame.src) = some child ∨ ∃ v, child = .leaf (.value v) := by
  obtain ⟨src, there, next⟩ := Option.bind_eq_some_iff.mp h.child
  cases src with
  | node node children =>
    left
    rw [Tree.get?_child there]
    exact next
  | leaf leaf =>
    right
    have member := List.mem_of_getElem? next
    cases leaf with
    | term term => exact ⟨_, by simpa [allChildren] using member⟩
    | value value =>
      cases value with
      | array arrayType arraySize elements =>
        obtain ⟨e, _, same⟩ := List.mem_map.mp member
        exact ⟨_, same.symm⟩
      | datum d | nodeRef path | delete => cases member

/-- The next round appends a copy of `child` to the node at `dst`. -/
def Appends (s : State) (job : Job) (dst : Pos) (child : AstObject) : Prop :=
  ∃ hasNext frame frames, Copying s job hasNext frame frames child ∧ frame.dst = dst ∧
    lookupIndex (s.root.childrenAt dst) (name child) (some (type child)) = none

/-- The copy that the next round appends: the job, the node it goes to and the original. -/
def appending (s : State) : Option (Job × Pos × AstObject) :=
  match s.control with
  | .copy job _ (frame :: _) =>
    match (s.root.get? frame.src).bind fun src => (allChildren src)[frame.index]? with
    | none => none
    | some child =>
      match lookupIndex (s.root.childrenAt frame.dst) (name child) (some (type child)) with
      | none => some (job, frame.dst, child)
      | some _ => none
  | _ => none

theorem Appends.appending {s : State} {job : Job} {dst : Pos} {child : AstObject}
    (h : Appends s job dst child) : appending s = some (job, dst, child) := by
  obtain ⟨hasNext, frame, frames, copying, rfl, absent⟩ := h
  rw [HcGen.appending, copying.control]
  dsimp only
  rw [copying.child]
  dsimp only
  rw [absent]

/-- The next round copies the payload of the leaf `src` into the leaf `this` at `dst`. -/
def Overwrites (s : State) (dst : Pos) (this src : Leaf) : Prop :=
  ∃ job hasNext frame frames i, Copying s job hasNext frame frames (.leaf src) ∧
    lookupIndex (s.root.childrenAt frame.dst) (name (.leaf src)) (some (type (.leaf src))) =
      some i ∧
    dst = i :: frame.dst ∧ job.overwrite = true ∧ s.root.get? dst = some (.leaf this)

theorem Overwrites.there {s : State} {dst : Pos} {this src : Leaf} (h : Overwrites s dst this src) :
    s.root.get? dst = some (.leaf this) := by
  obtain ⟨_, _, _, _, _, _, _, _, _, there⟩ := h
  exact there

/-- `NodeExpand` is about to call back on `object`. -/
structure Visiting (s : State) (object : AstObject) : Prop where
  control : s.control = .walk
  walk : s.walk = .nodeExpand
  there : s.root.get? s.current = some object
  done : object.children = [] ∨ s.preVisited = true

/-- `InheritExpand` is about to call back on `object`. -/
structure Entering (s : State) (object : AstObject) : Prop where
  control : s.control = .walk
  walk : s.walk = .inheritExpand
  there : s.root.get? s.current = some object
  first : s.preVisited = false

/-- The visited node is a reference or a copy of the object at `ref`, not one of its elders. -/
structure Refers (s : State) (node : ConfigNode) (ref : Pos) : Prop where
  found : lookup s.root s.current node.refNodePath = some ref
  stranger : ¬ ref <:+ s.current

/-- The next round calls `ConfigArray::Copy` on a source that has children. -/
inductive CopiesArray (s : State) : Prop
  | overwrite {dst this src} (overwrites : Overwrites s dst this src)
    (fits : this.copyable src = true) (array : this.getValue.type = .array)
    (elements : allChildren (.leaf (.value src.getValue)) ≠ [])
  | term {node children ref term child} (visit : Visiting s (.node node children))
    (marked : node.nodeType = .ref) (refers : Refers s node ref)
    (there : s.root.get? ref = some (.leaf (.term term)))
    (first : s.root.get? (0 :: s.current) = some child) (array : term.value.type = .array)
    (elements : allChildren child ≠ [])
  | value {node children ref value} (visit : Visiting s (.node node children))
    (marked : node.nodeType = .ref) (refers : Refers s node ref)
    (there : s.root.get? ref = some (.leaf (.value value))) (array : value.type = .array)
    (elements : children ≠ [])

/-- The rounds of an expansion that go on to another state. -/
inductive Stepped (s : State) : State → Prop
  | endless (control : s.control = .copyArray) : Stepped s s
  | down {object} (control : s.control = .walk) (walk : s.walk = .nodeExpand)
    (there : s.root.get? s.current = some object) (inner : object.children ≠ [])
    (first : s.preVisited = false) :
    Stepped s { s with current := 0 :: s.current, preVisited := false, control := .walk }
  | passed {object t} (visit : Visiting s object) (rests : restful object = true)
    (leaves : Left s false s.hasNext t) : Stepped s t
  | removed {object t} (visit : Visiting s object) (dead : deleted object = true)
    (leaves : Left { s with root := s.root.eraseAt s.current } true s.hasNext t) : Stepped s t
  | resolved {term path ref uid t} (visit : Visiting s (.leaf (.term term)))
    (value : term.value = .nodeRef path) (found : lookup s.root s.current path = some ref)
    (target : refTarget s.root ref = some uid)
    (leaves : Left { s with root := updateLeaf s.root s.current (Leaf.setRefNode uid) } false
      s.hasNext t) : Stepped s t
  | refStarts {node children target below ref} (visit : Visiting s (.node node children))
    (marked : node.nodeType = .ref) (refers : Refers s node ref)
    (there : s.root.get? ref = some (.node target below)) :
    Stepped s { s with control := .copy .nodeRef s.hasNext [⟨ref, s.current, 0⟩] }
  | copyStarts {node children ref} (visit : Visiting s (.node node children))
    (marked : node.nodeType = .copy) (refers : Refers s node ref) :
    Stepped s {
      s with
      root := updateNode s.root s.current fun node => { node with nodeType := .noref }
      control := .copy .nodeCopy s.hasNext [⟨s.current, ref, 0⟩] }
  | termMoved {node children term child copied ref t} (visit : Visiting s (.node node children))
    (marked : node.nodeType = .ref) (refers : Refers s node ref)
    (there : s.root.get? ref = some (.leaf (.term term)))
    (first : s.root.get? (0 :: s.current) = some child)
    (copies : term.value.copyFrom child = some copied)
    (leaves : Left {
      s with
      root := (updateLeaf s.root ref (Leaf.setValue copied)).eraseAt (0 :: s.current) } false
      s.hasNext t) : Stepped s t
  | valueMoved {node children value copied ref t} (visit : Visiting s (.node node children))
    (marked : node.nodeType = .ref) (refers : Refers s node ref)
    (there : s.root.get? ref = some (.leaf (.value value)))
    (copies : value.copyFrom (.node node children) = some copied)
    (leaves : Left {
      s with
      root := (updateLeaf s.root ref (Leaf.setValue copied)).eraseAt s.current } true
      s.hasNext t) : Stepped s t
  | stuck (array : CopiesArray s) : Stepped s { s with control := .copyArray }
  | popped {job hasNext frame frames} (control : s.control = .copy job hasNext (frame :: frames)) :
    Stepped s { s with control := .copy job hasNext frames }
  | appended {job hasNext frame frames child} (copying : Copying s job hasNext frame frames child)
    (absent : lookupIndex (s.root.childrenAt frame.dst) (name child) (some (type child)) = none) :
    Stepped s {
      s with
      root := s.root.appendAt frame.dst (build s.fresh child)
      fresh := s.fresh + s.fresh
      control := .copy job hasNext ({ frame with index := frame.index + 1 } :: frames) }
  | pushed {job hasNext frame frames node children i}
    (copying : Copying s job hasNext frame frames (.node node children))
    (present : lookupIndex (s.root.childrenAt frame.dst) node.name (some .confNode) = some i) :
    Stepped s {
      s with
      control := .copy job hasNext
        (⟨i :: frame.dst, frame.index :: frame.src, 0⟩ ::
          { frame with index := frame.index + 1 } :: frames) }
  | skipped {job hasNext frame frames leaf}
    (copying : Copying s job hasNext frame frames (.leaf leaf))
    (keeps : job.overwrite = false) :
    Stepped s {
      s with
      control := .copy job hasNext ({ frame with index := frame.index + 1 } :: frames) }
  | overwritten {job hasNext frame frames this leaf copied i}
    (copying : Copying s job hasNext frame frames (.leaf leaf))
    (present : lookupIndex (s.root.childrenAt frame.dst) (name (.leaf leaf))
      (some (type (.leaf leaf))) = some i)
    (overwrites : job.overwrite = true)
    (there : s.root.get? (i :: frame.dst) = some (.leaf this))
    (fits : this.copyable leaf = true)
    (copies : this.getValue.copyFrom (.leaf (.value leaf.getValue)) = some copied) :
    Stepped s {
      s with
      root := updateLeaf s.root (i :: frame.dst) (Leaf.setValue copied)
      control := .copy job hasNext ({ frame with index := frame.index + 1 } :: frames) }
  | copied {hasNext t} (control : s.control = .copy .nodeCopy hasNext [])
    (leaves : Left s false hasNext t) : Stepped s t
  | referred {hasNext t} (control : s.control = .copy .nodeRef hasNext [])
    (leaves : Left { s with root := s.root.eraseAt s.current } true hasNext t) : Stepped s t
  | inherited {template hasNext node children templateNode below t}
    (control : s.control = .copy (.inherit template) hasNext [])
    (there : s.root.get? s.current = some (.node node children))
    (base : s.root.get? template = some (.node templateNode below))
    (goes : Went {
      s with
      root := updateNode
        (updateNode s.root template fun t =>
          { t with inheritCount := t.inheritCount + 1, subClasses := t.subClasses ++ [node.uid] })
        s.current fun n => { n with inheritIndex := templateNode.inheritCount } } t) : Stepped s t
  | back {object t} (control : s.control = .walk) (walk : s.walk = .inheritExpand)
    (there : s.root.get? s.current = some object) (again : s.preVisited = true)
    (leaves : Left s false s.hasNext t) : Stepped s t
  | forth {object t} (enter : Entering s object)
    (plain : ∀ node children, object = .node node children → node.nodeType ≠ .inherit)
    (goes : Went s t) : Stepped s t
  | inheritStarts {node children ref} (enter : Entering s (.node node children))
    (marked : node.nodeType = .inherit)
    (found : lookup s.root s.current node.refNodePath = some ref) :
    Stepped s { s with control := .copy (.inherit ref) false [⟨s.current, ref, 0⟩] }

/-! ### The inversion -/

/-- Only the `Copy` into an array has no result, and only from a source with children. -/
theorem copyFrom_eq_none_iff {value : Value} {src : AstObject} :
    value.copyFrom src = none ↔ value.type = .array ∧ allChildren src ≠ [] := by
  cases value with
  | datum d => cases d <;> simp [Value.copyFrom, Value.type, Datum.type]
  | nodeRef path | delete | array arrayType arraySize elements => simp [Value.copyFrom, Value.type]

section

variable {s t : State}

private theorem copyLeaf_stepped {job : Job} {hasNext : Bool} {frame : CopyFrame}
    {frames : List CopyFrame} {leaf : Leaf} {i : ℕ}
    (copying : Copying s job hasNext frame frames (.leaf leaf))
    (present : lookupIndex (s.root.childrenAt frame.dst) (name (.leaf leaf))
      (some (type (.leaf leaf))) = some i)
    (h : copyLeaf s job hasNext ({ frame with index := frame.index + 1 } :: frames)
      (i :: frame.dst) leaf = .next t) : Stepped s t := by
  unfold copyLeaf at h
  split at h
  case isTrue keeps =>
    cases h
    exact .skipped copying (by simpa using keeps)
  case isFalse overwrites =>
    split at h
    case h_1 this there =>
      split at h
      case isTrue fits =>
        split at h
        case h_1 copied copies =>
          cases h
          exact .overwritten copying present (by simpa using overwrites) there fits copies
        case h_2 none =>
          cases h
          obtain ⟨array, elements⟩ := copyFrom_eq_none_iff.mp none
          exact .stuck (.overwrite ⟨job, hasNext, frame, frames, i, copying, present, rfl,
            by simpa using overwrites, there⟩ fits array elements)
      case isFalse => cases h
    case h_2 => cases h

private theorem finishJob_stepped {job : Job} {hasNext : Bool}
    (control : s.control = .copy job hasNext []) (h : finishJob s hasNext job = .next t) :
    Stepped s t := by
  cases job with
  | nodeCopy => exact .copied control (leave_eq_next h)
  | nodeRef => exact .referred control (leave_eq_next h)
  | inherit template =>
    rw [finishJob] at h
    split at h
    case h_1 node children templateNode below there base =>
      split at h
      case isTrue => exact .inherited control there base (forward_eq_next h)
      case isFalse => cases h
    case h_2 => cases h

private theorem copyStep_stepped {job : Job} {hasNext : Bool} {frames : List CopyFrame}
    (control : s.control = .copy job hasNext frames)
    (h : copyStep s job hasNext frames = .next t) : Stepped s t := by
  cases frames with
  | nil => exact finishJob_stepped control h
  | cons frame frames =>
    simp only [copyStep] at h
    split at h
    case h_1 => cases h
    case h_2 src source =>
      split at h
      case h_1 => cases h; exact .popped control
      case h_2 child next =>
        have copying : Copying s job hasNext frame frames child :=
          ⟨control, by rw [source]; exact next⟩
        split at h
        case h_1 absent => cases h; exact .appended copying absent
        case h_2 i present =>
          split at h
          case h_1 node children => cases h; exact .pushed copying present
          case h_2 leaf => exact copyLeaf_stepped copying present h

private theorem termMove_stepped {node : ConfigNode} {children : List AstObject} {ref : Pos}
    {term : ConfigTerm} (visit : Visiting s (.node node children))
    (marked : node.nodeType = .ref) (refers : Refers s node ref)
    (there : s.root.get? ref = some (.leaf (.term term)))
    (h : termMove s ref term s.hasNext = .next t) : Stepped s t := by
  unfold termMove at h
  split at h
  case h_1 => split at h <;> cases h
  case h_2 child first =>
    split at h
    case h_1 copied copies =>
      exact .termMoved visit marked refers there first copies (leave_eq_next h)
    case h_2 none =>
      cases h
      obtain ⟨array, elements⟩ := copyFrom_eq_none_iff.mp none
      exact .stuck (.term visit marked refers there first array elements)

private theorem valueMove_stepped {node : ConfigNode} {children : List AstObject} {ref : Pos}
    {value : Value} (visit : Visiting s (.node node children))
    (marked : node.nodeType = .ref) (refers : Refers s node ref)
    (there : s.root.get? ref = some (.leaf (.value value)))
    (h : valueMove s ref value s.hasNext = .next t) : Stepped s t := by
  unfold valueMove at h
  rw [visit.there] at h
  split at h
  case h_1 none => cases none
  case h_2 object same =>
    cases same
    split at h
    case h_1 copied copies => exact .valueMoved visit marked refers there copies (leave_eq_next h)
    case h_2 none =>
      cases h
      obtain ⟨array, elements⟩ := copyFrom_eq_none_iff.mp none
      exact .stuck (.value visit marked refers there array elements)

private theorem nodeRefOrCopy_stepped {node : ConfigNode} {children : List AstObject}
    (visit : Visiting s (.node node children))
    (marked : node.nodeType = .ref ∨ node.nodeType = .copy)
    (h : nodeRefOrCopy s node s.hasNext = .next t) : Stepped s t := by
  unfold nodeRefOrCopy at h
  split at h
  case h_1 => cases h
  case h_2 ref found =>
    split at h
    case isTrue => cases h
    case isFalse stranger =>
      have refers : Refers s node ref := ⟨found, by simpa [isElders] using stranger⟩
      split at h
      case isTrue isRef =>
        unfold nodeRefExpand at h
        split at h
        case h_1 => cases h
        case h_2 target below there => cases h; exact .refStarts visit isRef refers there
        case h_3 term there => exact termMove_stepped visit isRef refers there h
        case h_4 value there => exact valueMove_stepped visit isRef refers there h
      case isFalse notRef =>
        cases h
        exact .copyStarts visit (marked.resolve_left notRef) refers

private theorem nodeExpandVisit_stepped {object : AstObject} (visit : Visiting s object)
    (h : nodeExpandVisit s object = .next t) : Stepped s t := by
  unfold nodeExpandVisit at h
  split at h
  case h_1 node children =>
    split at h
    case h_1 kind => exact .removed visit (by simp [deleted, kind]) (leave_eq_next h)
    case h_2 kind => exact nodeRefOrCopy_stepped visit (.inl kind) h
    case h_3 kind => exact nodeRefOrCopy_stepped visit (.inr kind) h
    case h_4 notDelete notRef notCopy =>
      refine .passed visit ?_ (leave_eq_next h)
      simpa [restful, ConfigNode.unexpanded] using ⟨⟨notCopy, notRef⟩, notDelete⟩
  case h_2 term =>
    split at h
    case h_1 value => exact .removed visit (by simp [deleted, value]) (leave_eq_next h)
    case h_2 path value =>
      unfold termRefExpand at h
      split at h
      case h_1 => cases h
      case h_2 uid target =>
        obtain ⟨ref, found, target⟩ := Option.bind_eq_some_iff.mp target
        exact .resolved visit value found target (leave_eq_next h)
    case h_3 notDelete notRef =>
      refine .passed visit ?_ (leave_eq_next h)
      unfold restful
      split
      case h_1 node below same => cases same
      case h_2 term' same =>
        cases same
        split
        case h_1 value => exact absurd value notDelete
        case h_2 path value => exact absurd value (notRef path)
        case h_3 => rfl
      case h_3 => rfl
  case h_3 value => exact .passed visit rfl (leave_eq_next h)

private theorem inheritExpandVisit_stepped {object : AstObject} (enter : Entering s object)
    (h : inheritExpandVisit s object = .next t) : Stepped s t := by
  unfold inheritExpandVisit at h
  split at h
  case h_1 node children =>
    split at h
    case isTrue other =>
      refine .forth enter ?_ (forward_eq_next h)
      rintro _ _ ⟨⟩
      exact other
    case isFalse marked =>
      split at h
      case h_1 => cases h
      case h_2 ref found => cases h; exact .inheritStarts enter (not_not.mp marked) found
  case h_2 leaf =>
    refine .forth enter ?_ (forward_eq_next h)
    rintro _ _ ⟨⟩

/-- A step that goes on is one of the listed rounds. -/
theorem stepped (h : step s = .next t) : Stepped s t := by
  unfold step at h
  split at h
  case h_1 control => cases h; exact .endless control
  case h_2 job hasNext frames control => exact copyStep_stepped control h
  case h_3 control =>
    split at h
    case h_1 walk =>
      unfold walkBackward at h
      split at h
      case h_1 => cases h
      case h_2 object there =>
        split at h
        case isTrue done => exact nodeExpandVisit_stepped ⟨control, walk, there, done⟩ h
        case isFalse open_ =>
          obtain ⟨inner, first⟩ := not_or.mp open_
          cases h
          exact .down control walk there inner (by simpa using first)
    case h_2 walk =>
      unfold walkForward at h
      split at h
      case h_1 => cases h
      case h_2 object there =>
        split at h
        case isTrue again => exact .back control walk there again (leave_eq_next h)
        case isFalse first =>
          exact inheritExpandVisit_stepped ⟨control, walk, there, by simpa using first⟩ h

end

/-! ### Rounds within a Copy -/

/-- The rounds that stay within the calls of `Copy`. -/
inductive CopyRound (s : State) (job : Job) (hasNext : Bool) : List CopyFrame → State → Prop
  | popped {frame frames} :
    CopyRound s job hasNext (frame :: frames) { s with control := .copy job hasNext frames }
  | appended {frame frames child} (copying : Copying s job hasNext frame frames child)
    (absent : lookupIndex (s.root.childrenAt frame.dst) (name child) (some (type child)) = none) :
    CopyRound s job hasNext (frame :: frames) {
      s with
      root := s.root.appendAt frame.dst (build s.fresh child)
      fresh := s.fresh + s.fresh
      control := .copy job hasNext ({ frame with index := frame.index + 1 } :: frames) }
  | pushed {frame frames node children i}
    (copying : Copying s job hasNext frame frames (.node node children))
    (present : lookupIndex (s.root.childrenAt frame.dst) node.name (some .confNode) = some i) :
    CopyRound s job hasNext (frame :: frames) {
      s with
      control := .copy job hasNext
        (⟨i :: frame.dst, frame.index :: frame.src, 0⟩ ::
          { frame with index := frame.index + 1 } :: frames) }
  | skipped {frame frames leaf} (copying : Copying s job hasNext frame frames (.leaf leaf))
    (keeps : job.overwrite = false) :
    CopyRound s job hasNext (frame :: frames) {
      s with
      control := .copy job hasNext ({ frame with index := frame.index + 1 } :: frames) }
  | overwritten {frame frames this leaf copied i}
    (copying : Copying s job hasNext frame frames (.leaf leaf))
    (overwrites : Overwrites s (i :: frame.dst) this leaf) (writes : job.overwrite = true)
    (copies : this.getValue.copyFrom (.leaf (.value leaf.getValue)) = some copied) :
    CopyRound s job hasNext (frame :: frames) {
      s with
      root := updateLeaf s.root (i :: frame.dst) (Leaf.setValue copied)
      control := .copy job hasNext ({ frame with index := frame.index + 1 } :: frames) }

theorem copyRound {s t : State} {job job' : Job} {hasNext hasNext' : Bool}
    {frames frames' : List CopyFrame} (control : s.control = .copy job hasNext frames)
    (control' : t.control = .copy job' hasNext' frames') (goes : step s = .next t) :
    CopyRound s job hasNext frames t := by
  have walking (h : s.control = .walk) : False := by cases h.symm.trans control
  cases stepped goes with
  | endless array => cases array.symm.trans control
  | down h => exact (walking h).elim
  | passed visit | removed visit | resolved visit | refStarts visit | copyStarts visit
  | termMoved visit | valueMoved visit => exact (walking visit.control).elim
  | stuck => cases control'
  | popped same =>
    cases same.symm.trans control
    exact .popped
  | appended copying absent =>
    cases copying.control.symm.trans control
    exact .appended copying absent
  | pushed copying present =>
    cases copying.control.symm.trans control
    exact .pushed copying present
  | skipped copying keeps =>
    cases copying.control.symm.trans control
    exact .skipped copying keeps
  | overwritten copying present overwrites there _ copies =>
    cases copying.control.symm.trans control
    exact .overwritten copying ⟨_, _, _, _, _, copying, present, rfl, overwrites, there⟩ overwrites
      copies
  | copied _ leaves | referred _ leaves => cases leaves.control.symm.trans control'
  | inherited _ _ _ went => cases went.control.symm.trans control'
  | back h => exact (walking h).elim
  | forth enter | inheritStarts enter => exact (walking enter.control).elim

end Hdf.HcGen
