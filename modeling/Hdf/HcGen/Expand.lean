import Hdf.Lib.Transition
import Hdf.HcGen.Ast

/-!
# Expansion of a merged AST

`Ast::Expand` rewrites the tree while it walks it: `NodeExpand` resolves copies,
references and deletions in a backward walk, `InheritExpand` fills nodes that
inherit from templates in a forward walk. Both are transcribed as one transition
program whose steps are the rounds of the source's loops, so that the run sees
every intermediate tree: the walk, the nested `Copy` loops (a stack of frames,
one for each active call of `ConfigNode::Copy`) and the loop of
`ConfigArray::Copy`.

Objects below a term are not walked, since neither callback does anything there.
The root is a plain node, so no path is looked up from it and it is never
removed.
-/

namespace Hdf.HcGen

open Transition

/-! ### Copying values -/

/-- The `integerValue_` of an object. -/
def integerValue : AstObject → UInt64
  | .leaf (.value (.datum (.number _ integerValue))) => integerValue
  | _ => 0

/-- The `stringValue_` of an object. -/
def stringValue : AstObject → Bytes
  | .leaf (.value (.datum (.string stringValue))) => stringValue
  | .leaf (.value (.nodeRef path)) => path
  | _ => []

/-- The child list of an object, with the value of a term and the elements of an
array as objects of their own. -/
def allChildren : AstObject → List AstObject
  | .node _ children => children
  | .leaf (.term term) => [.leaf (.value term.value)]
  | .leaf (.value (.array _ _ elements)) => elements.map fun e => .leaf (.value (.datum e))
  | .leaf (.value _) => []

namespace Value

/-- `AstObject::IsNumber`. -/
def isNumber : Value → Bool
  | datum (.number ..) => true
  | _ => false

/-- The overwriting `Copy` of a value object: `AstObject::Copy` keeps the type
and takes over the payload. `ConfigArray::Copy` drops the elements, leaves the
element count and then appends the first element of the source forever; there
is no result unless the source is empty. -/
def copyFrom (this : Value) (src : AstObject) : Option Value :=
  match this with
  | datum (.number type _) => some (.datum (.number type (integerValue src)))
  | datum (.string _) => some (.datum (.string (stringValue src)))
  | nodeRef _ => some (.nodeRef (stringValue src))
  | delete => some .delete
  | array arrayType arraySize _ =>
    if allChildren src = [] then some (.array arrayType arraySize []) else none

end Value

namespace Leaf

/-- The value of a leaf object. -/
def getValue : Leaf → Value
  | term t => t.value
  | .value v => v

/-- Puts a value into a leaf object. -/
def setValue (v : Value) : Leaf → Leaf
  | term t => term { t with value := v }
  | .value _ => .value v

/-- The type test of `ConfigTerm::Copy`. -/
def copyable (dst src : Leaf) : Bool :=
  dst.getValue.type == src.getValue.type || (dst.getValue.isNumber && src.getValue.isNumber)

end Leaf

/-! ### States -/

/-- The two walks of `Ast::Expand`. -/
inductive Walk where
  | nodeExpand | inheritExpand
  deriving DecidableEq, Repr

/-- An active call of `ConfigNode::Copy`: the object copied into, the object
copied from and how many of its children are done. -/
structure CopyFrame where
  dst : Pos
  src : Pos
  index : ℕ
  deriving DecidableEq, Repr

/-- The caller of the outermost `Copy`. -/
inductive Job where
  | nodeRef | nodeCopy | inherit (template : Pos)
  deriving DecidableEq, Repr

/-- The `overwrite` argument of a job's `Copy`. -/
def Job.overwrite : Job → Bool
  | nodeRef => true
  | nodeCopy => false
  | inherit _ => false

/-- The loop an expansion is in. `hasNext` tells whether the walk found a next
sibling before it called back. -/
inductive Control where
  | walk
  | copy (job : Job) (hasNext : Bool) (frames : List CopyFrame)
  | copyArray
  deriving DecidableEq, Repr

/-- The state of an expansion. New objects get addresses from `fresh` on. -/
structure State where
  walk : Walk
  root : AstObject
  fresh : ℕ
  current : Pos
  preVisited : Bool
  control : Control

/-- How an expansion ends. A null pointer access has no result. -/
inductive Outcome where
  | returned (ok : Bool) (root : AstObject)
  | crashed

/-! ### Changes of the tree -/

/-- Changes the node at a position. -/
def updateNode (root : AstObject) (p : Pos) (f : ConfigNode → ConfigNode) : AstObject :=
  root.relabelAt p f id

/-- Changes the leaf at a position. -/
def updateLeaf (root : AstObject) (p : Pos) (f : Leaf → Leaf) : AstObject :=
  root.relabelAt p id f

/-- Sets the `refNode_` of a term. -/
def Leaf.setRefNode (uid : ℕ) : Leaf → Leaf
  | term t => term { t with refNode := some uid }
  | .value v => .value v

/-! ### Walking -/

/-- Whether the current object has a next sibling. -/
def State.hasNext (s : State) : Bool :=
  match s.current with
  | [] => false
  | i :: parent => (s.root.get? ((i + 1) :: parent)).isSome

/-- The end of a walk's round: on to the next sibling, which has moved up when
the current object was removed, or back to the parent. -/
def leave (s : State) (removed hasNext : Bool) : Step State Outcome :=
  match s.current with
  | [] =>
    match s.walk with
    | .nodeExpand =>
      .next { s with walk := .inheritExpand, preVisited := false, control := .walk }
    | .inheritExpand => .halt (.returned true s.root)
  | i :: parent =>
    if hasNext then
      .next {
        s with
        current := (if removed then i else i + 1) :: parent
        preVisited := false
        control := .walk }
    else .next { s with current := parent, preVisited := true, control := .walk }

/-- Goes on to the first child. -/
def descendStep (s : State) : Step State Outcome :=
  .next { s with current := 0 :: s.current, preVisited := false, control := .walk }

/-- The round of `WalkForward` after its callback. -/
def forward (s : State) : Step State Outcome :=
  match s.root.get? s.current with
  | none => .halt .crashed
  | some object => if object.children = [] then leave s false s.hasNext else descendStep s

/-! ### `Copy` -/

mutual

/-- `ConfigNode::Compare`. Every child is looked up in its own parent. -/
def compare : AstObject → Bool
  | .leaf _ => true
  | .node _ children => compareChildren children children

/-- The loop of `ConfigNode::Compare`, which ends with the first child node. -/
def compareChildren (all : List AstObject) : List AstObject → Bool
  | [] => true
  | .leaf leaf :: rest =>
    (lookupIndex all (name (.leaf leaf)) (some (type (.leaf leaf)))).isSome &&
      compareChildren all rest
  | .node node children :: _ =>
    (lookupIndex all node.name (some .confNode)).isSome && compare (.node node children)

end

/-- What a job does after its `Copy` has succeeded. -/
def finishJob (s : State) (hasNext : Bool) : Job → Step State Outcome
  | .nodeCopy => leave s false hasNext
  | .nodeRef => leave { s with root := s.root.eraseAt s.current } true hasNext
  | .inherit template =>
    match s.root.get? s.current, s.root.get? template with
    | some (.node node children), some (.node templateNode _) =>
      if compare (.node node children) then
        let counted := updateNode s.root template fun t =>
          { t with inheritCount := t.inheritCount + 1, subClasses := t.subClasses ++ [node.uid] }
        forward {
          s with
          root := updateNode counted s.current fun n =>
            { n with inheritIndex := templateNode.inheritCount } }
      else .halt (.returned false s.root)
    | _, _ => .halt .crashed

/-- The leaf branch of `ConfigNode::Copy`: the object `src` is copied into the
leaf that stands at `dst`. -/
def copyLeaf (s : State) (job : Job) (hasNext : Bool) (frames : List CopyFrame) (dst : Pos)
    (src : Leaf) : Step State Outcome :=
  if !job.overwrite then .next { s with control := .copy job hasNext frames }
  else match s.root.get? dst with
  | some (.leaf this) =>
    if this.copyable src then
      match this.getValue.copyFrom (.leaf (.value src.getValue)) with
      | some copied => .next {
          s with
          root := updateLeaf s.root dst (Leaf.setValue copied)
          control := .copy job hasNext frames }
      | none => .next { s with control := .copyArray }
    else .halt (.returned false s.root)
  | _ => .halt .crashed

/-- One round of the innermost active `ConfigNode::Copy`. -/
def copyStep (s : State) (job : Job) (hasNext : Bool) : List CopyFrame → Step State Outcome
  | [] => finishJob s hasNext job
  | frame :: frames =>
    match s.root.get? frame.src with
    | none => .halt .crashed
    | some src =>
      match (allChildren src)[frame.index]? with
      | none => .next { s with control := .copy job hasNext frames }
      | some child =>
        let rest := { frame with index := frame.index + 1 } :: frames
        match lookupIndex (s.root.childrenAt frame.dst) (name child) (some (type child)) with
        | none => .next {
            s with
            root := s.root.appendAt frame.dst (build s.fresh child)
            fresh := s.fresh + s.fresh
            control := .copy job hasNext rest }
        | some i =>
          match child with
          | .node .. => .next {
              s with
              control := .copy job hasNext (⟨i :: frame.dst, frame.index :: frame.src, 0⟩ :: rest) }
          | .leaf leaf => copyLeaf s job hasNext rest (i :: frame.dst) leaf

/-! ### The callbacks -/

/-- `ConfigTerm::Move` with the current node as the source, which moves the
node's first child into the value of the term at `ref`. -/
def termMove (s : State) (ref : Pos) (term : ConfigTerm) (hasNext : Bool) : Step State Outcome :=
  match s.root.get? (0 :: s.current) with
  | none =>
    match term.value with
    | .array .. => .halt .crashed
    | _ => .halt (.returned false s.root)
  | some child =>
    match term.value.copyFrom child with
    | some copied =>
      let moved := updateLeaf s.root ref (Leaf.setValue copied)
      leave { s with root := moved.eraseAt (0 :: s.current) } false hasNext
    | none => .next { s with control := .copyArray }

/-- `AstObject::Move` of the current node into the bare value at `ref`. -/
def valueMove (s : State) (ref : Pos) (value : Value) (hasNext : Bool) : Step State Outcome :=
  match s.root.get? s.current with
  | none => .halt .crashed
  | some object =>
    match value.copyFrom object with
    | some copied =>
      let moved := updateLeaf s.root ref (Leaf.setValue copied)
      leave { s with root := moved.eraseAt s.current } true hasNext
    | none => .next { s with control := .copyArray }

/-- `ConfigNode::NodeRefExpand`. -/
def nodeRefExpand (s : State) (ref : Pos) (hasNext : Bool) : Step State Outcome :=
  match s.root.get? ref with
  | none => .halt .crashed
  | some (.node ..) =>
    .next { s with control := .copy .nodeRef hasNext [⟨ref, s.current, 0⟩] }
  | some (.leaf (.term term)) => termMove s ref term hasNext
  | some (.leaf (.value value)) => valueMove s ref value hasNext

/-- `ConfigNode::NodeCopyExpand`. -/
def nodeCopyExpand (s : State) (ref : Pos) (hasNext : Bool) : Step State Outcome :=
  .next {
    s with
    root := updateNode s.root s.current fun node => { node with nodeType := .noref }
    control := .copy .nodeCopy hasNext [⟨s.current, ref, 0⟩] }

/-- `AstObject::IsElders`. -/
def isElders (this child : Pos) : Bool := this.isSuffixOf child

/-- `ConfigNode::RefExpand` on a node that refers to another one. -/
def nodeRefOrCopy (s : State) (node : ConfigNode) (hasNext : Bool) : Step State Outcome :=
  match lookup s.root s.current node.refNodePath with
  | none => .halt (.returned false s.root)
  | some ref =>
    if isElders ref s.current then .halt (.returned false s.root)
    else if node.nodeType = .ref then nodeRefExpand s ref hasNext
    else nodeCopyExpand s ref hasNext

/-- The node that a reference term may point to, by its address. -/
def refTarget (root : AstObject) (ref : Pos) : Option ℕ :=
  match root.get? ref with
  | some (.node node _) =>
    if node.nodeType = .ref ∨ node.nodeType = .template ∨ node.nodeType = .delete then none
    else some node.uid
  | _ => none

/-- `ConfigTerm::RefExpand` on a term with a node reference. -/
def termRefExpand (s : State) (path : Bytes) (hasNext : Bool) : Step State Outcome :=
  match (lookup s.root s.current path).bind (refTarget s.root) with
  | none => .halt (.returned false s.root)
  | some uid =>
    leave { s with root := updateLeaf s.root s.current (Leaf.setRefNode uid) } false hasNext

/-- The callback of `Ast::NodeExpand`. -/
def nodeExpandVisit (s : State) : AstObject → Step State Outcome
  | .node node _ =>
    match node.nodeType with
    | .delete => leave { s with root := s.root.eraseAt s.current } true s.hasNext
    | .ref | .copy => nodeRefOrCopy s node s.hasNext
    | _ => leave s false s.hasNext
  | .leaf (.term term) =>
    match term.value with
    | .delete => leave { s with root := s.root.eraseAt s.current } true s.hasNext
    | .nodeRef path => termRefExpand s path s.hasNext
    | _ => leave s false s.hasNext
  | .leaf (.value _) => leave s false s.hasNext

/-- The callback of `Ast::InheritExpand`, up to the `Copy` it starts. -/
def inheritExpandVisit (s : State) : AstObject → Step State Outcome
  | .node node _ =>
    if node.nodeType ≠ .inherit then forward s
    else match lookup s.root s.current node.refNodePath with
    | none => .halt (.returned false s.root)
    | some ref =>
      .next { s with control := .copy (.inherit ref) false [⟨s.current, ref, 0⟩] }
  | .leaf _ => forward s

/-! ### The program -/

/-- One round of `WalkBackward`. -/
def walkBackward (s : State) : Step State Outcome :=
  match s.root.get? s.current with
  | none => .halt .crashed
  | some object =>
    if object.children = [] ∨ s.preVisited then nodeExpandVisit s object else descendStep s

/-- One round of `WalkForward`. -/
def walkForward (s : State) : Step State Outcome :=
  match s.root.get? s.current with
  | none => .halt .crashed
  | some object =>
    if s.preVisited then leave s false s.hasNext else inheritExpandVisit s object

/-- One round of the loop that the expansion is in. -/
def step (s : State) : Step State Outcome :=
  match s.control with
  | .copyArray => .next s
  | .copy job hasNext frames => copyStep s job hasNext frames
  | .walk =>
    match s.walk with
    | .nodeExpand => walkBackward s
    | .inheritExpand => walkForward s

/-- The state in which `NodeExpand` starts. -/
def start (root : AstObject) (fresh : ℕ) : State where
  walk := .nodeExpand
  root := root
  fresh := fresh
  current := []
  preVisited := false
  control := .walk

end Hdf.HcGen
