import Hdf.Lib.Tree
import Mathlib.Data.List.Nodup

/-!
# The configuration AST of hc-gen

The compiler keeps a configuration as linked objects of four classes. Here an
AST is a `Tree` whose inner nodes are `ConfigNode` objects and whose leaves are
`ConfigTerm` objects, each together with the value object that is its only
child, or bare value objects that a copy has put directly below a node. The
elements of a `ConfigArray` are kept in the array's own value, next to the
element count that the class maintains beside its child list. Positions stand
for pointers into the tree; the address of a node, which a term's `refNode_`
keeps across later changes of the tree, is its `uid`.

Source positions (`src_`, `lineno_`) only reach log messages and are left out.
-/

namespace Hdf.HcGen

/-- The contents of a `std::string`. -/
abbrev Bytes := List UInt8

/-- The bytes of an ASCII text. -/
def ascii (text : String) : Bytes := text.toList.map fun c => UInt8.ofNat c.toNat

/-- The bytes of a text from its characters, so that no literal has to be decoded. -/
theorem ascii_ofList (text : List Char) :
    ascii (String.ofList text) = text.map fun c => UInt8.ofNat c.toNat := by
  rw [ascii, String.toList_ofList]

/-- `enum NodeRefType`. -/
inductive NodeRefType where
  | noref | copy | ref | delete | template | inherit
  deriving DecidableEq, Repr

/-- The value of a `NodeRefType` constant. -/
def NodeRefType.code : NodeRefType → ℕ
  | noref => 0
  | copy => 1
  | ref => 2
  | delete => 3
  | template => 4
  | inherit => 5

/-- The four integer types among `enum ObjectType`. -/
inductive IntType where
  | uint8 | uint16 | uint32 | uint64
  deriving DecidableEq, Repr

/-- The number of bytes of an integer type. -/
def IntType.size : IntType → ℕ
  | uint8 => 1
  | uint16 => 2
  | uint32 => 4
  | uint64 => 8

/-- `enum ObjectType`. -/
inductive ObjectType where
  | int (type : IntType) | string | confNode | confTerm | array | nodeRef | delete
  deriving DecidableEq, Repr

/-- The value of an `ObjectType` constant. -/
def ObjectType.code : ObjectType → ℕ
  | int .uint8 => 1
  | int .uint16 => 2
  | int .uint32 => 3
  | int .uint64 => 4
  | string => 5
  | confNode => 6
  | confTerm => 7
  | array => 8
  | nodeRef => 9
  | delete => 10

/-- `enum TokenType`, without the character tokens. -/
inductive TokenType where
  | number | template | literal | string | refPath | filePath | root | «include» | delete
  deriving DecidableEq, Repr

/-- The value of a `TokenType` constant. -/
def TokenType.code : TokenType → ℕ
  | number => 256
  | template => 257
  | literal => 258
  | string => 259
  | refPath => 260
  | filePath => 261
  | root => 262
  | «include» => 263
  | delete => 264

/-- `AstObject::FitIntegerValueType`. -/
def fitIntegerValueType (value : UInt64) : IntType :=
  if value.toNat ≤ 0xff then .uint8
  else if value.toNat ≤ 0xffff then .uint16
  else if value.toNat ≤ 0xffffffff then .uint32
  else .uint64

/-- A number or string object. -/
inductive Datum where
  | number (type : IntType) (integerValue : UInt64)
  | string (stringValue : Bytes)
  deriving DecidableEq, Repr

/-- The value object of a term. -/
inductive Value where
  | datum (d : Datum)
  | nodeRef (path : Bytes)
  | delete
  | array (arrayType : ℕ) (arraySize : UInt32) (elements : List Datum)
  deriving DecidableEq, Repr

/-- The fields of a `ConfigNode` besides its child list. -/
structure ConfigNode where
  uid : ℕ
  name : Bytes
  nodeType : NodeRefType
  refNodePath : Bytes
  inheritIndex : UInt32 := 0
  inheritCount : UInt32 := 0
  subClasses : List ℕ := []
  deriving DecidableEq, Repr

/-- The fields of a `ConfigTerm`, its child object among them. -/
structure ConfigTerm where
  name : Bytes
  refNode : Option ℕ
  value : Value
  deriving DecidableEq, Repr

/-- An object without node children. -/
inductive Leaf where
  | term (t : ConfigTerm)
  | value (v : Value)
  deriving DecidableEq, Repr

/-- An object of the AST together with everything below it. -/
abbrev AstObject := Tree ConfigNode Leaf

/-- The label of an AST object: the object without its children. -/
abbrev Label := ConfigNode ⊕ Leaf

def Datum.type : Datum → ObjectType
  | number type _ => .int type
  | string _ => .string

def Value.type : Value → ObjectType
  | datum d => d.type
  | nodeRef _ => .nodeRef
  | delete => .delete
  | array .. => .array

namespace Label

/-- `AstObject::Name`. Value objects have the empty name. -/
def name : Label → Bytes
  | .inl node => node.name
  | .inr (.term term) => term.name
  | .inr (.value _) => []

/-- `AstObject::Type`. -/
def type : Label → ObjectType
  | .inl _ => .confNode
  | .inr (.term _) => .confTerm
  | .inr (.value value) => value.type

end Label

def name (object : AstObject) : Bytes := Label.name object.label

def type (object : AstObject) : ObjectType := Label.type object.label

/-- `AstObject::Lookup` over a child list: the first child of that name, and of
that type unless the type is left open. -/
def lookupIndex (children : List AstObject) (wanted : Bytes) (wantedType : Option ObjectType) :
    Option ℕ :=
  children.findIdx? fun child =>
    name child == wanted && wantedType.all fun t => type child == t

/-! ### Copies -/

/-- What the copy constructors keep of an object's own fields. The copy of a
node is a new object, at an address `fresh` above the original's. -/
def buildLabel (fresh : ℕ) : Label → Label
  | .inl node => .inl {
      uid := node.uid + fresh
      name := node.name
      nodeType := node.nodeType
      refNodePath := node.refNodePath }
  | .inr (.term term) => .inr (.term { name := term.name, refNode := none, value := term.value })
  | .inr (.value value) => .inr (.value value)

mutual

/-- `AstObjectFactory::Build`: a deep copy, every node of it at a fresh address. -/
def build (fresh : ℕ) : AstObject → AstObject
  | .leaf (.term term) => .leaf (.term { name := term.name, refNode := none, value := term.value })
  | .leaf (.value value) => .leaf (.value value)
  | .node node children =>
    .node {
      uid := node.uid + fresh
      name := node.name
      nodeType := node.nodeType
      refNodePath := node.refNodePath } (buildList fresh children)

/-- The copy loop of the `ConfigNode` copy constructor. -/
def buildList (fresh : ℕ) : List AstObject → List AstObject
  | [] => []
  | child :: rest => build fresh child :: buildList fresh rest

end

/-! ### Merging -/

/-- The `Merge` of a leaf object: `ConfigTerm::Merge` takes over the value,
`AstObject::Merge` the payload of an object of the same type, and
`ConfigArray::Merge` the first element only. -/
def mergeLeaf : Leaf → Leaf → Option Leaf
  | .term src, .term this => some (.term { this with value := src.value })
  | .value (.datum src), .value (.datum this) =>
    if src.type = this.type then some (.value (.datum src)) else none
  | .value (.nodeRef path), .value (.nodeRef _) => some (.value (.nodeRef path))
  | .value .delete, .value .delete => some (.value .delete)
  | .value (.array _ _ (e :: _)), .value (.array arrayType arraySize _) =>
    some (.value (.array arrayType arraySize [e]))
  | _, _ => none

mutual

/-- The virtual `Merge` of `src` into `this`. The inner `none` is the branch of
`ConfigNode::Merge` that separates both nodes: it compares the node type with
the token code `DELETE`. -/
def mergeObject : AstObject → AstObject → Option (Option AstObject)
  | .node src srcChildren, .node this children =>
    if src.name ≠ this.name then none
    else if src.nodeType.code = TokenType.delete.code then some none
    else (mergeChildren srcChildren children).map fun merged =>
      some (.node { this with nodeType := src.nodeType, refNodePath := src.refNodePath } merged)
  | .leaf src, .leaf this => (mergeLeaf src this).map fun merged => some (.leaf merged)
  | .node .., .leaf _ => none
  | .leaf _, .node .. => none

/-- The loop of `ConfigNode::Merge` over the children of the source node. -/
def mergeChildren : List AstObject → List AstObject → Option (List AstObject)
  | [], children => some children
  | childSrc :: rest, children =>
    match lookupIndex children (name childSrc) (some (type childSrc)) with
    | none => mergeChildren rest (children ++ [childSrc])
    | some i =>
      match children[i]? with
      | none => none
      | some childDst =>
        match mergeObject childSrc childDst with
        | none => none
        | some none => mergeChildren rest (children.eraseIdx i)
        | some (some merged) => mergeChildren rest (children.set i merged)

end

/-- `ConfigNode::HasDuplicateChild`: some child has the name of an earlier one. -/
def hasDuplicateChild (children : List AstObject) : Bool := !decide (children.map name).Nodup

mutual

/-- No node of the tree has a duplicate child. -/
def noRedefinition : AstObject → Bool
  | .leaf _ => true
  | .node _ children => !hasDuplicateChild children && noRedefinitionList children

def noRedefinitionList : List AstObject → Bool
  | [] => true
  | child :: rest => noRedefinition child && noRedefinitionList rest

end

/-- `class Ast`. -/
structure Ast where
  astRoot : Option AstObject
  redefineChecked : Bool := false

namespace Ast

/-- `Ast::RedefineCheck`: walks the tree once and remembers that it did. -/
def redefineCheck (ast : Ast) : Bool × Ast :=
  if ast.redefineChecked then (true, ast)
  else (ast.astRoot.all noRedefinition, { ast with redefineChecked := true })

/-- The loop of `Ast::Merge`. -/
def mergeLoop (this : Ast) : List Ast → Option Ast
  | [] => some this
  | astIt :: rest =>
    if !astIt.redefineCheck.1 then none
    else match this.astRoot with
    | none => mergeLoop { this with astRoot := astIt.astRoot } rest
    | some root =>
      match astIt.astRoot with
      | none => mergeLoop this rest
      | some srcRoot =>
        match mergeObject srcRoot root with
        | some (some merged) => mergeLoop { this with astRoot := some merged } rest
        | some none => mergeLoop this rest
        | none => none

/-- `Ast::Merge`. -/
def merge (this : Ast) (astList : List Ast) : Option Ast :=
  let (unique, checked) := this.redefineCheck
  if unique then checked.mergeLoop astList else none

end Ast

/-! ### Paths -/

/-- The byte `.`. -/
def dot : UInt8 := 46

/-- The loop of `Ast::SplitNodePath`: the pieces found so far and the piece
being read. An empty piece drops everything and ends the loop. -/
def splitLoop (separator : UInt8) : Bytes → List Bytes → Bytes → List Bytes × Bytes
  | [], splitList, temp => (splitList, temp)
  | c :: path, splitList, temp =>
    if c ≠ separator then splitLoop separator path splitList (temp ++ [c])
    else if temp = [] then ([], temp)
    else splitLoop separator path (splitList ++ [temp]) []

/-- `Ast::SplitNodePath`. -/
def splitNodePath (path : Bytes) (separator : UInt8) : List Bytes :=
  let (splitList, temp) := splitLoop separator path [] []
  if temp = [] then splitList ++ [path] else splitList ++ [temp]

/-- The descent of `Ast::Lookup` from the root along the remaining names. -/
def descend (root : AstObject) (p : Pos) : List Bytes → Option Pos
  | [] => some p
  | it :: rest =>
    match lookupIndex (root.childrenAt p) it none with
    | none => none
    | some i => descend root (i :: p) rest

/-- `Ast::Lookup`. A path without dot names a sibling of the object it starts
from; the root has no parent to look in. -/
def lookup (root : AstObject) (startObj : Pos) (path : Bytes) : Option Pos :=
  if dot ∉ path then
    match startObj with
    | [] => none
    | _ :: parent => (lookupIndex (root.childrenAt parent) path none).map fun i => i :: parent
  else
    match splitNodePath path dot with
    | [] => none
    | front :: rest => if front ≠ name root then none else descend root [] rest

end Hdf.HcGen
