import Hdf.HcGen.Evaluation

/-!
# The C files of hc-gen

The text generator declares a struct for every node in a header, in a backward walk that
takes the first node of a struct name, and writes the values of the terms as initializers
into a C file: those of plain nodes in nested braces, those of nodes that inherit as
elements of an array with the struct of their template. So the type of a member comes from
one object and its value from another.

Only the members and the integers of the files are kept. White space, the names of
variables, guards and the notation of numbers (hexadecimal once a value has been written) are left
out.

## Main definitions

* `StructDef`, `Initializer`: the contents of the files
* `TextGen.output`: `TextGen::Output`
* `Fits`: a value fits the type that the header declares
* `Written`, `FitsFirst`: the objects of the AST that a value and its type come from

## Main results

* `fits_iff`: when all values fit
-/

namespace Hdf.HcGen.TextGen

open Hdf.Tree hiding node leaf

/-! ### Names -/

/-- `toupper` on an ASCII character. -/
def toupper (c : UInt8) : UInt8 := if 97 ≤ c ∧ c ≤ 122 then c - 32 else c

/-- `tolower` on an ASCII character. -/
def tolower (c : UInt8) : UInt8 := if 65 ≤ c ∧ c ≤ 90 then c + 32 else c

/-- The byte `_`. -/
def underLine : UInt8 := 95

/-- The loop of `TextGen::ToCamelString`, behind an underline or not. -/
def camelLoop : Bool → Bytes → Bytes
  | _, [] => []
  | behind, c :: str =>
    if c = underLine then camelLoop true str
    else (if behind then toupper c else c) :: camelLoop false str

/-- `TextGen::ToCamelString`. -/
def toCamelString (str : Bytes) : Bytes := if underLine ∈ str then camelLoop false str else str

/-- `TextGen::ToUpperCamelString`. -/
def toUpperCamelString (str : Bytes) : Bytes :=
  match toCamelString str with
  | [] => []
  | c :: out => toupper c :: out

/-- `TextGen::ToLowerCamelString`. -/
def toLowerCamelString (str : Bytes) : Bytes :=
  match toCamelString str with
  | [] => []
  | c :: out => tolower c :: out

/-- `TextGen::Initialize`, with the symbol prefix of the options: what all struct names start
with. -/
def initializeStem (symbolPrefix : Bytes) (root : AstObject) : Option Bytes :=
  let prefix_ := toLowerCamelString (if symbolPrefix = [] then ascii "HdfConfig" else symbolPrefix)
  (lookupIndex root.children (ascii "module") (some .confTerm)).bind fun i =>
    match root.children[i]? with
    | some (.leaf (.term term)) =>
      let moduleName := toUpperCamelString (stringValue (.leaf (.value term.value)))
      some (toUpperCamelString prefix_ ++ toUpperCamelString moduleName)
    | _ => none

/-- `TextGen::GenConfigStructName` for a node of a name. -/
def genConfigStructName (stem name : Bytes) : Bytes := stem ++ toUpperCamelString name

/-! ### The header -/

/-- The C types of values. -/
inductive CType where
  | int (type : IntType) | string | other
  deriving DecidableEq, Repr

/-- `TextGen::TypeToStr`. -/
def typeToStr : ℕ → CType
  | 1 => .int .uint8
  | 2 => .int .uint16
  | 3 => .int .uint32
  | 4 => .int .uint64
  | 5 => .string
  | _ => .other

/-- The types of members. A pointer to a struct is given by the node it points to. -/
inductive MemberType where
  | value (type : CType)
  | array (type : CType) (size : UInt16)
  | pointer (type : CType)
  | struct (name : Bytes)
  | structPointer (name : Bytes)
  | nodePointer (refNode : Option ℕ)
  deriving DecidableEq, Repr

/-- A struct of the header. -/
structure StructDef where
  name : Bytes
  members : List (Bytes × MemberType)
  deriving DecidableEq, Repr

/-- `TextGen::GenTermDefinition`. -/
def genTermDefinition (inTemplate : Bool) (term : ConfigTerm) : List (Bytes × MemberType) :=
  match term.value with
  | .array arrayType arraySize _ =>
    if inTemplate then
      [(term.name, .pointer (typeToStr arrayType)),
        (term.name ++ ascii "Size", .value (.int .uint32))]
    else [(term.name, .array (typeToStr arrayType) arraySize.toUInt16)]
  | .datum d => [(term.name, .value (typeToStr d.type.code))]
  | .nodeRef _ => [(term.name, .nodePointer term.refNode)]
  | .delete => []

/-- `TextGen::GenObjectDefinitionGen`. -/
def genObjectDefinitionGen (stem : Bytes) (inTemplate : Bool) :
    AstObject → List (Bytes × MemberType)
  | .node node _ =>
    match node.nodeType with
    | .template =>
      [(toLowerCamelString node.name, .structPointer (genConfigStructName stem node.name)),
        (toLowerCamelString node.name ++ ascii "Size", .value (.int .uint16))]
    | .inherit => []
    | _ => [(toLowerCamelString node.name, .struct (genConfigStructName stem node.name))]
  | .leaf (.term term) => genTermDefinition inTemplate term
  | .leaf (.value _) => []

/-- Whether an object is in a template, and whether it is in a node that inherits. -/
structure Place where
  inTemplate : Bool
  inSubClass : Bool
  deriving DecidableEq, Repr

/-- The place of what is in a node. -/
def Place.enter (place : Place) (node : ConfigNode) : Place where
  inTemplate := place.inTemplate || node.nodeType == .template
  inSubClass := place.inSubClass || node.nodeType == .inherit

/-- A node on a walk, with its children and their place. -/
structure Walked where
  place : Place
  node : ConfigNode
  children : List AstObject

mutual

/-- The nodes in the order of `Ast::WalkBackward`. -/
def walkFrom (place : Place) : AstObject → List Walked
  | .leaf _ => []
  | .node node children =>
    walkChildren (place.enter node) children ++ [⟨place.enter node, node, children⟩]

def walkChildren (place : Place) : List AstObject → List Walked
  | [] => []
  | child :: rest => walkFrom place child ++ walkChildren place rest

end

/-- The nodes of an AST in the order of `Ast::WalkBackward`. -/
def walkBackward (root : AstObject) : List Walked := walkFrom ⟨false, false⟩ root

/-- The struct that `TextGen::GenNodeDefinition` writes. -/
def structOf (stem : Bytes) (walked : Walked) : StructDef where
  name := genConfigStructName stem walked.node.name
  members := walked.children.flatMap (genObjectDefinitionGen stem walked.place.inTemplate)

/-- The nodes for which `TextGen::GenNodeDefinition` is called. -/
def defined (root : AstObject) : List Walked :=
  (walkBackward root).filter fun walked => walked.node.nodeType != .inherit

/-- The nodes whose structs `TextGen::GenNodeDefinition` writes, with the set of the symbols
written. -/
def genNodeDefinitions (stem : Bytes) (symbolSet : List Bytes) : List Walked → List Walked
  | [] => []
  | walked :: rest =>
    let structName := genConfigStructName stem walked.node.name
    if structName ∈ symbolSet then genNodeDefinitions stem symbolSet rest
    else walked :: genNodeDefinitions stem (structName :: symbolSet) rest

/-- `TextGen::HeaderOutput`. -/
def headerOutput (stem : Bytes) (root : AstObject) : List StructDef :=
  (genNodeDefinitions stem [] (defined root)).map (structOf stem)

/-! ### The C file -/

/-- An integer that is written for a member of a struct. -/
structure Initializer where
  struct : Bytes
  member : Bytes
  value : ℕ
  deriving DecidableEq, Repr

/-- The number in a value that `TextGen::PrintBaseTypeValue` writes. -/
def printBaseTypeValue : Datum → Option ℕ
  | .number _ integerValue => some integerValue.toNat
  | .string _ => none

/-- The numbers of the array of a term, as `TextGen::HcsPrintArrayContent` writes them. -/
def elements : AstObject → List (Bytes × ℕ)
  | .leaf (.term term) =>
    match term.value with
    | .array _ _ elements =>
      (elements.filterMap printBaseTypeValue).map fun value => (term.name, value)
    | _ => []
  | _ => []

/-- The integers of the members that are written for an object itself: for a term by
`TextGen::PrintTermImplement`, which writes the size of an array (a `uint16_t`) in a node that
inherits and the array itself elsewhere, and for a template by `TextGen::TemplateObjectImplGen`. -/
def integers (inSubClass : Bool) : AstObject → List (Bytes × ℕ)
  | .node node _ =>
    if node.nodeType = .template then
      [(toLowerCamelString node.name ++ ascii "Size", node.inheritCount.toNat)]
    else []
  | .leaf (.term term) =>
    match term.value with
    | .datum d => (printBaseTypeValue d).toList.map fun value => (term.name, value)
    | .array _ arraySize _ =>
      if inSubClass then [(term.name ++ ascii "Size", arraySize.toUInt16.toNat)]
      else elements (.leaf (.term term))
    | _ => []
  | .leaf (.value _) => []

/-- What is written for the members of one struct. -/
def initializers (struct : Bytes) (values : List (Bytes × ℕ)) : List Initializer :=
  values.map fun i => ⟨struct, i.1, i.2⟩

mutual

/-- `TextGen::ObjectImplementGen` on an object and what is below it, as a member of a struct. -/
def objectImplementGen (stem : Bytes) (inSubClass : Bool) (struct : Bytes) :
    AstObject → List Initializer
  | .leaf leaf => initializers struct (integers inSubClass (.leaf leaf))
  | .node node children =>
    if node.nodeType = .noref then
      implementChildren stem inSubClass (genConfigStructName stem node.name) children
    else initializers struct (integers inSubClass (.node node children))

def implementChildren (stem : Bytes) (inSubClass : Bool) (struct : Bytes) :
    List AstObject → List Initializer
  | [] => []
  | child :: rest =>
    objectImplementGen stem inSubClass struct child ++ implementChildren stem inSubClass struct rest

end

/-- The node at an address. -/
def nodeAt (root : AstObject) (uid : ℕ) : Option Walked :=
  (walkBackward root).find? fun walked => walked.node.uid == uid

/-- The templates for which `TextGen::OutputTemplateImpl` writes an array. -/
def templates (root : AstObject) : List Walked :=
  (walkBackward root).filter fun walked =>
    walked.node.nodeType == .template && walked.node.inheritCount != 0

/-- The nodes whose structs have the members of a node: for one that inherits, its template. -/
def holders (root : AstObject) (walked : Walked) : List Bytes :=
  if walked.node.nodeType = .inherit then
    ((templates root).filter fun template => walked.node.uid ∈ template.node.subClasses).map
      fun template => template.node.name
  else [walked.node.name]

/-- The calls of `TextGen::ArrayVariablesDeclareGen`: the arrays of the nodes that inherit and of
what is in them are variables of their own, that a member points to. -/
def arrayVariables (stem : Bytes) (root : AstObject) : List Initializer :=
  ((walkBackward root).filter fun walked => walked.place.inSubClass).flatMap fun walked =>
    (holders root walked).flatMap fun holder =>
      initializers (genConfigStructName stem holder) (walked.children.flatMap elements)

/-- `TextGen::OutputTemplateImpl`, behind `TextGen::OutputTemplateVariablesDeclare`. -/
def outputTemplateImpl (stem : Bytes) (root : AstObject) : List Initializer :=
  (templates root).flatMap fun template =>
    (template.node.subClasses.filterMap (nodeAt root)).flatMap fun heir =>
      implementChildren stem heir.place.inSubClass (genConfigStructName stem template.node.name)
        heir.children

/-- `TextGen::OutputImplGlobalVariables`. The root is no node that inherits, and the walk does not
go into one. -/
def outputImplGlobalVariables (stem : Bytes) : AstObject → List Initializer
  | .leaf _ => []
  | .node node children =>
    implementChildren stem false (genConfigStructName stem node.name) children

/-- `TextGen::ImplOutput`. -/
def implOutput (stem : Bytes) (root : AstObject) : List Initializer :=
  arrayVariables stem root ++ outputTemplateImpl stem root ++ outputImplGlobalVariables stem root

mutual

/-- The names of the nodes that are not in a node that inherits. -/
def plainNames : AstObject → List Bytes
  | .leaf _ => []
  | .node node children =>
    if node.nodeType = .inherit then [] else node.name :: plainNamesList children

def plainNamesList : List AstObject → List Bytes
  | [] => []
  | child :: rest => plainNames child ++ plainNamesList rest

end

/-- `TextGen::DuplicateNodeNameCheck`. -/
def duplicateNodeNameCheck (root : AstObject) : Bool := decide (plainNames root).Nodup

/-- The pointer of a term is to a node of the AST. -/
def refersInto (root : AstObject) : AstObject → Bool
  | .leaf (.term term) =>
    match term.value with
    | .nodeRef _ => (term.refNode.bind (nodeAt root)).isSome
    | _ => true
  | _ => true

mutual

/-- The pointers that `TextGen::ObjectImplementGen` follows for an object and what is below it are
to nodes of the AST. -/
def implementable (root : AstObject) : AstObject → Bool
  | .leaf leaf => refersInto root (.leaf leaf)
  | .node node children => node.nodeType != .noref || implementableList root children

def implementableList (root : AstObject) : List AstObject → Bool
  | [] => true
  | child :: rest => implementable root child && implementableList root rest

end

/-- The pointers that are followed for the structs, for the nodes that inherit from the templates
and for the root are to nodes of the AST. -/
def pointersValid (stem : Bytes) (root : AstObject) : Bool :=
  (genNodeDefinitions stem [] (defined root)).all
      (fun walked => walked.children.all (refersInto root)) &&
    (templates root).all (fun template => template.node.subClasses.all fun uid =>
      (nodeAt root uid).any fun heir => implementableList root heir.children) &&
    implementableList root root.children

/-- `TextGen::Output`, when the files can be written. There is no result either when a pointer is
followed to a node that is not there any more. -/
def output (symbolPrefix : Bytes) (root : AstObject) :
    Option (List StructDef × List Initializer) :=
  (initializeStem symbolPrefix root).bind fun stem =>
    if duplicateNodeNameCheck root && pointersValid stem root then
      some (headerOutput stem root, implOutput stem root)
    else none

/-! ### Values and their types -/

/-- The integer type of a member, or of what a member points to. -/
def MemberType.intType : MemberType → Option IntType
  | value (.int type) | array (.int type) _ | pointer (.int type) => some type
  | _ => none

/-- The integer type that the first member of a name has. -/
def memberType (members : List (Bytes × MemberType)) (name : Bytes) : Option IntType :=
  (members.find? fun member => member.1 == name).bind fun member => member.2.intType

/-- An integer is representable in the type that a header declares for it. -/
def Fits (header : List StructDef) (i : Initializer) : Prop :=
  ∃ struct type, header.find? (fun struct => struct.name == i.struct) = some struct ∧
    memberType struct.members i.member = some type ∧ i.value < 2 ^ (8 * type.size)

instance (header : List StructDef) (i : Initializer) : Decidable (Fits header i) :=
  match found : header.find? fun struct => struct.name == i.struct with
  | none => isFalse fun ⟨_, _, found', _⟩ => nomatch found.symm.trans found'
  | some struct =>
    match declared : memberType struct.members i.member with
    | none => isFalse fun ⟨_, _, found', declared', _⟩ => by
      cases found.symm.trans found'
      cases declared.symm.trans declared'
    | some type =>
      decidable_of_iff (i.value < 2 ^ (8 * type.size)) <| by
        constructor
        · exact fun fits => ⟨struct, type, found, declared, fits⟩
        · rintro ⟨_, _, found', declared', fits⟩
          cases found.symm.trans found'
          cases declared.symm.trans declared'
          exact fits

/-- The children of a node are written as the members of the struct of a name: the root's own, in
a template those of its heirs, and those of every plain node in such a node. -/
inductive Held (root : AstObject) : Bytes → Bool → List AstObject → Prop
  | root {node : ConfigNode} {children : List AstObject} (top : root = .node node children) :
    Held root node.name false children
  | heir {template heir : Walked} {uid : ℕ} (written : template ∈ templates root)
      (inherits : uid ∈ template.node.subClasses) (at_ : nodeAt root uid = some heir) :
    Held root template.node.name heir.place.inSubClass heir.children
  | inner {name : Bytes} {inSubClass : Bool} {children inside : List AstObject} {node : ConfigNode}
      (held : Held root name inSubClass children) (child : .node node inside ∈ children)
      (plain : node.nodeType = .noref) : Held root node.name inSubClass inside

/-- An object that is written stands for an integer of a member: for `integerValue_` of the value
of a term or of an element of its array, in a node that inherits for the size of the array, and for
the number of those that inherit from a template. -/
inductive StandsFor (inSubClass : Bool) : AstObject → Bytes × ℕ → Prop
  | value {name : Bytes} {refNode : Option ℕ} {type : IntType} {integerValue : UInt64} :
    StandsFor inSubClass (.leaf (.term ⟨name, refNode, .datum (.number type integerValue)⟩))
      (name, integerValue.toNat)
  | element {name : Bytes} {refNode : Option ℕ} {arrayType : ℕ} {arraySize : UInt32}
      {elements : List Datum} {type : IntType} {integerValue : UInt64}
      (plain : inSubClass = false) (mem : .number type integerValue ∈ elements) :
    StandsFor inSubClass (.leaf (.term ⟨name, refNode, .array arrayType arraySize elements⟩))
      (name, integerValue.toNat)
  | arraySize {name : Bytes} {refNode : Option ℕ} {arrayType : ℕ} {arraySize : UInt32}
      {elements : List Datum} (sub : inSubClass = true) :
    StandsFor inSubClass (.leaf (.term ⟨name, refNode, .array arrayType arraySize elements⟩))
      (name ++ ascii "Size", arraySize.toNat % 2 ^ 16)
  | inheritCount {node : ConfigNode} {children : List AstObject}
      (template : node.nodeType = .template) :
    StandsFor inSubClass (.node node children)
      (toLowerCamelString node.name ++ ascii "Size", node.inheritCount.toNat)

/-- An integer is written for a member of the struct of a node's name. -/
inductive Written (root : AstObject) : Bytes → Bytes × ℕ → Prop
  | member {name : Bytes} {inSubClass : Bool} {children : List AstObject} {child : AstObject}
      {i : Bytes × ℕ} (held : Held root name inSubClass children) (mem : child ∈ children)
      (value : StandsFor inSubClass child i) : Written root name i
  | element {walked : Walked} {name term : Bytes} {refNode : Option ℕ} {arrayType : ℕ}
      {arraySize : UInt32} {elements : List Datum} {type : IntType} {integerValue : UInt64}
      (walk : walked ∈ walkBackward root) (sub : walked.place.inSubClass = true)
      (holder : name ∈ holders root walked)
      (mem : .leaf (.term ⟨term, refNode, .array arrayType arraySize elements⟩) ∈ walked.children)
      (value : .number type integerValue ∈ elements) :
    Written root name (term, integerValue.toNat)

/-- The integer type of a code. -/
def intTypeOf (code : ℕ) : Option IntType :=
  [.uint8, .uint16, .uint32, .uint64].find? fun type => (ObjectType.int type).code = code

/-- The member of a name that an object in a struct declares, with its integer type if it has one:
`type_` of the value of a term, `arrayType_` of an array, 32 bits for the size of an array in a
template and 16 bits for the number of those that inherit from a template. -/
def declared (inTemplate : Bool) (name : Bytes) : AstObject → Option (Option IntType)
  | .leaf (.term term) =>
    match term.value with
    | .datum (.number type _) => if term.name = name then some (some type) else none
    | .datum (.string _) | .nodeRef _ => if term.name = name then some none else none
    | .array arrayType _ _ =>
      if term.name = name then some (intTypeOf arrayType)
      else if inTemplate ∧ term.name ++ ascii "Size" = name then some (some .uint32)
      else none
    | .delete => none
  | .leaf (.value _) => none
  | .node node _ =>
    if node.nodeType = .inherit then none
    else if toLowerCamelString node.name = name then some none
    else if node.nodeType = .template ∧ toLowerCamelString node.name ++ ascii "Size" = name then
      some (some .uint16)
    else none

/-- An integer is representable in the type that the first object of the name declares in the first
node that has the struct name. -/
def FitsFirst (stem : Bytes) (root : AstObject) (name : Bytes) (i : Bytes × ℕ) : Prop :=
  ∃ first type, (defined root).find? (fun walked =>
      genConfigStructName stem walked.node.name == genConfigStructName stem name) = some first ∧
    first.children.findSome? (declared first.place.inTemplate i.1) = some (some type) ∧
    i.2 < 2 ^ (8 * type.size)

section Header

variable {stem : Bytes} {root : AstObject}

theorem intType_typeToStr (code : ℕ) (size : UInt16) :
    (MemberType.pointer (typeToStr code)).intType = intTypeOf code ∧
      (MemberType.array (typeToStr code) size).intType = intTypeOf code := by
  match code with
  | 0 | 1 | 2 | 3 | 4 | 5 => exact ⟨rfl, rfl⟩
  | code + 6 => simp [typeToStr, intTypeOf, MemberType.intType, ObjectType.code]

theorem declared_eq (inTemplate : Bool) (name : Bytes) (object : AstObject) :
    declared inTemplate name object =
      ((genObjectDefinitionGen stem inTemplate object).find? fun member => member.1 == name).map
        fun member => member.2.intType := by
  cases object with
  | leaf leaf =>
    cases leaf with
    | value value => rfl
    | term term =>
      obtain ⟨term, refNode, value⟩ := term
      cases value with
      | delete => rfl
      | nodeRef path =>
        by_cases same : term = name <;> simp [declared, genObjectDefinitionGen, genTermDefinition,
          same, MemberType.intType]
      | datum d =>
        cases d with
        | number type integerValue =>
          by_cases same : term = name
          · cases type <;> simp [declared, genObjectDefinitionGen, genTermDefinition, same,
              MemberType.intType, typeToStr, Datum.type, ObjectType.code]
          · simp [declared, genObjectDefinitionGen, genTermDefinition, same]
        | string text =>
          by_cases same : term = name <;> simp [declared, genObjectDefinitionGen, genTermDefinition,
            same, MemberType.intType, typeToStr, Datum.type, ObjectType.code]
      | array arrayType arraySize elements =>
        obtain ⟨pointer, array⟩ := intType_typeToStr arrayType arraySize.toUInt16
        cases inTemplate with
        | true =>
          by_cases same : term = name
          · simp [declared, genObjectDefinitionGen, genTermDefinition, same, pointer]
          · by_cases size : term ++ ascii "Size" = name <;> simp [declared, genObjectDefinitionGen,
              genTermDefinition, same, size, MemberType.intType]
        | false =>
          by_cases same : term = name <;> simp [declared, genObjectDefinitionGen, genTermDefinition,
            same, array]
  | node node children =>
    rw [genObjectDefinitionGen, declared]
    by_cases same : toLowerCamelString node.name = name
    · cases type : node.nodeType <;> simp [same, MemberType.intType]
    · by_cases size : toLowerCamelString node.name ++ ascii "Size" = name <;>
        cases type : node.nodeType <;> simp [same, size, MemberType.intType]

/-- The type of a member is the one that the first object of the name declares. -/
theorem memberType_structOf (walked : Walked) (name : Bytes) :
    memberType (structOf stem walked).members name =
      (walked.children.findSome? (declared walked.place.inTemplate name)).join := by
  have each : declared walked.place.inTemplate name = _ :=
    funext (@declared_eq stem walked.place.inTemplate name)
  rw [memberType, structOf, List.find?_flatMap, each]
  change _ = (List.findSome? (Option.map _ ∘ _) _).join
  rw [← List.map_findSome?]
  cases walked.children.findSome? _ <;> rfl

/-- The set of symbols keeps the first node of a struct name that it does not have. -/
theorem find?_genNodeDefinitions (name : Bytes) (walkeds : List Walked) :
    ∀ symbolSet, name ∉ symbolSet →
      (genNodeDefinitions stem symbolSet walkeds).find?
          (fun walked => genConfigStructName stem walked.node.name == name) =
        walkeds.find? fun walked => genConfigStructName stem walked.node.name == name := by
  induction walkeds with
  | nil => exact fun _ _ => rfl
  | cons walked rest ih =>
    intro symbolSet fresh
    rw [genNodeDefinitions]
    by_cases same : genConfigStructName stem walked.node.name = name
    · rw [if_neg (same ▸ fresh), List.find?_cons_of_pos (by simpa using same),
        List.find?_cons_of_pos (by simpa using same)]
    · rw [List.find?_cons_of_neg (by simpa using same)]
      split
      · exact ih symbolSet fresh
      · rw [List.find?_cons_of_neg (by simpa using same)]
        exact ih _ fun known => (List.mem_cons.mp known).elim (fun eq => same eq.symm) fresh

theorem find?_headerOutput (name : Bytes) :
    (headerOutput stem root).find? (fun struct => struct.name == name) =
      ((defined root).find? fun walked => genConfigStructName stem walked.node.name == name).map
        (structOf stem) := by
  rw [headerOutput, List.find?_map, ← find?_genNodeDefinitions name _ [] List.not_mem_nil]
  rfl

/-- A value fits the type in the header when it fits the type in the first node of the name. -/
theorem fits_headerOutput {name : Bytes} {i : Bytes × ℕ} :
    Fits (headerOutput stem root) ⟨genConfigStructName stem name, i.1, i.2⟩ ↔
      FitsFirst stem root name i := by
  constructor
  · rintro ⟨struct, type, found, declared, fits⟩
    rw [find?_headerOutput, Option.map_eq_some_iff] at found
    obtain ⟨first, found, rfl⟩ := found
    rw [memberType_structOf, Option.join_eq_some_iff] at declared
    exact ⟨first, type, found, declared, fits⟩
  · rintro ⟨first, type, found, declared, fits⟩
    refine ⟨structOf stem first, type, ?_, ?_, fits⟩
    · rw [find?_headerOutput, found, Option.map_some]
    · rw [memberType_structOf, declared, Option.join_some]

end Header

theorem mem_elements_iff {object : AstObject} {i : Bytes × ℕ} :
    i ∈ elements object ↔ ∃ refNode arrayType arraySize data type integerValue,
      object = .leaf (.term ⟨i.1, refNode, .array arrayType arraySize data⟩) ∧
        .number type integerValue ∈ data ∧ i.2 = UInt64.toNat integerValue := by
  constructor
  · intro written
    cases object with
    | node => cases written
    | leaf leaf =>
      cases leaf with
      | value => cases written
      | term term =>
        obtain ⟨name, refNode, value⟩ := term
        cases value with
        | delete | nodeRef | datum => cases written
        | array arrayType arraySize data =>
          obtain ⟨v, there, rfl⟩ := List.mem_map.mp written
          obtain ⟨d, mem, printed⟩ := List.mem_filterMap.mp there
          cases d with
          | string => cases printed
          | number => exact ⟨_, _, _, _, _, _, rfl, mem, (Option.some.inj printed).symm⟩
  · obtain ⟨name, v⟩ := i
    rintro ⟨refNode, arrayType, arraySize, data, type, integerValue, rfl, mem, same⟩
    obtain rfl : v = integerValue.toNat := same
    exact List.mem_map.mpr ⟨_, List.mem_filterMap.mpr ⟨_, mem, rfl⟩, rfl⟩

/-- What is written for an object is what it stands for. -/
theorem mem_integers_iff {inSubClass : Bool} {object : AstObject} {i : Bytes × ℕ} :
    i ∈ integers inSubClass object ↔ StandsFor inSubClass object i := by
  constructor
  · intro written
    cases object with
    | leaf leaf =>
      cases leaf with
      | value value => cases written
      | term term =>
        obtain ⟨name, refNode, value⟩ := term
        cases value with
        | delete | nodeRef => cases written
        | datum d =>
          cases d with
          | string text => cases written
          | number type integerValue =>
            obtain rfl := List.mem_singleton.mp written
            exact .value
        | array arrayType arraySize data =>
          -- a subclass has a pointer and the size for an array, of which the size is written
          cases inSubClass with
          | true =>
            obtain rfl := List.mem_singleton.mp written
            rw [UInt32.toNat_toUInt16]
            exact .arraySize rfl
          | false =>
            have written : i ∈ elements (.leaf (.term ⟨name, refNode, .array _ _ _⟩)) := written
            obtain ⟨_, _, _, _, _, _, same, mem, there⟩ := mem_elements_iff.mp written
            obtain ⟨name', v⟩ := i
            cases same
            obtain rfl := there
            exact .element rfl mem
    | node node children =>
      rw [integers] at written
      split at written
      case isTrue template =>
        obtain rfl := List.mem_singleton.mp written
        exact .inheritCount template
      case isFalse => cases written
  · intro stands
    cases stands with
    | value => exact List.mem_singleton_self _
    | element plain mem =>
      subst plain
      exact mem_elements_iff.mpr ⟨_, _, _, _, _, _, rfl, mem, rfl⟩
    | arraySize sub =>
      subst sub
      rw [← UInt32.toNat_toUInt16]
      exact List.mem_singleton_self _
    | inheritCount template =>
      rw [integers, if_pos template]
      exact List.mem_singleton_self _

section CFile

variable {stem : Bytes} {root : AstObject}

theorem implementChildren_eq (inSubClass : Bool) (struct : Bytes) (children : List AstObject) :
    implementChildren stem inSubClass struct children =
      children.flatMap (objectImplementGen stem inSubClass struct) := by
  induction children with
  | nil => rw [implementChildren, List.flatMap_nil]
  | cons child rest ih => rw [implementChildren, ih, List.flatMap_cons]

theorem mem_initializers {struct : Bytes} {values : List (Bytes × ℕ)} {i : Initializer} :
    i ∈ initializers struct values ↔ ∃ v ∈ values, i = ⟨struct, v.1, v.2⟩ := by
  simp only [initializers, List.mem_map, eq_comm]

/-- The values of an object are written as members of the struct of its parent's name. -/
def Names (stem : Bytes) (root : AstObject) (i : Initializer) : Prop :=
  ∃ name v, Written root name v ∧ i = ⟨genConfigStructName stem name, v.1, v.2⟩

/-- What is written for an object among the members of a node comes from the object. -/
theorem names_of_mem_objectImplementGen {inSubClass : Bool} {i : Initializer} (child : AstObject) :
    ∀ {name : Bytes} {children : List AstObject}, Held root name inSubClass children →
      child ∈ children →
      i ∈ objectImplementGen stem inSubClass (genConfigStructName stem name) child →
        Names stem root i := by
  induction child using Tree.induct with
  | leaf leaf =>
    intro name children held mem written
    rw [objectImplementGen, mem_initializers] at written
    obtain ⟨v, value, rfl⟩ := written
    exact ⟨name, v, .member held mem (mem_integers_iff.mp value), rfl⟩
  | node node inside ih =>
    intro name children held mem written
    rw [objectImplementGen] at written
    split at written
    case isTrue plain =>
      rw [implementChildren_eq, List.mem_flatMap] at written
      obtain ⟨inner, there, written⟩ := written
      exact ih inner there (held.inner mem plain) there written
    case isFalse =>
      rw [mem_initializers] at written
      obtain ⟨v, value, rfl⟩ := written
      exact ⟨name, v, .member held mem (mem_integers_iff.mp value), rfl⟩

theorem names_of_mem_implementChildren {name : Bytes} {inSubClass : Bool}
    {children : List AstObject} {i : Initializer} (held : Held root name inSubClass children)
    (written : i ∈ implementChildren stem inSubClass (genConfigStructName stem name) children) :
    Names stem root i := by
  rw [implementChildren_eq, List.mem_flatMap] at written
  obtain ⟨child, mem, written⟩ := written
  exact names_of_mem_objectImplementGen child held mem written

theorem names_of_mem_implOutput {i : Initializer} (written : i ∈ implOutput stem root) :
    Names stem root i := by
  rw [implOutput, List.mem_append, List.mem_append] at written
  obtain (written | written) | written := written
  · simp only [arrayVariables, List.mem_flatMap, List.mem_filter, mem_initializers] at written
    obtain ⟨walked, ⟨walk, sub⟩, holder, holds, ⟨name, v⟩, ⟨child, mem, value⟩, rfl⟩ := written
    obtain ⟨_, _, _, _, _, _, rfl, there, rfl⟩ := mem_elements_iff.mp value
    exact ⟨holder, _, .element walk sub holds mem there, rfl⟩
  · simp only [outputTemplateImpl, List.mem_flatMap, List.mem_filterMap] at written
    obtain ⟨template, mem, heir, ⟨uid, inherits, at_⟩, written⟩ := written
    exact names_of_mem_implementChildren (.heir mem inherits at_) written
  · cases top : root with
    | leaf leaf =>
      rw [top] at written
      cases written
    | node node children =>
      rw [top, outputImplGlobalVariables] at written
      rw [← top]
      exact names_of_mem_implementChildren (.root top) written

/-- All children that are written as members are in the C file. -/
theorem Held.subset {name : Bytes} {inSubClass : Bool} {children : List AstObject}
    (held : Held root name inSubClass children) :
    implementChildren stem inSubClass (genConfigStructName stem name) children ⊆
      implOutput stem root := by
  induction held with
  | root top =>
    intro i written
    rw [implOutput, top, List.mem_append]
    exact .inr written
  | heir mem inherits at_ =>
    intro i written
    rw [implOutput, List.mem_append, List.mem_append]
    refine .inl (.inr (List.mem_flatMap.mpr ⟨_, mem, List.mem_flatMap.mpr ⟨_, ?_, written⟩⟩))
    exact List.mem_filterMap.mpr ⟨_, inherits, at_⟩
  | inner _ child plain ih =>
    refine List.Subset.trans (fun i written => ?_) ih
    rw [implementChildren_eq, List.mem_flatMap]
    refine ⟨_, child, ?_⟩
    rw [objectImplementGen, if_pos plain]
    exact written

theorem mem_objectImplementGen {inSubClass : Bool} {struct : Bytes} {child : AstObject}
    {i : Bytes × ℕ} (value : i ∈ integers inSubClass child) :
    ⟨struct, i.1, i.2⟩ ∈ objectImplementGen stem inSubClass struct child := by
  have written : ⟨struct, i.1, i.2⟩ ∈ initializers struct (integers inSubClass child) :=
    mem_initializers.mpr ⟨i, value, rfl⟩
  cases child with
  | leaf leaf =>
    rw [objectImplementGen]
    exact written
  | node node inside =>
    rw [objectImplementGen]
    split
    case isTrue plain =>
      -- a plain node has no integer of its own
      rw [integers, if_neg (plain ▸ nofun)] at value
      cases value
    case isFalse => exact written

theorem Written.mem_implOutput {name : Bytes} {v : Bytes × ℕ} (written : Written root name v) :
    ⟨genConfigStructName stem name, v.1, v.2⟩ ∈ implOutput stem root := by
  cases written with
  | member held mem value =>
    apply held.subset
    rw [implementChildren_eq, List.mem_flatMap]
    exact ⟨_, mem, mem_objectImplementGen (mem_integers_iff.mpr value)⟩
  | element walk sub holds mem value =>
    rw [implOutput, List.mem_append, List.mem_append]
    refine .inl (.inl (List.mem_flatMap.mpr ⟨_, List.mem_filter.mpr ⟨walk, sub⟩, ?_⟩))
    refine List.mem_flatMap.mpr ⟨name, holds, mem_initializers.mpr ⟨_, ?_, rfl⟩⟩
    exact List.mem_flatMap.mpr
      ⟨_, mem, mem_elements_iff.mpr ⟨_, _, _, _, _, _, rfl, value, rfl⟩⟩

/-- The integers of the C file are those that are written for the objects. -/
theorem mem_implOutput {i : Initializer} :
    i ∈ implOutput stem root ↔
      ∃ name v, Written root name v ∧ i = ⟨genConfigStructName stem name, v.1, v.2⟩ := by
  constructor
  · exact names_of_mem_implOutput
  · rintro ⟨name, v, written, rfl⟩
    exact written.mem_implOutput

end CFile

/-- The integers of the C file all fit the types of the header exactly when each of them fits the
type of its member in the first node that has the struct's name. -/
theorem fits_iff {symbolPrefix : Bytes} {root : AstObject} {header : List StructDef}
    {inits : List Initializer} (out : output symbolPrefix root = some (header, inits)) :
    (∀ i ∈ inits, Fits header i) ↔
      ∀ stem ∈ initializeStem symbolPrefix root, ∀ name v, Written root name v →
        FitsFirst stem root name v := by
  obtain ⟨stem, named, out⟩ := Option.bind_eq_some_iff.mp out
  split at out
  case isFalse => cases out
  case isTrue =>
    cases out
    constructor
    · intro fits stem' named' name v written
      cases named.symm.trans named'
      exact fits_headerOutput.mp (fits _ written.mem_implOutput)
    · intro fits i mem
      obtain ⟨name, v, written, rfl⟩ := mem_implOutput.mp mem
      exact fits_headerOutput.mpr (fits stem named name v written)

/-- A root with one integer. -/
def oneInteger : AstObject :=
  .node { uid := 0, name := ascii "root", nodeType := .noref, refNodePath := [] }
    [.leaf (.term ⟨ascii "module", none, .datum (.string (ascii "m"))⟩),
      .leaf (.term ⟨ascii "t", none, .datum (.number .uint8 1)⟩)]

theorem fits_oneInteger :
    FitsFirst (ascii "HdfConfigM") oneInteger (ascii "root") (ascii "t", 1) := by
  have out : output [] oneInteger =
      some (headerOutput (ascii "HdfConfigM") oneInteger,
        implOutput (ascii "HdfConfigM") oneInteger) := by
    decide +kernel
  have fits : ∀ i ∈ implOutput (ascii "HdfConfigM") oneInteger,
      Fits (headerOutput (ascii "HdfConfigM") oneInteger) i := by
    decide +kernel
  have named : ascii "HdfConfigM" ∈ initializeStem [] oneInteger := by decide +kernel
  refine (fits_iff out).mp fits _ named _ _
    (.member (.root rfl) (List.mem_cons_of_mem _ List.mem_cons_self) .value)

/-- The value of a term is replaced through a reference to its node. -/
def referredValue : FileSystem :=
  .single (ascii "a.hcs")
    (ascii "root \x7b module = \"m\"; p \x7b t = 1; \x7d n : &p \x7b t = 300; \x7d \x7d")

/-- An heir has larger values than its template, also in an array. -/
def heirValue : FileSystem :=
  .single (ascii "a.hcs")
    (ascii
      "root \x7b module = \"m\"; template t \x7b a = [1]; \x7d n :: t \x7b a = [300]; \x7d \x7d")

/-- The names of two structs agree in camel case. -/
def camelNames : FileSystem :=
  .single (ascii "a.hcs")
    (ascii "root \x7b module = \"m\"; a_b \x7b t = 1; \x7d aB \x7b t = 300; \x7d \x7d")

/-- An integer of the C file does not fit. -/
def hasMisfit (root : AstObject) : Bool :=
  (output [] root).any fun (header, inits) => inits.any fun i => !decide (Fits header i)

private theorem misfits_evaluated :
    expansionPasses referredValue (ascii "a.hcs") (fun _ => true) hasMisfit 40 = true ∧
      expansionPasses heirValue (ascii "a.hcs") (fun _ => true) hasMisfit 40 = true ∧
      expansionPasses camelNames (ascii "a.hcs") (fun _ => true) hasMisfit 40 = true := by
  rw [referredValue, heirValue, camelNames]
  iterate 4 rw [ascii_ofList]
  decide +kernel

/-- A source is expanded, and an integer in its C file does not fit the header. -/
def WritesMisfit (fs : FileSystem) : Prop :=
  ∃ ast fresh root header inits, MergedFrom fs (ascii "a.hcs") ast fresh ∧
    ast.Expands fresh (.returned true root) ∧ output [] root = some (header, inits) ∧
      ∃ i ∈ inits, ¬ Fits header i

theorem writesMisfit_of_passes {fs : FileSystem}
    (passes : expansionPasses fs (ascii "a.hcs") (fun _ => true) hasMisfit 40 = true) :
    WritesMisfit fs := by
  obtain ⟨ast, fresh, root, merged, expands, -, misfit⟩ := exists_expansion passes
  obtain ⟨⟨header, inits⟩, out, misfit⟩ := (Option.any_eq_true _ _).mp misfit
  obtain ⟨i, mem, misfit⟩ := List.any_eq_true.mp misfit
  refine ⟨ast, fresh, root, header, inits, merged, expands, out, i, mem, ?_⟩
  simpa using misfit

theorem larger_writesMisfit :
    WritesMisfit referredValue ∧ WritesMisfit heirValue ∧ WritesMisfit camelNames :=
  ⟨writesMisfit_of_passes misfits_evaluated.1, writesMisfit_of_passes misfits_evaluated.2.1,
    writesMisfit_of_passes misfits_evaluated.2.2⟩

end Hdf.HcGen.TextGen
