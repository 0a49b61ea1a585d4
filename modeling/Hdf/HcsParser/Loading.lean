import Hdf.HcsParser.Lengths
import Hdf.HcsParser.MatchAttr
import Hdf.HcGen.DecompileFile

/-!
# Which compiled configurations can be loaded

The loader goes over the records of an object in order. Its first pass fails at an
array that is too long for its count, its second pass at a node that is nested
too deep for its stack, and nothing else stops it. The second pass hangs every node below the
one that it was compiled below, behind the nodes that were there before, and puts every attribute in
front of the others of its node.

## Main definitions

* `Counted`, `levels`: the lengths of arrays and the nesting of nodes
* `Runs`: a pass moves over some records, or fails at one of them
* `built`, `grow`: the tree of an object, and what it does to the node that it is below

## Main results

* `size_object`, `builds_object`: what the passes do with an object
* `loads_iff`: which compiled configurations can be loaded
-/

namespace Hdf.HcGen

/-- The elements of an array can be counted with 16 bits. -/
def Label.Counted : Label → Prop
  | .inr (.term { name := _, refNode := _, value := .array _ _ elements }) =>
    elements.length < 2 ^ 16
  | _ => True

mutual

/-- The number of nested nodes. -/
def levels : AstObject → ℕ
  | .leaf _ => 0
  | .node _ children => levelsList children + 1

def levelsList : List AstObject → ℕ
  | [] => 0
  | child :: rest => max (levels child) (levelsList rest)

end

end Hdf.HcGen

namespace Hdf.HcsParser

open HcGen HcGen.ByteCodeGen HcGen.Decompile

/-- The loop of a pass goes from a state at an offset to another one when a condition holds, and
fails on the way otherwise. -/
structure Runs (needAlign : Bool) (treeStart : Bytes) (o : ℕ) (pass : Pass) (o' : ℕ) (pass' : Pass)
    (good : Prop) : Prop where
  le : o ≤ o'
  passes : good → ∃ k ≤ o' - o, ∀ rounds,
    generateLoop needAlign treeStart treeStart.length (rounds + k) o pass =
      generateLoop needAlign treeStart treeStart.length rounds o' pass'
  fails : ¬ good → ∃ k ≤ o' - o, ∀ rounds, ∃ last,
    generateLoop needAlign treeStart treeStart.length (rounds + k) o pass = some (hdfFailure, last)

section

variable {needAlign : Bool} {hash : ℕ → UInt32} {treeStart rest : Bytes} {o o' o'' : ℕ}
  {pass pass' pass'' : Pass} {good good' : Prop}

theorem Runs.refl (o : ℕ) (pass : Pass) : Runs needAlign treeStart o pass o pass True :=
  ⟨le_rfl, fun _ => ⟨0, Nat.zero_le _, fun _ => rfl⟩, fun no => absurd trivial no⟩

/-- One run after another. The second one need only be known when the first one passes. -/
theorem Runs.trans (first : Runs needAlign treeStart o pass o' pass' good) (le : o' ≤ o'')
    (second : good → Runs needAlign treeStart o' pass' o'' pass'' good') :
    Runs needAlign treeStart o pass o'' pass'' (good ∧ good') := by
  have le' := first.le
  constructor
  · omega
  · rintro ⟨here, there⟩
    obtain ⟨k, few, eq⟩ := first.passes here
    obtain ⟨k', few', eq'⟩ := (second here).passes there
    refine ⟨k' + k, by omega, fun rounds => ?_⟩
    rw [← Nat.add_assoc, eq, eq']
  · intro bad
    by_cases here : good
    · obtain ⟨k, few, eq⟩ := first.passes here
      obtain ⟨k', few', eq'⟩ := (second here).fails fun there => bad ⟨here, there⟩
      refine ⟨k' + k, by omega, fun rounds => ?_⟩
      rw [← Nat.add_assoc, eq]
      exact eq' rounds
    · obtain ⟨k, few, eq⟩ := first.fails here
      exact ⟨k, by omega, eq⟩

theorem Runs.congr (h : Runs needAlign treeStart o pass o' pass' good) (iff : good ↔ good') :
    Runs needAlign treeStart o pass o' pass' good' :=
  ⟨h.le, fun yes => h.passes (iff.mpr yes), fun no => h.fails fun yes => no (iff.mp yes)⟩

theorem runs_of_parse {n : ℕ} (some : 0 < n) (within : o < treeStart.length)
    (parsed : parseByteCode needAlign treeStart o pass = .some ((n : ℤ), pass')) :
    Runs needAlign treeStart o pass (o + n) pass' True := by
  refine ⟨Nat.le_add_right o n, fun _ => ⟨1, by omega, fun rounds => ?_⟩,
    fun no => absurd trivial no⟩
  rw [generateLoop, if_pos (by exact_mod_cast within), parsed, Option.bind_some,
    if_neg (by simpa using some.ne'), Int.toNat_natCast]

theorem runs_of_failure (more : o < o') (within : o < treeStart.length)
    (parsed : parseByteCode needAlign treeStart o pass = some (hdfFailure, pass'')) :
    Runs needAlign treeStart o pass o' pass' False := by
  refine ⟨more.le, False.elim, fun _ => ⟨1, by omega, fun rounds => ⟨pass'', ?_⟩⟩⟩
  rw [generateLoop, if_pos (by exact_mod_cast within), parsed, Option.bind_some]
  exact if_pos (show hdfFailure ≤ 0 by decide)

/-! ### The first pass -/

theorem within_of_drop {data : Bytes} (here : treeStart.drop o = data ++ rest)
    (some : 0 < data.length) : o < treeStart.length := by
  have length := congrArg List.length here
  rw [List.length_drop, List.length_append] at length
  omega

theorem nodeHeader_pos (name : HcGen.Bytes) (size : UInt32) :
    0 < (nodeHeader needAlign name size).length := by
  have op := opField_pos needAlign .confNode
  rw [nodeHeader, List.length_append]
  omega

theorem termHeader_pos (name : HcGen.Bytes) : 0 < (termHeader needAlign name).length := by
  have op := opField_pos needAlign .confTerm
  rw [termHeader, List.length_append]
  omega

theorem hcsGetPrefix_nodeHeader (name : HcGen.Bytes) (size : UInt32) :
    hcsGetPrefix needAlign (nodeHeader needAlign name size ++ rest) = some configNode := by
  rw [nodeHeader, List.append_assoc, hcsGetPrefix_opField]
  rfl

theorem hcsStringLength_nodeHeader {name : HcGen.Bytes} {size : UInt32} (text : Text name) :
    hcsStringLength needAlign
      ((nodeHeader needAlign name size ++ rest).drop (hcsPrefixLength needAlign)) =
        some (stringField needAlign name).length := by
  rw [nodeHeader, List.append_assoc, drop_opField, List.append_assoc, hcsStringLength_field text]

theorem hcsByteCodeToUint32_nodeHeader (name : HcGen.Bytes) (size : UInt32) :
    hcsByteCodeToUint32 ((nodeHeader needAlign name size ++ rest).drop
      (hcsPrefixLength needAlign + (stringField needAlign name).length)) = some size := by
  rw [← List.drop_drop, nodeHeader, List.append_assoc, drop_opField, List.append_assoc,
    List.drop_left, hcsByteCodeToUint32_word]

theorem hcsGetPrefix_term (term : ConfigTerm) :
    hcsGetPrefix needAlign (encode needAlign hash (.leaf (.term term)) ++ rest) =
      some configAttr := by
  rw [encode, termHeader, List.append_assoc, List.append_assoc, hcsGetPrefix_opField]
  rfl

theorem parse_node_size {name : HcGen.Bytes} {size : UInt32} {memLen : Int32}
    (here : treeStart.drop o = nodeHeader needAlign name size ++ rest) (text : Text name) :
    parseByteCode needAlign treeStart o (.size memLen) =
      some (((nodeHeader needAlign name size).length : ℤ), .size (memLen + .ofNat nodeSize)) := by
  have some : 0 < (nodeHeader needAlign name size).length := nodeHeader_pos _ _
  rw [parseByteCode, here]
  dsimp only
  rw [hcsGetNodeOrAttrLength_node text, Option.bind_some, if_neg (by simpa using some.ne'),
    hcsGetPrefix_nodeHeader, Option.bind_some, if_pos rfl]

theorem parse_term_size {term : ConfigTerm} {memLen : Int32}
    (here : treeStart.drop o = encode needAlign hash (.leaf (.term term)) ++ rest)
    (text : Text term.name) (loadable : term.value.Loadable) :
    parseByteCode needAlign treeStart o (.size memLen) =
      some ((termLength needAlign hash term : ℤ), .size (memLen + .ofNat attrSize)) := by
  have some : 0 < termLength needAlign hash term :=
    (termHeader_pos term.name).trans_le (Nat.le_add_right _ _)
  rw [parseByteCode, here]
  dsimp only
  rw [hcsGetNodeOrAttrLength_term text loadable, Option.bind_some, if_neg (by simpa using some.ne'),
    hcsGetPrefix_term, Option.bind_some, if_neg (by decide), if_pos rfl]

theorem measured_of_counted {term : ConfigTerm} (loadable : term.value.Loadable)
    (counted : Label.Counted (.inr (.term term))) : measured term.value = term.value := by
  obtain ⟨name, refNode, value⟩ := term
  cases value with
  | array type arraySize elements =>
    have few : elements.length < 2 ^ 16 := counted
    have count : arraySize.toUInt16.toNat = elements.length := by
      rw [UInt32.toNat_toUInt16, loadable.1, Nat.mod_eq_of_lt few]
    exact congrArg (Value.array type arraySize) (List.take_of_length_le count.ge)
  | datum d | nodeRef path | delete => rfl

/-- Behind the elements that a 16-bit count tells there is another element. -/
theorem exists_datum_of_not_counted {term : ConfigTerm} (loadable : term.value.Loadable)
    (many : ¬ Label.Counted (.inr (.term term))) : ∃ d behind,
      encode needAlign hash (.leaf (.term term)) = termHeader needAlign term.name ++
        encodeValue needAlign hash (some term) (measured term.value) ++
          (encodeDatum needAlign d ++ behind) := by
  obtain ⟨name, refNode, value⟩ := term
  cases value with
  | array type arraySize elements =>
    have long : ¬ elements.length < 2 ^ 16 := many
    have count : arraySize.toUInt16.toNat < elements.length := by
      rw [UInt32.toNat_toUInt16, loadable.1]
      omega
    obtain ⟨d, later, rest⟩ := List.exists_cons_of_ne_nil
      (List.ne_nil_of_length_pos (List.length_drop ▸ Nat.sub_pos_of_lt count))
    refine ⟨d, later.flatMap (encodeDatum needAlign), ?_⟩
    rw [← List.flatMap_cons, ← rest, encode, encodeValue, measured, encodeValue,
      List.append_assoc, List.append_assoc, List.append_assoc, ← List.flatMap_append,
      List.take_append_drop]
  | datum d | nodeRef path | delete => exact absurd trivial many

/-- A term is passed when its array is short enough; else the loader fails behind the elements
that the count tells. -/
theorem runs_term {term : ConfigTerm}
    (here : treeStart.drop o = encode needAlign hash (.leaf (.term term)) ++ rest)
    (loadable : Label.Loadable (.inr (.term term)))
    (parsed : parseByteCode needAlign treeStart o pass =
      some ((termLength needAlign hash term : ℤ), pass')) :
    Runs needAlign treeStart o pass (o + (encode needAlign hash (.leaf (.term term))).length) pass'
      (Label.Counted (.inr (.term term))) := by
  have within : o < treeStart.length := within_of_drop here (one_le_length_encode _ _ _)
  have some : 0 < termLength needAlign hash term :=
    (termHeader_pos term.name).trans_le (Nat.le_add_right _ _)
  have first := runs_of_parse some within parsed
  by_cases counted : Label.Counted (.inr (.term term))
  · rw [termLength, measured_of_counted loadable.2 counted] at first
    rw [encode, List.length_append]
    exact first.congr (iff_of_true trivial counted)
  · obtain ⟨d, behind, split⟩ := exists_datum_of_not_counted loadable.2 counted
    have there : treeStart.drop (o + termLength needAlign hash term) =
        encodeDatum needAlign d ++ (behind ++ rest) := by
      rw [← List.drop_drop, here, split, List.append_assoc, List.drop_left' (by
        rw [List.length_append, termLength]), List.append_assoc]
    have datum : 1 ≤ (encodeDatum needAlign d).length := one_le_length_encodeDatum d
    have failed : parseByteCode needAlign treeStart (o + termLength needAlign hash term) pass' =
        Option.some (hdfFailure, pass') := by
      rw [parseByteCode, there]
      dsimp only
      rw [hcsGetNodeOrAttrLength_datum, Option.bind_some]
      exact if_pos (show hdfFailure ≤ 0 by decide)
    have less : o + termLength needAlign hash term <
        o + (encode needAlign hash (.leaf (.term term))).length := by
      rw [split, List.length_append, List.length_append, List.length_append, termLength]
      omega
    have second : Runs needAlign treeStart _ pass' _ pass' False :=
      runs_of_failure less (within_of_drop there datum) failed
    exact (first.trans less.le fun _ => second).congr (by simp [counted])

/-- The first pass counts the memory for an object: some, but no more than a node for each byte. -/
def SizeRuns (needAlign : Bool) (hash : ℕ → UInt32) (treeStart : Bytes) (object : AstObject) :
    Prop :=
  ∀ o memLen rest, treeStart.drop o = encode needAlign hash object ++ rest →
    (∀ l ∈ object.labels, Label.Loadable l) → ∃ more, 0 < more ∧
      more ≤ nodeSize * (encode needAlign hash object).length ∧
      Runs needAlign treeStart o (.size memLen) (o + (encode needAlign hash object).length)
        (.size (memLen + .ofNat more)) (∀ l ∈ object.labels, Label.Counted l)

theorem size_list {children : List AstObject}
    (each : ∀ c ∈ children, SizeRuns needAlign hash treeStart c) (memLen : Int32)
    (here : treeStart.drop o = encodeList needAlign hash children ++ rest)
    (loadable : ∀ l ∈ children.flatMap Tree.labels, Label.Loadable l) :
    ∃ more ≤ nodeSize * (encodeList needAlign hash children).length,
      Runs needAlign treeStart o (.size memLen)
        (o + (encodeList needAlign hash children).length) (.size (memLen + .ofNat more))
        (∀ l ∈ children.flatMap Tree.labels, Label.Counted l) := by
  induction children generalizing o memLen with
  | nil =>
    refine ⟨0, Nat.zero_le _, ?_⟩
    rw [show Int32.ofNat 0 = 0 from rfl, Int32.add_zero]
    exact (Runs.refl o (.size memLen)).congr (by simp)
  | cons child children ih =>
    rw [List.flatMap_cons, List.forall_mem_append] at loadable
    rw [encodeList, List.append_assoc] at here
    obtain ⟨some, _, few, first⟩ := each child List.mem_cons_self o memLen _ here loadable.1
    obtain ⟨more, few', second⟩ := ih (fun c member => each c (List.mem_cons_of_mem _ member))
      (memLen + .ofNat some) (by rw [← List.drop_drop, here, List.drop_left]) loadable.2
    rw [encodeList, List.length_append]
    refine ⟨some + more, Nat.mul_add _ _ _ ▸ Nat.add_le_add few few', ?_⟩
    rw [← Nat.add_assoc, Int32.ofNat_add, ← Int32.add_assoc]
    exact (first.trans second.le fun _ => second).congr (by
      rw [List.flatMap_cons, List.forall_mem_append])

theorem size_object (object : AstObject) : SizeRuns needAlign hash treeStart object := by
  induction object using Tree.induct with
  | leaf leaf =>
    intro o memLen rest here loadable
    have own := loadable (.inr leaf) (by simp)
    cases leaf with
    | term term =>
      have parsed : parseByteCode needAlign treeStart o (.size memLen) = _ :=
        parse_term_size here own.1 own.2
      exact ⟨attrSize, by decide,
        Nat.mul_le_mul (show attrSize ≤ nodeSize by decide) (one_le_length_encode _ _ _),
        (runs_term here own parsed).congr (by simp)⟩
    | value value => exact own.elim
  | node node children ih =>
    intro o memLen rest here loadable
    rw [Tree.labels_node, List.forall_mem_cons] at loadable
    rw [encode, List.append_assoc] at here
    have header : 0 < (nodeHeader needAlign node.name (getSubSize needAlign children)).length :=
      nodeHeader_pos _ _
    have parsed : parseByteCode needAlign treeStart o (.size memLen) = _ :=
      parse_node_size here loadable.1
    have first := runs_of_parse header (within_of_drop here header) parsed
    obtain ⟨more, few, second⟩ := size_list ih (memLen + .ofNat nodeSize)
      (by rw [← List.drop_drop, here, List.drop_left]) loadable.2
    rw [encode, List.length_append]
    refine ⟨nodeSize + more, Nat.add_pos_left (by decide) more, ?_, ?_⟩
    · rw [Nat.mul_add]
      exact Nat.add_le_add (Nat.mul_le_mul_left nodeSize header) few
    rw [← Nat.add_assoc, Int32.ofNat_add, ← Int32.add_assoc]
    exact (first.trans second.le fun _ => second).congr (by
      rw [Tree.labels_node, List.forall_mem_cons]
      rfl)

end

/-! ### What is built -/

section

variable (needAlign : Bool) (hash : ℕ → UInt32) (treeStart : Bytes)

/-- The attribute whose record is at an offset. -/
def attrAt (o : ℕ) (term : ConfigTerm) : DeviceResourceAttr :=
  { name := treeStart.drop (o + hcsPrefixLength needAlign)
    value := treeStart.drop (o + (termHeader needAlign term.name).length) }

/-- The attributes of a node, in the order of their records. -/
def attrsOf (o : ℕ) : List AstObject → List DeviceResourceAttr
  | [] => []
  | .leaf (.term term) :: rest =>
    attrAt needAlign treeStart o term ::
      attrsOf (o + (encode needAlign hash (.leaf (.term term))).length) rest
  | child :: rest => attrsOf (o + (encode needAlign hash child).length) rest

/-- The fields of the node whose record is at an offset. -/
def nodeFields (o : ℕ) (attrData : List DeviceResourceAttr) : DeviceResourceNode :=
  { name := treeStart.drop (o + hcsPrefixLength needAlign)
    hashValue := .ofNat o + .ofNat hbcHeaderLength
    attrData := attrData }

/-- The offset behind the record of a node. -/
def behindHeader (o : ℕ) (node : ConfigNode) (children : List AstObject) : ℕ :=
  o + (nodeHeader needAlign node.name (getSubSize needAlign children)).length

mutual

/-- What is built of an object whose record is at an offset: the tree of a node. -/
def built (o : ℕ) : AstObject → List ConfigTree
  | .leaf _ => []
  | .node node children =>
    let below := behindHeader needAlign o node children
    [.node (nodeFields needAlign treeStart o
      (attrsOf needAlign hash treeStart below children).reverse) (builtList below children)]

/-- What is built of objects whose records start at an offset. -/
def builtList (o : ℕ) : List AstObject → List ConfigTree
  | [] => []
  | child :: rest =>
    built o child ++ builtList (o + (encode needAlign hash child).length) rest

end

/-- The memory of the loader has room for missing nodes. -/
def stored (trees : List ConfigTree) : List TreeMem := trees.map (Tree.mapNodes some)

/-- New attributes, in the order of their records, and new nodes of a node. -/
def extend (attrs : List DeviceResourceAttr) (trees : List ConfigTree) : TreeMem → TreeMem
  | .leaf e => .leaf e
  | .node a cs =>
    .node (a.map fun n => { n with attrData := attrs.reverse ++ n.attrData }) (cs ++ stored trees)

/-- What an object does to the node that it is below. -/
def grow (o : ℕ) (object : AstObject) : TreeMem → TreeMem :=
  extend (attrsOf needAlign hash treeStart o [object]) (built needAlign hash treeStart o object)

def growList (o : ℕ) (objects : List AstObject) : TreeMem → TreeMem :=
  extend (attrsOf needAlign hash treeStart o objects)
    (builtList needAlign hash treeStart o objects)

end

theorem extend_nil (t : TreeMem) : extend [] [] t = t := by
  cases t with
  | leaf e => rfl
  | node a cs =>
    cases a with
    | none | some n => simp [extend, stored]

theorem extend_extend (attrs attrs' : List DeviceResourceAttr) (trees trees' : List ConfigTree) :
    extend attrs' trees' ∘ extend attrs trees = extend (attrs ++ attrs') (trees ++ trees') := by
  funext t
  cases t with
  | leaf e => rfl
  | node a cs =>
    cases a with
    | none | some n => simp [extend, stored]

section

variable {needAlign : Bool} {hash : ℕ → UInt32} {treeStart rest : Bytes} {o : ℕ} {pass pass' : Pass}
  {good : Prop}

theorem attrsOf_cons (child : AstObject) (objects : List AstObject) :
    attrsOf needAlign hash treeStart o (child :: objects) =
      attrsOf needAlign hash treeStart o [child] ++
        attrsOf needAlign hash treeStart (o + (encode needAlign hash child).length) objects := by
  cases child with
  | leaf leaf => cases leaf <;> rfl
  | node node children => rfl

theorem growList_nil : growList needAlign hash treeStart o [] = id := by
  funext t
  exact extend_nil t

theorem growList_cons (child : AstObject) (objects : List AstObject) :
    growList needAlign hash treeStart o (child :: objects) =
      growList needAlign hash treeStart (o + (encode needAlign hash child).length) objects ∘
        grow needAlign hash treeStart o child := by
  rw [growList, growList, grow, extend_extend, ← attrsOf_cons, builtList]

theorem stored_built_node (node : ConfigNode) (children : List AstObject) :
    stored (built needAlign hash treeStart o (.node node children)) =
      [.node (some (nodeFields needAlign treeStart o (attrsOf needAlign hash treeStart
        (behindHeader needAlign o node children) children).reverse))
        (stored (builtList needAlign hash treeStart (behindHeader needAlign o node children)
          children))] := by
  have all (trees : List ConfigTree) : Tree.mapNodesList some trees = stored trees := by
    induction trees with
    | nil => rfl
    | cons tree trees ih => rw [Tree.mapNodesList, ih]; rfl
  rw [built, stored, List.map_singleton, Tree.mapNodes, all]

/-- A new node is put behind the children of its parent and then grows. -/
theorem grow_node {mem : TreeMem} {p : NodePtr} {a : Option DeviceResourceNode}
    {cs : List TreeMem} (node : ConfigNode) (children : List AstObject)
    (here : mem.get? p = some (.node a cs)) :
    (mem.appendAt p (.node (some (nodeFields needAlign treeStart o [])) [])).modifyAt
        (cs.length :: p)
        (growList needAlign hash treeStart (behindHeader needAlign o node children) children) =
      mem.modifyAt p (grow needAlign hash treeStart o (.node node children)) := by
  rw [Tree.appendAt, Tree.modifyAt, Tree.modifyAt_modifyAt]
  apply Tree.modifyAt_congr here
  have last {α : Type} (l : List α) (x : α) (f : α → α) :
      (l ++ [x]).modify l.length f = l ++ [f x] := by
    induction l with
    | nil => rfl
    | cons y l ih => exact congrArg (y :: ·) ih
  change Tree.node a ((cs ++ [_]).modify cs.length _) = _
  rw [last, growList, extend, grow, extend, stored_built_node]
  cases a <;> simp [attrsOf, nodeFields]

/-! ### The second pass -/

/-- Nodes that end at or before an offset are not the parent of a record there. -/
theorem getParentNode_eq {junk below : List TreeStack} {e : TreeStack} {n : ℕ} (some : 0 < n)
    (ended : ∀ x ∈ junk, x.offset.toNat ≤ o) (inside : o + n ≤ e.offset.toNat) :
    getParentNode o (junk ++ e :: below) n = (Option.some e.node, e :: below) := by
  have word : (UInt32.ofNat (n + o)).toNat = n + o := by
    rw [UInt32.toNat_ofNat', Nat.mod_eq_of_lt]
    have less := e.offset.toNat_lt
    omega
  have left : (junk ++ e :: below).dropWhile (fun e => e.offset < .ofNat (n + o)) = e :: below := by
    induction junk with
    | nil =>
      rw [List.nil_append, List.dropWhile_cons_of_neg]
      rw [decide_eq_true_iff, UInt32.lt_iff_toNat_lt, word]
      omega
    | cons x junk ih =>
      have before := ended x List.mem_cons_self
      rw [List.cons_append, List.dropWhile_cons_of_pos]
      · exact ih fun y member => ended y (List.mem_cons_of_mem x member)
      · rw [decide_eq_true_iff, UInt32.lt_iff_toNat_lt, word]
        omega
  rw [getParentNode, left]

theorem parse_node_tree {name : HcGen.Bytes} {size : UInt32} {mem : TreeMem} {n : ℕ}
    {stack : List TreeStack} {parent : Option NodePtr × List TreeStack}
    (here : treeStart.drop o = nodeHeader needAlign name size ++ rest) (text : Text name)
    (length : (nodeHeader needAlign name size).length = n)
    (found : getParentNode o stack n = parent) :
    parseByteCode needAlign treeStart o (.tree mem stack) =
      some ((updateTreeStack parent.2 (createTreeNode needAlign treeStart o parent.1 mem).1
        (size + .ofNat (o + n))).elim
          (hdfFailure, .tree (createTreeNode needAlign treeStart o parent.1 mem).2 parent.2)
          fun treeStack =>
            ((n : ℤ), .tree (createTreeNode needAlign treeStart o parent.1 mem).2 treeStack)) := by
  have some : 0 < (nodeHeader needAlign name size).length := nodeHeader_pos _ _
  rw [parseByteCode, here]
  dsimp only
  rw [hcsGetNodeOrAttrLength_node text, Option.bind_some, if_neg (by simpa using some.ne'),
    hcsGetPrefix_nodeHeader, Option.bind_some, if_pos rfl, hcsStringLength_nodeHeader text,
    Option.bind_some, Nat.add_comm (stringField needAlign name).length,
    hcsByteCodeToUint32_nodeHeader, Option.map_some, Int.toNat_natCast, length, found]
  cases updateTreeStack parent.2 (createTreeNode needAlign treeStart o parent.1 mem).1
    (size + .ofNat (o + n)) <;> rfl

/-- An attribute is put in front of the others. -/
theorem parse_term_grow {term : ConfigTerm} {mem : TreeMem} {junk below : List TreeStack}
    {e : TreeStack}
    (here : treeStart.drop o = encode needAlign hash (.leaf (.term term)) ++ rest)
    (text : Text term.name) (loadable : term.value.Loadable)
    (ended : ∀ x ∈ junk, x.offset.toNat ≤ o)
    (inside : o + termLength needAlign hash term ≤ e.offset.toNat) :
    parseByteCode needAlign treeStart o (.tree mem (junk ++ e :: below)) =
      some ((termLength needAlign hash term : ℤ),
        .tree (mem.modifyAt e.node (grow needAlign hash treeStart o (.leaf (.term term))))
          (e :: below)) := by
  have some : 0 < termLength needAlign hash term :=
    (termHeader_pos term.name).trans_le (Nat.le_add_right _ _)
  have string : hcsStringLength needAlign ((encode needAlign hash (.leaf (.term term)) ++ rest).drop
      (hcsPrefixLength needAlign)) = Option.some (stringField needAlign term.name).length := by
    rw [encode, termHeader, List.append_assoc, List.append_assoc, drop_opField,
      hcsStringLength_field text]
  have pushed : grow needAlign hash treeStart o (.leaf (.term term)) =
      Tree.relabel (Option.map fun n => { n with attrData :=
        { name := (treeStart.drop o).drop (hcsPrefixLength needAlign)
          value := (treeStart.drop o).drop (hcsPrefixLength needAlign +
            (stringField needAlign term.name).length) } :: n.attrData }) id := by
    funext t
    rw [List.drop_drop, List.drop_drop]
    cases t with
    | leaf e => rfl
    | node a cs =>
      change Tree.node _ (cs ++ []) = _
      rw [List.append_nil, attrsOf, attrsOf, attrAt, termHeader, List.length_append,
        length_opField]
      rfl
  rw [parseByteCode, pushed, here]
  dsimp only
  rw [hcsGetNodeOrAttrLength_term text loadable, Option.bind_some, if_neg (by simpa using some.ne'),
    hcsGetPrefix_term, Option.bind_some, if_neg (by decide), if_pos rfl, Int.toNat_natCast,
    getParentNode_eq some ended inside, addAttrInNode, string]
  rfl

/-- The second pass grows the parent of an object by it, if the stack has room for its nodes. -/
def Builds (needAlign : Bool) (hash : ℕ → UInt32) (treeStart : Bytes) (object : AstObject) : Prop :=
  ∀ o mem junk e below rest, treeStart.drop o = encode needAlign hash object ++ rest →
    (∀ l ∈ object.labels, Label.Loadable l) → (∀ l ∈ object.labels, Label.Counted l) →
    (∀ x ∈ junk, x.offset.toNat ≤ o) →
    o + (encode needAlign hash object).length ≤ e.offset.toNat →
    below.length + 1 < treeStackMax →
    (∃ a cs, mem.get? e.node = some (.node a cs)) → ∃ junk',
      (∀ x ∈ junk', x.offset.toNat ≤ o + (encode needAlign hash object).length) ∧
      Runs needAlign treeStart o (.tree mem (junk ++ e :: below))
        (o + (encode needAlign hash object).length)
        (.tree (mem.modifyAt e.node (grow needAlign hash treeStart o object))
          (junk' ++ e :: below)) (below.length + 1 + levels object < treeStackMax)

theorem exists_node_grow {mem : TreeMem} {p : NodePtr} (object : AstObject)
    (here : ∃ a cs, mem.get? p = some (.node a cs)) :
    ∃ a cs, (mem.modifyAt p (grow needAlign hash treeStart o object)).get? p =
      some (.node a cs) := by
  obtain ⟨a, cs, here⟩ := here
  rw [Tree.get?_modifyAt_self, here]
  exact ⟨_, _, rfl⟩

theorem builds_list {children : List AstObject}
    (each : ∀ c ∈ children, Builds needAlign hash treeStart c) (mem : TreeMem)
    (junk : List TreeStack) (e : TreeStack) (below : List TreeStack)
    (here : treeStart.drop o = encodeList needAlign hash children ++ rest)
    (loadable : ∀ l ∈ children.flatMap Tree.labels, Label.Loadable l)
    (counted : ∀ l ∈ children.flatMap Tree.labels, Label.Counted l)
    (ended : ∀ x ∈ junk, x.offset.toNat ≤ o)
    (inside : o + (encodeList needAlign hash children).length ≤ e.offset.toNat)
    (room : below.length + 1 < treeStackMax)
    (parent : ∃ a cs, mem.get? e.node = some (.node a cs)) :
    ∃ junk', (∀ x ∈ junk', x.offset.toNat ≤ o + (encodeList needAlign hash children).length) ∧
      Runs needAlign treeStart o (.tree mem (junk ++ e :: below))
        (o + (encodeList needAlign hash children).length)
        (.tree (mem.modifyAt e.node (growList needAlign hash treeStart o children))
          (junk' ++ e :: below)) (below.length + 1 + levelsList children < treeStackMax) := by
  induction children generalizing o mem junk with
  | nil =>
    have same : mem.modifyAt e.node (growList needAlign hash treeStart o []) = mem := by
      rw [growList_nil]
      exact Tree.modifyAt_id mem e.node
    rw [same]
    exact ⟨junk, ended, (Runs.refl o _).congr (by simpa [levelsList] using room)⟩
  | cons child children ih =>
    rw [List.flatMap_cons, List.forall_mem_append] at loadable counted
    rw [encodeList, List.append_assoc] at here
    rw [encodeList, List.length_append, ← Nat.add_assoc] at inside
    obtain ⟨junk₁, ended₁, first⟩ := each child List.mem_cons_self o mem junk e below _ here
      loadable.1 counted.1 ended (by omega) room parent
    obtain ⟨junk₂, ended₂, second⟩ := ih (fun c member => each c (List.mem_cons_of_mem _ member))
      (mem.modifyAt e.node (grow needAlign hash treeStart o child)) junk₁
      (by rw [← List.drop_drop, here, List.drop_left]) loadable.2 counted.2 ended₁ inside
      (exists_node_grow child parent)
    rw [Tree.modifyAt_modifyAt, ← growList_cons] at second
    rw [encodeList, List.length_append, ← Nat.add_assoc]
    refine ⟨junk₂, ended₂, (first.trans second.le fun _ => second).congr ?_⟩
    rw [levelsList]
    omega

/-- What follows the record of a node, once the stack of its parent is known. -/
theorem builds_node {node : ConfigNode} {children : List AstObject}
    (each : ∀ c ∈ children, Builds needAlign hash treeStart c) (mem : TreeMem)
    {stack below : List TreeStack} {parent : Option NodePtr}
    (here : treeStart.drop o = encode needAlign hash (.node node children) ++ rest)
    (short : treeStart.length < 2 ^ 32)
    (loadable : ∀ l ∈ (Tree.node node children : AstObject).labels, Label.Loadable l)
    (counted : ∀ l ∈ (Tree.node node children : AstObject).labels, Label.Counted l)
    (found : getParentNode o stack
      (nodeHeader needAlign node.name (getSubSize needAlign children)).length = (parent, below))
    (there : ∃ a cs, mem.get? (parent.getD []) = some (.node a cs)) :
    ∃ junk' e, e.node = mem.arity (parent.getD []) :: parent.getD [] ∧
      e.offset.toNat = o + (encode needAlign hash (.node node children)).length ∧
      (∀ x ∈ junk', x.offset.toNat ≤ o + (encode needAlign hash (.node node children)).length) ∧
      Runs needAlign treeStart o (.tree mem stack)
        (o + (encode needAlign hash (.node node children)).length)
        (.tree (mem.modifyAt (parent.getD [])
          (grow needAlign hash treeStart o (.node node children))) (junk' ++ e :: below))
        (below.length + levels (.node node children) < treeStackMax) := by
  rw [Tree.labels_node, List.forall_mem_cons] at loadable counted
  obtain ⟨a, cs, there⟩ := there
  have total := congrArg List.length here
  have size : getSubSize needAlign children =
      UInt32.ofNat (encodeList needAlign hash children).length := getSubSize_eq children
  rw [encode, List.append_assoc] at here
  rw [encode, List.length_append, levels]
  rw [encode, List.length_drop, List.length_append, List.length_append] at total
  have header : 0 < (nodeHeader needAlign node.name (getSubSize needAlign children)).length :=
    nodeHeader_pos _ _
  have within := within_of_drop here header
  have parsed : parseByteCode needAlign treeStart o (.tree mem stack) = _ :=
    parse_node_tree here loadable.1 rfl found
  have behind : treeStart.drop (behindHeader needAlign o node children) =
      encodeList needAlign hash children ++ rest := by
    rw [behindHeader, ← List.drop_drop, here, List.drop_left]
  have grown : (mem.appendAt (parent.getD [])
      (.node (some (nodeFields needAlign treeStart o [])) [])).modifyAt
        (cs.length :: parent.getD [])
        (growList needAlign hash treeStart (behindHeader needAlign o node children) children) = _ :=
    grow_node node children there
  have created : createTreeNode needAlign treeStart o parent mem =
      (cs.length :: parent.getD [],
        mem.appendAt (parent.getD []) (.node (some (nodeFields needAlign treeStart o [])) [])) := by
    rw [createTreeNode, Tree.arity_of_get? there]
    rfl
  have fresh : (mem.appendAt (parent.getD []) (.node (some (nodeFields needAlign treeStart o []))
      [])).get? (cs.length :: parent.getD []) = _ := Tree.get?_appendAt_new there
  rw [created] at parsed
  rw [Tree.arity_of_get? there, Tree.children_node]
  dsimp only at parsed
  -- the entry of the node ends with the node
  have end_ : (getSubSize needAlign children + .ofNat (o + (nodeHeader needAlign node.name
      (getSubSize needAlign children)).length)).toNat = o + ((nodeHeader needAlign node.name
        (getSubSize needAlign children)).length + (encodeList needAlign hash children).length) := by
    rw [size, ← UInt32.ofNat_add, UInt32.toNat_ofNat', Nat.mod_eq_of_lt (by rw [← size]; omega)]
    omega
  have max : treeStackMax = 64 := rfl
  by_cases full : below.length ≥ treeStackMax - 1
  · rw [updateTreeStack, if_pos full] at parsed
    refine ⟨[], { offset := _, node := cs.length :: parent.getD [] }, rfl, end_, by simp, ?_⟩
    exact (runs_of_failure (by omega) within parsed).congr (iff_of_false id (by omega))
  · rw [updateTreeStack, if_neg full] at parsed
    have first := runs_of_parse header within parsed
    obtain ⟨junk', ended, second⟩ := builds_list each
      (mem.appendAt (parent.getD []) (.node (some (nodeFields needAlign treeStart o [])) [])) []
      { offset := _, node := cs.length :: parent.getD [] } below behind loadable.2 counted.2
      (by simp) (by rw [end_, behindHeader, Nat.add_assoc]) (by omega) ⟨_, _, fresh⟩
    rw [grown, behindHeader, Nat.add_assoc] at second
    rw [behindHeader, Nat.add_assoc] at ended
    refine ⟨junk', _, rfl, end_, ended, (first.trans second.le fun _ => second).congr ?_⟩
    rw [true_and, Nat.add_assoc, Nat.add_comm 1]

theorem builds_object (short : treeStart.length < 2 ^ 32) (object : AstObject) :
    Builds needAlign hash treeStart object := by
  induction object using Tree.induct with
  | leaf leaf =>
    intro o mem junk e below rest here loadable counted ended inside room there
    have own := loadable (.inr leaf) (by simp)
    have few := counted (.inr leaf) (by simp)
    cases leaf with
    | term term =>
      have length : termLength needAlign hash term =
          (encode needAlign hash (.leaf (.term term))).length := by
        rw [termLength, measured_of_counted own.2 few, encode, List.length_append]
      have parsed : parseByteCode needAlign treeStart o (.tree mem (junk ++ e :: below)) = _ :=
        parse_term_grow here own.1 own.2 ended (length ▸ inside)
      refine ⟨[], by simp, (runs_term here own parsed).congr ?_⟩
      exact iff_of_true few (by simpa [levels] using room)
    | value value => exact own.elim
  | node node children ih =>
    intro o mem junk e below rest here loadable counted ended inside room there
    have header : 0 < (nodeHeader needAlign node.name (getSubSize needAlign children)).length :=
      nodeHeader_pos _ _
    have within : o + (nodeHeader needAlign node.name (getSubSize needAlign children)).length ≤
        e.offset.toNat := by
      rw [encode, List.length_append] at inside
      omega
    obtain ⟨junk', new, -, end_, ended', run⟩ := builds_node ih mem here short loadable counted
      (getParentNode_eq header ended within) there
    refine ⟨junk' ++ [new], ?_, ?_⟩
    · rw [List.forall_mem_append, List.forall_mem_singleton]
      exact ⟨ended', end_.le⟩
    · rw [List.append_assoc, List.singleton_append]
      exact run

/-! ### Whole blobs -/

/-- A run over all records decides what `GenerateCfgTree` returns. -/
theorem generateCfgTree_of_runs
    (run : Runs needAlign treeStart 0 pass treeStart.length pass' good) :
    (good → generateCfgTree needAlign treeStart treeStart.length pass =
      some (pass'.treeLayerOrMemLen, pass')) ∧
    (¬ good → ∃ last, generateCfgTree needAlign treeStart treeStart.length pass =
      some (hdfFailure, last)) := by
  rw [generateCfgTree, Int.toNat_natCast]
  constructor
  · intro yes
    obtain ⟨k, few, eq⟩ := run.passes yes
    obtain ⟨spare, split⟩ := Nat.exists_eq_add_of_le few
    rw [show treeStart.length + 1 = spare + 1 + k by omega, eq, generateLoop, if_neg (lt_irrefl _)]
  · intro no
    obtain ⟨k, few, eq⟩ := run.fails no
    obtain ⟨spare, split⟩ := Nat.exists_eq_add_of_le few
    rw [show treeStart.length + 1 = spare + 1 + k by omega]
    exact eq (spare + 1)

theorem hcsGetNodeLength_node {node : ConfigNode} {children : List AstObject}
    (text : Text node.name)
    (short : (encode needAlign hash (.node node children)).length < 2 ^ 31) :
    hcsGetNodeLength needAlign (encode needAlign hash (.node node children)) =
      some ((encode needAlign hash (.node node children)).length : ℤ) := by
  have size : getSubSize needAlign children =
      UInt32.ofNat (encodeList needAlign hash children).length := getSubSize_eq children
  rw [encode, List.length_append] at short ⊢
  rw [size] at short ⊢
  rw [hcsGetNodeLength, hcsGetNodeOrAttrLength_node text, Option.bind_some,
    if_neg (not_lt.mpr (Int.natCast_nonneg _)), hcsStringLength_nodeHeader text, Option.bind_some,
    hcsByteCodeToUint32_nodeHeader, Option.bind_some, UInt32.toInt32_ofNat',
    Int32.toInt_ofNat_of_lt (by omega), if_pos (by rw [int32Max]; omega), Nat.cast_add]

/-- What is built of a whole blob. -/
def builtRoot (needAlign : Bool) (hash : ℕ → UInt32) (root : AstObject) : TreeMem :=
  .node none (stored (built needAlign hash (encode needAlign hash root) 0 root))

theorem hcsDecompile_encode {node : ConfigNode} {children : List AstObject} {header : Bytes}
    (length : header.length = hbcHeaderLength)
    (loadable : ∀ l ∈ (Tree.node node children : AstObject).labels, Label.Loadable l)
    (short : (encode needAlign hash (.node node children)).length ≤ hbcBlobMaxLength) :
    (levels (.node node children) < treeStackMax ∧
        (∀ l ∈ (Tree.node node children : AstObject).labels, Label.Counted l) →
      hcsDecompile needAlign (header ++ encode needAlign hash (.node node children))
        hbcHeaderLength = some (some (builtRoot needAlign hash (.node node children), [0]))) ∧
    (¬ (levels (.node node children) < treeStackMax ∧
        ∀ l ∈ (Tree.node node children : AstObject).labels, Label.Counted l) →
      hcsDecompile needAlign (header ++ encode needAlign hash (.node node children))
        hbcHeaderLength = some none) := by
  have text : Text node.name := loadable (.inl node) (by simp)
  have here : (encode needAlign hash (.node node children)).drop 0 =
      encode needAlign hash (.node node children) ++ [] := by simp
  obtain ⟨more, some, few, sized⟩ := size_object (.node node children) 0 0 [] here loadable
  rw [Nat.zero_add, Int32.zero_add] at sized
  obtain ⟨sizes, fails⟩ := generateCfgTree_of_runs sized
  have max : hbcBlobMaxLength = 10485760 := rfl
  have count : (Pass.size (.ofNat more)).treeLayerOrMemLen = (more : ℤ) :=
    Int32.toInt_ofNat_of_lt (by rw [nodeSize] at few; omega)
  rw [hcsDecompile, List.drop_left' length, hcsGetNodeLength_node text (by omega), Option.bind_some,
    if_neg (not_lt.mpr (Int.natCast_nonneg _))]
  by_cases counted : ∀ l ∈ (Tree.node node children : AstObject).labels, Label.Counted l
  · have room : (encode needAlign hash (.node node children)).length < 2 ^ 32 := by omega
    have top : getParentNode 0 [] (nodeHeader needAlign node.name
        (getSubSize needAlign children)).length = (none, []) := rfl
    obtain ⟨junk', e, own, -, -, run⟩ := builds_node (fun c _ => builds_object room c)
      (.node none []) here room loadable counted top ⟨none, [], rfl⟩
    change Runs needAlign _ 0 _ _
      (.tree (builtRoot needAlign hash (.node node children)) _) _ at run
    have layer : ¬ (Pass.tree (builtRoot needAlign hash (.node node children))
        (junk' ++ [e])).treeLayerOrMemLen ≤ 0 := by
      rw [Pass.treeLayerOrMemLen, List.length_append, List.length_singleton]
      omega
    rw [Nat.zero_add, List.length_nil, Nat.zero_add] at run
    obtain ⟨loads, stops⟩ := generateCfgTree_of_runs run
    rw [sizes counted, Option.bind_some, if_neg (by simpa [count] using some.ne'),
      and_iff_left counted]
    constructor
    · intro shallow
      rw [loads shallow, Option.map_some, if_neg layer, Pass.root, List.getLast?_append,
        List.getLast?_singleton, Option.some_or, Option.map_some, own]
      rfl
    · intro deep
      obtain ⟨last, stopped⟩ := stops deep
      rw [stopped, Option.map_some, if_pos (show hdfFailure ≤ 0 by decide)]
  · obtain ⟨last, failed⟩ := fails counted
    rw [failed, Option.bind_some, if_pos (show hdfFailure ≤ 0 by decide)]
    exact ⟨fun both => absurd both.2 counted, fun _ => rfl⟩

/-- The least length of a node with the name `root`. -/
theorem le_length_encode_root {node : ConfigNode} {children : List AstObject}
    (named : node.name = ascii "root") :
    (if needAlign then 16 else 10) ≤ (encode needAlign hash (.node node children)).length := by
  have text : (ascii "root" ++ [0]).length = 5 := by decide
  have string : (stringField needAlign (ascii "root")).length = if needAlign then 8 else 5 := by
    rw [stringField, length_field (by omega), text]
    rfl
  have word : (field needAlign (leBytes 4 (getSubSize needAlign children).toNat)).length =
      hcsDwordLength := length_number .uint32 _
  rw [encode, nodeHeader, List.length_append, List.length_append, List.length_append,
    length_opField, named, string, word, hcsDwordLength, hcsPrefixLength]
  split <;> omega

theorem checkHcsBlobLength_eq {stale : Bool} {length totalSize : UInt32} {L : ℕ}
    (sign : totalSize.toInt32 < 0 ↔ needAlign = true)
    (size : totalSize = if needAlign then -UInt32.ofNat L else UInt32.ofNat L)
    (whole : length = .ofNat (hbcHeaderLength + L)) (short : hbcHeaderLength + L < 2 ^ 32)
    (least : (if stale then 36 else 30) ≤ hbcHeaderLength + L) :
    checkHcsBlobLength stale length totalSize.toInt32 = (true, needAlign) := by
  have known : decide (totalSize.toInt32 < 0) = needAlign := by
    cases needAlign with
    | true => exact decide_eq_true (sign.mpr rfl)
    | false => exact decide_eq_false fun less => by simpa using sign.mp less
  have blobLength :
      (if totalSize.toInt32 ≥ 0 then .ofNat hbcHeaderLength + totalSize.toInt32.toUInt32
      else .ofNat hbcHeaderLength - totalSize.toInt32.toUInt32) = length := by
    rw [UInt32.toUInt32_toInt32, size, whole, UInt32.ofNat_add]
    cases needAlign with
    | true =>
      rw [if_neg (by simpa [size] using sign)]
      simp
    | false =>
      rw [if_pos (by simpa [size] using sign)]
      rfl
  have enough : ¬ length < .ofNat ((if stale then 8 else 5) + hcsPrefixLength stale +
      hcsDwordLength + hbcHeaderLength) := by
    rw [UInt32.lt_iff_toNat_lt, whole, UInt32.toNat_ofNat', Nat.mod_eq_of_lt short]
    cases stale <;> exact not_lt.mpr least
  rw [checkHcsBlobLength, blobLength, known, decide_eq_false enough]
  simp

/-- The check accepts a compiled file that is not too long. After a padded blob it asks for the
least length of padded ones. -/
theorem hcsCheckBlobFormat_file {node : ConfigNode} {children : List AstObject} {stale : Bool}
    {length : UInt32} {file : Bytes} (named : node.name = ascii "root")
    (written : file = hcbHeader needAlign (.node node children) ++
      encode needAlign hash (.node node children))
    (whole : length.toNat = file.length) (old : stale = true → 36 ≤ file.length) :
    hcsCheckBlobFormat stale file length =
      some (if file.length ≤ hbcBlobMaxLength then (true, needAlign) else (false, stale)) := by
  have header : (hcbHeader needAlign (.node node children)).length = hbcHeaderLength := by
    simp [hcbHeader, hbcHeaderLength]
  have total : file.length =
      hbcHeaderLength + (encode needAlign hash (.node node children)).length := by
    rw [written, List.length_append, header]
  have size : getSize needAlign (.node node children) =
      UInt32.ofNat (encode needAlign hash (.node node children)).length := getSize_eq _
  rw [hcsCheckBlobFormat, whole]
  by_cases short : file.length ≤ hbcBlobMaxLength
  · have max : hbcBlobMaxLength = 10485760 := rfl
    have small : (encode needAlign hash (.node node children)).length < 2 ^ 31 := by omega
    have sign : SignKept needAlign (.node node children) := signKept_of_short small
    have least : (if needAlign then 16 else 10) ≤
        (encode needAlign hash (.node node children)).length := le_length_encode_root named
    rw [if_neg (by omega), if_pos short]
    rw [hcbHeader] at written
    have magic : hcsByteCodeToUint32 file = some hbcMagicNumber := by
      rw [written]
      simp only [List.append_assoc]
      rw [hcsByteCodeToUint32, wordAt_append (length_leBytes 4 _), leNat_leBytes_of_lt (by decide)]
      rfl
    have word : hcsByteCodeToUint32 (file.drop 16) = some (if needAlign then
        -getSize needAlign (.node node children) else getSize needAlign (.node node children)) := by
      rw [written, List.append_assoc, List.drop_left' (by simp), hcsByteCodeToUint32,
        wordAt_append (length_leBytes 4 _), leNat_leBytes_of_lt (UInt32.toNat_lt _)]
      simp
    rw [magic, Option.bind_some, if_neg (by simp), word, Option.map_some]
    congr 1
    apply checkHcsBlobLength_eq sign
    · rw [size]
    · apply UInt32.toNat_inj.mp
      rw [whole, total, UInt32.toNat_ofNat', Nat.mod_eq_of_lt]
      omega
    · omega
    · cases stale with
      | true => exact total ▸ old rfl
      | false =>
        have wide : 10 ≤ (encode needAlign hash (.node node children)).length := by
          split at least <;> omega
        show 30 ≤ 20 + _
        omega
  · rw [if_pos (.inr (not_le.mp short)), if_neg short]

end

/-- The loader accepts a blob and builds a tree of it. -/
def Loads (stale : Bool) (blob : Bytes) (length : UInt32) : Prop :=
  ∃ byteAlign, hcsCheckBlobFormat stale blob length = some (true, byteAlign) ∧
    ∃ root, hcsDecompile byteAlign blob hbcHeaderLength = some (some root)

/-- A source whose names and strings have no zero bytes, whose nodes hold no bare values and whose
arrays know their lengths can be loaded exactly when it has at most 63 nested nodes, at most
65535 elements in an array and a file of at most 10 MiB. -/
theorem loads_iff {fs : FileSystem} {main : HcGen.Bytes} {root tree : AstObject}
    {needAlign stale : Bool} {file : Bytes} {length : UInt32} (parses : Parses fs main root)
    (compiled : ByteCodeGen.output needAlign root = some file)
    (left : convert root = some (some tree)) (loadable : ∀ l ∈ tree.labels, Label.Loadable l)
    (whole : length.toNat = file.length) (old : stale = true → 36 ≤ file.length) :
    Loads stale file length ↔ levels tree < treeStackMax ∧
      (∀ l ∈ tree.labels, Label.Counted l) ∧ file.length ≤ hbcBlobMaxLength := by
  obtain ⟨tree', converted, _, written⟩ := output_spec compiled
  obtain rfl : tree' = tree := Option.some.inj (Option.some.inj (converted.symm.trans left))
  obtain @⟨node, children, named, noref⟩ := parses.namedRoot
  obtain ⟨below, _, same⟩ := convert_root noref left
  obtain rfl : tree' = .node node below := Option.some.inj same
  have written := written (convert_nodup left parses.nodup)
  have header : (hcbHeader needAlign (.node node below)).length = hbcHeaderLength := by
    simp [hcbHeader, hbcHeaderLength]
  rw [Loads, hcsCheckBlobFormat_file named written whole old]
  by_cases short : file.length ≤ hbcBlobMaxLength
  · have max : hbcBlobMaxLength = 10485760 := rfl
    have small :
        (encode needAlign (hashes needAlign (.node node below)) (.node node below)).length ≤
          hbcBlobMaxLength := by
      rw [written, List.length_append] at short
      omega
    obtain ⟨loads, fails⟩ := hcsDecompile_encode header loadable small
    rw [← written] at loads fails
    rw [if_pos short, ← and_assoc, and_iff_left short]
    simp only [Option.some.injEq, Prod.mk.injEq, true_and, exists_eq_left']
    constructor
    · rintro ⟨root, loaded⟩
      by_contra neither
      cases (fails neither).symm.trans loaded
    · exact fun both => ⟨_, loads both⟩
  · simp [short]

/-! ### Examples -/

/-- Nested nodes. -/
def nested : ℕ → HcGen.Bytes
  | 0 => []
  | n + 1 => ascii "a \x7b" ++ nested n ++ ascii "\x7d"

/-- A root with nested nodes. -/
def nestedSource (n : ℕ) : FileSystem :=
  .files [(ascii "/main", ascii "root \x7b module = \"m\"; " ++ nested n ++ ascii "\x7d")]

theorem loads_iff_nested : ∃ root file length,
    (Loads true file length ↔ levels root < treeStackMax ∧
      (∀ l ∈ root.labels, Label.Counted l) ∧ file.length ≤ hbcBlobMaxLength) := by
  have evaluated : expansionPasses (nestedSource 2) (ascii "/main") (fun _ => true)
      (fun root => decide ((∀ l ∈ root.labels, Label.Loadable l) ∧ NoTemplates root) &&
        match ByteCodeGen.output true root with
        | none => false
        | some file => decide (36 ≤ file.length ∧ file.length < 2 ^ 32)) 50 = true := by
    rw [nestedSource]
    iterate 3 rw [ascii_ofList]
    decide +kernel
  obtain ⟨ast, fresh, root, merged, expands, -, test⟩ := exists_expansion evaluated
  rw [Bool.and_eq_true, decide_eq_true_iff] at test
  obtain ⟨⟨loadable, plain⟩, test⟩ := test
  split at test
  case h_1 => cases test
  case h_2 file compiled =>
    obtain ⟨old, short⟩ := of_decide_eq_true test
    obtain ⟨tree, converted, -, -⟩ := output_spec compiled
    obtain rfl : tree = root := Option.some.inj (convert_eq_self plain converted)
    have whole : (UInt32.ofNat file.length).toNat = file.length := by
      rw [UInt32.toNat_ofNat', Nat.mod_eq_of_lt short]
    exact ⟨tree, file, .ofNat file.length,
      loads_iff ⟨ast, fresh, merged, expands⟩ compiled converted
      loadable whole fun _ => old⟩

/-- The file is accepted, but no tree is built of it. -/
def stopsLoading (root : AstObject) : Bool :=
  match ByteCodeGen.output false root with
  | none => false
  | some file => decide (file.length < 2 ^ 32 ∧
      hcsCheckBlobFormat false file (.ofNat file.length) = some (true, false) ∧
      (hcsDecompile false file hbcHeaderLength).map Option.isSome = some false)

theorem sixty_four_levels : ∃ root file,
    Parses (nestedSource 63) (ascii "/main") root ∧ ByteCodeGen.output false root = some file ∧
      file.length < 2 ^ 32 ∧ ¬ Loads false file (.ofNat file.length) := by
  have evaluated : expansionPasses (nestedSource 63) (ascii "/main") (fun _ => true) stopsLoading
      500 = true := by
    rw [nestedSource]
    iterate 3 rw [ascii_ofList]
    decide +kernel
  obtain ⟨ast, fresh, root, merged, expands, -, test⟩ := exists_expansion evaluated
  unfold stopsLoading at test
  split at test
  case h_1 => cases test
  case h_2 file compiled =>
    obtain ⟨short, accepted, refused⟩ := of_decide_eq_true test
    refine ⟨root, file, ⟨ast, fresh, merged, expands⟩, compiled, short, ?_⟩
    rintro ⟨byteAlign, checked, node, loaded⟩
    obtain rfl : false = byteAlign :=
      (Prod.mk.inj (Option.some.inj (accepted.symm.trans checked))).2
    rw [loaded] at refused
    cases refused

end Hdf.HcsParser
