import Hdf.HcsParser.GenerateTree
import Hdf.Lib.Preorder

/-!
# Finding a node by its reserved attribute

A node can be looked up by the string in its attribute `match_attr`. The search
starts at a node and walks on from there, but it climbs beyond that node when its
subtree is done. And it takes any value for the string whose bytes behind the
prefix spell it, be it a number or an array.

## Main results

* `findsFirstMatch_iff`: when the search finds the first match of a subtree
-/

namespace Hdf.HcsParser

/-- A configuration tree. A pointer to a node is its position. -/
abbrev ConfigTree := Tree DeviceResourceNode Empty

/-- `HCS_MATCH_ATTR`. -/
def hcsMatchAttr : Bytes := "match_attr".toList.map fun c => .ofNat c.toNat

/-- Whether `strcmp` finds the string at a pointer equal to a text without zero bytes. -/
def strcmpEq : Bytes → Bytes → Option Bool
  | [], _ => none
  | c :: _, [] => some (c == 0)
  | c :: start, d :: text => if c = d then strcmpEq start text else some false

section

variable (byteAlign : Bool)

/-- The test in `GetAttrValueInNode`. -/
def attrHolds (attr : DeviceResourceAttr) (attrValue : Bytes) : Option Bool :=
  (strcmpEq (attr.value.drop (hcsPrefixLength byteAlign)) attrValue).bind fun same =>
    if same then strcmpEq attr.name hcsMatchAttr else some false

/-- The loop of `GetAttrValueInNode`. -/
def attrLoop (attrValue : Bytes) : List DeviceResourceAttr → Option (Option DeviceResourceAttr)
  | [] => some none
  | attr :: rest =>
    (attrHolds byteAlign attr attrValue).bind fun holds =>
      if holds then some (some attr) else attrLoop attrValue rest

def getAttrValueInNode (node : DeviceResourceNode) (attrValue : Bytes) :
    Option (Option DeviceResourceAttr) :=
  attrLoop byteAlign attrValue node.attrData

/-- The node at a position. -/
def nodeAt (tree : ConfigTree) (p : NodePtr) : Option DeviceResourceNode :=
  (tree.label? p).bind fun l => l.getLeft?

/-- `TraverseTreeNode`. -/
def traverseTreeNode (tree : ConfigTree) (curNode : NodePtr) : Option NodePtr := tree.climb curNode

/-- The loop of `HcsGetNodeByMatchAttr`. Reading beyond the blob, following a pointer to no node,
or going on for ever has no result. -/
def matchLoop (tree : ConfigTree) (attrValue : Bytes) : ℕ → Option NodePtr → Option (Option NodePtr)
  | 0, _ => none
  | _ + 1, none => some none
  | rounds + 1, some curNode =>
    (nodeAt tree curNode).bind fun node =>
      (getAttrValueInNode byteAlign node attrValue).bind fun attr =>
        if attr.isSome then some (some curNode)
        else matchLoop tree attrValue rounds
          (if (tree.get? (0 :: curNode)).isSome then some (0 :: curNode)
            else traverseTreeNode tree curNode)

/-- `HcsGetNodeByMatchAttr`, with all interfaces there. Without a node, the search starts at the
root. -/
def hcsGetNodeByMatchAttr (tree : ConfigTree) (node : Option NodePtr) (attrValue : Bytes) :
    Option (Option NodePtr) :=
  matchLoop byteAlign tree attrValue (tree.labels.length + 1) (some (node.getD []))

/-! ### What the search is for -/

/-- A string starts at a pointer. -/
def Begins (start text : Bytes) : Prop := ∃ rest, start = text ++ 0 :: rest

/-- A node has an attribute `match_attr` that is this string. -/
def HasMatchAttr (node : DeviceResourceNode) (attrValue : Bytes) : Prop :=
  ∃ attr ∈ node.attrData, Begins attr.name hcsMatchAttr ∧
    hcsGetPrefix byteAlign attr.value = some configString ∧
    Begins (attr.value.drop (hcsPrefixLength byteAlign)) attrValue

/-- The first position of a list whose node has a property, or none of them. -/
def IsFirst (tree : ConfigTree) (holds : DeviceResourceNode → Prop) (positions : List NodePtr) :
    Option NodePtr → Prop
  | none => ∀ q ∈ positions, ∀ node, nodeAt tree q = some node → ¬ holds node
  | some q => ∃ before behind, positions = before ++ q :: behind ∧
      (∃ node, nodeAt tree q = some node ∧ holds node) ∧
      ∀ r ∈ before, ∀ node, nodeAt tree r = some node → ¬ holds node

/-- The search from a node finds the first node of its subtree that has the attribute, or no node
when there is none. -/
def FindsFirstMatch (tree : ConfigTree) (node : Option NodePtr) (subtree : ConfigTree)
    (attrValue : Bytes) : Prop :=
  ∃ found, hcsGetNodeByMatchAttr byteAlign tree node attrValue = some found ∧
    IsFirst tree (HasMatchAttr byteAlign · attrValue) (subtree.preorder (node.getD [])) found

/-! ### What the search goes by -/

/-- A pointer and a text differ within the bytes that are there. -/
inductive Differs : Bytes → Bytes → Prop
  | longer {c : UInt8} {start : Bytes} (more : c ≠ 0) : Differs (c :: start) []
  | here {c d : UInt8} {start text : Bytes} (other : c ≠ d) : Differs (c :: start) (d :: text)
  | later {c : UInt8} {start text : Bytes} (there : Differs start text) :
    Differs (c :: start) (c :: text)

/-- The bytes of an attribute spell something else, or it has another name. -/
def Passed (attrValue : Bytes) (attr : DeviceResourceAttr) : Prop :=
  Differs (attr.value.drop (hcsPrefixLength byteAlign)) attrValue ∨
    Begins (attr.value.drop (hcsPrefixLength byteAlign)) attrValue ∧ Differs attr.name hcsMatchAttr

/-- The bytes of no attribute spell the text under the reserved name. -/
def Plain (attrValue : Bytes) (node : DeviceResourceNode) : Prop :=
  ∀ attr ∈ node.attrData, Passed byteAlign attrValue attr

/-- The bytes of an attribute spell the text under the reserved name, whatever its type. -/
def LooksLike (attrValue : Bytes) (node : DeviceResourceNode) : Prop :=
  ∃ before attr behind, node.attrData = before ++ attr :: behind ∧
    (∀ other ∈ before, Passed byteAlign attrValue other) ∧
    Begins (attr.value.drop (hcsPrefixLength byteAlign)) attrValue ∧ Begins attr.name hcsMatchAttr

def PlainAt (tree : ConfigTree) (attrValue : Bytes) (p : NodePtr) : Prop :=
  ∃ node, nodeAt tree p = some node ∧ Plain byteAlign attrValue node

/-- From a node on, all nodes up to the first one that looks like the match are plain, and that one
is in the subtree and has the attribute. Or all nodes from there on are plain, in the subtree and to
the right of it. -/
def Unambiguous (tree : ConfigTree) (p : NodePtr) (subtree : ConfigTree) (attrValue : Bytes) :
    Prop :=
  (∃ before q behind node, subtree.preorder p = before ++ q :: behind ∧
    (∀ r ∈ before, PlainAt byteAlign tree attrValue r) ∧
    nodeAt tree q = some node ∧ LooksLike byteAlign attrValue node ∧
    HasMatchAttr byteAlign node attrValue) ∨
  ∀ r ∈ subtree.preorder p ++ tree.after p, PlainAt byteAlign tree attrValue r

end

section

variable {byteAlign : Bool} {tree : ConfigTree} {attrValue : Bytes}

/-! ### One node -/

theorem strcmpEq_eq_some_iff {start text : Bytes} {same : Bool} :
    strcmpEq start text = some same ↔ if same then Begins start text else Differs start text := by
  induction start generalizing text with
  | nil =>
    refine iff_of_false (by simp [strcmpEq]) ?_
    cases same with
    | true => exact fun ⟨rest, eq⟩ => by cases text <;> cases eq
    | false => exact fun differs => by cases differs
  | cons c start ih =>
    cases text with
    | nil =>
      rw [strcmpEq, Option.some.injEq]
      cases same with
      | true =>
        rw [beq_iff_eq, if_pos rfl]
        constructor
        · rintro rfl
          exact ⟨start, rfl⟩
        · rintro ⟨rest, eq⟩
          exact (List.cons.inj eq).1
      | false =>
        rw [beq_eq_false_iff_ne, if_neg Bool.false_ne_true]
        exact ⟨.longer, fun | .longer more => more⟩
    | cons d text =>
      rw [strcmpEq]
      by_cases eq : c = d
      · subst eq
        rw [if_pos rfl, ih]
        cases same with
        | true => simp [Begins]
        | false =>
          exact ⟨.later, fun | .here other => absurd rfl other | .later there => there⟩
      · rw [if_neg eq, Option.some.injEq]
        cases same with
        | true =>
          refine iff_of_false (by simp) fun ⟨rest, same⟩ => eq (List.cons.inj same).1
        | false => exact iff_of_true rfl (.here eq)

theorem strcmpEq_eq_true_iff {start text : Bytes} :
    strcmpEq start text = some true ↔ Begins start text :=
  strcmpEq_eq_some_iff.trans (by rw [if_pos rfl])

theorem strcmpEq_eq_false_iff {start text : Bytes} :
    strcmpEq start text = some false ↔ Differs start text :=
  strcmpEq_eq_some_iff.trans (by rw [if_neg Bool.false_ne_true])

theorem attrHolds_eq_true_iff {attr : DeviceResourceAttr} :
    attrHolds byteAlign attr attrValue = some true ↔
      Begins (attr.value.drop (hcsPrefixLength byteAlign)) attrValue ∧
        Begins attr.name hcsMatchAttr := by
  rw [attrHolds, Option.bind_eq_some_iff, ← strcmpEq_eq_true_iff, ← strcmpEq_eq_true_iff]
  constructor
  · rintro ⟨same, equal, holds⟩
    cases same with
    | true => exact ⟨equal, holds⟩
    | false => cases holds
  · rintro ⟨equal, named⟩
    exact ⟨true, equal, named⟩

theorem attrHolds_eq_false_iff {attr : DeviceResourceAttr} :
    attrHolds byteAlign attr attrValue = some false ↔ Passed byteAlign attrValue attr := by
  rw [attrHolds, Option.bind_eq_some_iff, Passed, ← strcmpEq_eq_true_iff, ← strcmpEq_eq_false_iff,
    ← strcmpEq_eq_false_iff]
  constructor
  · rintro ⟨same, equal, holds⟩
    cases same with
    | true => exact .inr ⟨equal, holds⟩
    | false => exact .inl equal
  · rintro (different | ⟨equal, named⟩)
    · exact ⟨false, different, rfl⟩
    · exact ⟨true, equal, named⟩

theorem attrLoop_eq_none_iff {attrs : List DeviceResourceAttr} :
    attrLoop byteAlign attrValue attrs = some none ↔
      ∀ attr ∈ attrs, Passed byteAlign attrValue attr := by
  induction attrs with
  | nil => simp [attrLoop]
  | cons attr attrs ih =>
    rw [attrLoop, List.forall_mem_cons, ← attrHolds_eq_false_iff, ← ih, Option.bind_eq_some_iff]
    constructor
    · rintro ⟨holds, test, rest⟩
      cases holds with
      | true => cases rest
      | false => exact ⟨test, rest⟩
    · rintro ⟨test, rest⟩
      exact ⟨false, test, rest⟩

theorem attrLoop_isSome_iff {attrs : List DeviceResourceAttr} :
    (∃ attr, attrLoop byteAlign attrValue attrs = some (some attr)) ↔
      ∃ before attr behind, attrs = before ++ attr :: behind ∧
        (∀ other ∈ before, Passed byteAlign attrValue other) ∧
        Begins (attr.value.drop (hcsPrefixLength byteAlign)) attrValue ∧
          Begins attr.name hcsMatchAttr := by
  induction attrs with
  | nil => simp [attrLoop]
  | cons first attrs ih =>
    rw [attrLoop]
    constructor
    · rintro ⟨attr, found⟩
      obtain ⟨holds, test, rest⟩ := Option.bind_eq_some_iff.mp found
      cases holds with
      | true => exact ⟨[], first, attrs, rfl, by simp, attrHolds_eq_true_iff.mp test⟩
      | false =>
        obtain ⟨before, attr, behind, rfl, passed, matched⟩ := ih.mp ⟨attr, rest⟩
        exact ⟨first :: before, attr, behind, rfl,
          List.forall_mem_cons.mpr ⟨attrHolds_eq_false_iff.mp test, passed⟩, matched⟩
    · rintro ⟨before, attr, behind, split, passed, matched⟩
      cases before with
      | nil =>
        obtain ⟨rfl, rfl⟩ := List.cons.inj split
        exact ⟨first, by rw [attrHolds_eq_true_iff.mpr matched]; rfl⟩
      | cons other before =>
        obtain ⟨rfl, rfl⟩ := List.cons.inj split
        obtain ⟨here, later⟩ := List.forall_mem_cons.mp passed
        obtain ⟨found, rest⟩ := ih.mpr ⟨before, attr, behind, rfl, later, matched⟩
        exact ⟨found, by rw [attrHolds_eq_false_iff.mpr here]; exact rest⟩

theorem Differs.not_begins {start text : Bytes} (differs : Differs start text) :
    ¬ Begins start text := by
  rw [← strcmpEq_eq_true_iff, strcmpEq_eq_false_iff.mpr differs]
  simp

theorem Plain.not_hasMatchAttr {node : DeviceResourceNode}
    (plain : Plain byteAlign attrValue node) :
    ¬ HasMatchAttr byteAlign node attrValue := by
  rintro ⟨attr, member, named, -, value⟩
  obtain differs | ⟨-, differs⟩ := plain attr member
  · exact differs.not_begins value
  · exact differs.not_begins named

/-! ### The walk -/

/-- The search in a list of positions. -/
def scan (byteAlign : Bool) (tree : ConfigTree) (attrValue : Bytes) :
    List NodePtr → Option (Option NodePtr)
  | [] => some none
  | p :: rest =>
    (nodeAt tree p).bind fun node =>
      (getAttrValueInNode byteAlign node attrValue).bind fun attr =>
        if attr.isSome then some (some p) else scan byteAlign tree attrValue rest

/-- The search goes through the positions that the walk comes through. -/
theorem matchLoop_eq_scan {p : Option NodePtr} {positions : List NodePtr}
    (visits : tree.Visits p positions) {rounds : ℕ} (enough : positions.length < rounds) :
    matchLoop byteAlign tree attrValue rounds p = scan byteAlign tree attrValue positions := by
  induction visits generalizing rounds with
  | stop =>
    obtain ⟨rounds, rfl⟩ := Nat.exists_eq_add_one.mpr (Nat.zero_lt_of_lt enough)
    rfl
  | @visit p rest next ih =>
    obtain ⟨rounds, rfl⟩ := Nat.exists_eq_add_one.mpr (Nat.zero_lt_of_lt enough)
    rw [matchLoop, scan, ← ih (Nat.lt_of_succ_lt_succ enough)]
    rfl

theorem scan_cons {p : NodePtr} {positions : List NodePtr}
    (plain : PlainAt byteAlign tree attrValue p) :
    scan byteAlign tree attrValue (p :: positions) = scan byteAlign tree attrValue positions := by
  obtain ⟨node, here, plain⟩ := plain
  rw [scan, here, Option.bind_some, getAttrValueInNode, attrLoop_eq_none_iff.mpr plain]
  rfl

/-- All nodes are plain that the search passes. -/
theorem scan_eq_none_iff {positions : List NodePtr} :
    scan byteAlign tree attrValue positions = some none ↔
      ∀ p ∈ positions, PlainAt byteAlign tree attrValue p := by
  induction positions with
  | nil => simp [scan]
  | cons p positions ih =>
    rw [List.forall_mem_cons, ← ih]
    constructor
    · intro passed
      obtain ⟨node, here, rest⟩ := Option.bind_eq_some_iff.mp passed
      obtain ⟨attr, found, rest⟩ := Option.bind_eq_some_iff.mp rest
      cases attr with
      | none => exact ⟨⟨node, here, attrLoop_eq_none_iff.mp found⟩, rest⟩
      | some attr => cases rest
    · rintro ⟨plain, rest⟩
      rw [scan_cons plain, rest]

/-- The search stops at the first node that looks like the match. -/
theorem scan_eq_some_iff {positions : List NodePtr} {q : NodePtr} :
    scan byteAlign tree attrValue positions = some (some q) ↔
      ∃ before behind node, positions = before ++ q :: behind ∧
        (∀ r ∈ before, PlainAt byteAlign tree attrValue r) ∧
        nodeAt tree q = some node ∧ LooksLike byteAlign attrValue node := by
  induction positions with
  | nil => simp [scan]
  | cons p positions ih =>
    constructor
    · intro stopped
      obtain ⟨node, here, rest⟩ := Option.bind_eq_some_iff.mp stopped
      obtain ⟨attr, found, rest⟩ := Option.bind_eq_some_iff.mp rest
      cases attr with
      | none =>
        obtain ⟨before, behind, node', rfl, plain, there, looks⟩ := ih.mp rest
        exact ⟨p :: before, behind, node', rfl,
          List.forall_mem_cons.mpr ⟨⟨node, here, attrLoop_eq_none_iff.mp found⟩, plain⟩,
            there, looks⟩
      | some attr =>
        obtain rfl := Option.some.inj (Option.some.inj rest)
        exact ⟨[], positions, node, rfl, by simp, here, attrLoop_isSome_iff.mp ⟨attr, found⟩⟩
    · rintro ⟨before, behind, node, split, plain, there, looks⟩
      cases before with
      | nil =>
        obtain ⟨rfl, rfl⟩ := List.cons.inj split
        obtain ⟨attr, found⟩ := attrLoop_isSome_iff.mpr looks
        rw [scan, there, Option.bind_some, getAttrValueInNode, found]
        rfl
      | cons r before =>
        obtain ⟨rfl, rfl⟩ := List.cons.inj split
        obtain ⟨here, later⟩ := List.forall_mem_cons.mp plain
        rw [scan_cons here]
        exact ih.mpr ⟨before, behind, node, rfl, later, there, looks⟩

theorem PlainAt.not_hasMatchAttr {p : NodePtr} (plain : PlainAt byteAlign tree attrValue p)
    (node : DeviceResourceNode) (here : nodeAt tree p = some node) :
    ¬ HasMatchAttr byteAlign node attrValue := by
  obtain ⟨node', here', plain⟩ := plain
  obtain rfl := Option.some.inj (here'.symm.trans here)
  exact plain.not_hasMatchAttr

/-- The search from a node goes through its subtree and what is to the right of it. -/
theorem hcsGetNodeByMatchAttr_eq_scan {node : Option NodePtr} {subtree : ConfigTree}
    (there : tree.get? (node.getD []) = some subtree) :
    hcsGetNodeByMatchAttr byteAlign tree node attrValue =
      scan byteAlign tree attrValue
        (subtree.preorder (node.getD []) ++ tree.after (node.getD [])) :=
  matchLoop_eq_scan (Tree.visits_preorder_append_after there)
    (Nat.lt_succ_of_le (Tree.length_preorder_append_after_le there))

/-- The search from a node finds the first node of its subtree with the attribute if and only if
no other node that it comes through looks like it. -/
theorem findsFirstMatch_iff (byteAlign : Bool) (tree : ConfigTree) (node : Option NodePtr)
    (subtree : ConfigTree) (attrValue : Bytes)
    (there : tree.get? (node.getD []) = some subtree) :
    FindsFirstMatch byteAlign tree node subtree attrValue ↔
      Unambiguous byteAlign tree (node.getD []) subtree attrValue := by
  rw [FindsFirstMatch, hcsGetNodeByMatchAttr_eq_scan there]
  constructor
  · rintro ⟨found, scanned, first⟩
    cases found with
    | none => exact .inr (scan_eq_none_iff.mp scanned)
    | some q =>
      obtain ⟨before, behind, node', split, plain, here, looks⟩ := scan_eq_some_iff.mp scanned
      obtain ⟨before', behind', split', ⟨node'', here', match_⟩, none⟩ := first
      obtain rfl := Option.some.inj (here.symm.trans here')
      rw [split', List.append_assoc, List.cons_append] at split
      refine .inl ⟨before', q, behind', node', split', ?_, here, looks, match_⟩
      -- `q` is not among the plain nodes before its place in the walk
      obtain ⟨more, rfl, -⟩ | ⟨more, rfl, tail⟩ := List.append_eq_append_iff.mp split
      · exact fun r member => plain r (List.mem_append_left more member)
      · cases more with
        | nil => simpa using plain
        | cons r more =>
          obtain ⟨rfl, -⟩ := List.cons.inj tail
          exact absurd match_ (none q (by simp) node' here)
  · rintro (⟨before, q, behind, node', split, plain, here, looks, match_⟩ | plain)
    · refine ⟨some q, scan_eq_some_iff.mpr ⟨before, behind ++ tree.after (node.getD []), node', ?_,
        plain, here, looks⟩, before, behind, split, ⟨node', here, match_⟩, fun r member other =>
          (plain r member).not_hasMatchAttr other⟩
      rw [split, List.append_assoc, List.cons_append]
    · exact ⟨none, scan_eq_none_iff.mpr plain, fun q member other =>
        (plain q (List.mem_append_left _ member)).not_hasMatchAttr other⟩

/-! ### Examples -/

/-- An attribute `match_attr` with a string of one letter. -/
def matchAttr (letter : UInt8) : DeviceResourceAttr where
  name := hcsMatchAttr ++ [0]
  value := [0x14, letter, 0]

/-- A root with two children that have different strings. -/
def twoChildren : ConfigTree :=
  .node ⟨[], 20, []⟩ [.node ⟨[], 26, [matchAttr 97]⟩ [], .node ⟨[], 60, [matchAttr 98]⟩ []]

theorem findsFirstMatch_iff_twoChildren :
    FindsFirstMatch false twoChildren none twoChildren [98] ↔
      Unambiguous false twoChildren [] twoChildren [98] :=
  findsFirstMatch_iff false twoChildren none twoChildren [98] rfl

/-- The search for the second string below the first child leaves that child. -/
theorem twoChildren_not_findsFirstMatch : ∃ child, twoChildren.get? [0] = some child ∧
    ¬ FindsFirstMatch false twoChildren (some [0]) child [98] := by
  refine ⟨_, rfl, ?_⟩
  rintro ⟨found, searched, first⟩
  have left : hcsGetNodeByMatchAttr false twoChildren (some [0]) [98] = some (some [1]) := by
    decide +kernel
  obtain rfl := Option.some.inj (left.symm.trans searched)
  obtain ⟨before, behind, split, -⟩ := first
  have member : [1] ∈ before ++ [1] :: behind := by simp
  rw [← split] at member
  simp [Tree.preorder, Tree.preorderList] at member

end

end Hdf.HcsParser
