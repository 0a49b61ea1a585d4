import Hdf.HcsParser.Inside
import Mathlib.Logic.Function.Basic

/-!
# Building the configuration tree in a block of memory

The second pass carves the records of nodes and attributes out of a block of
zeroed memory, one behind the other, and links them by their addresses in it. It
never compares an address with the size of the block, which is what the first pass
has counted. Here a record beyond the block, and a link to anything but a record,
is a fault.

## Main definitions

* `Block`, `Cell`: the block and the records in it
* `generateCfgTreeIn`: the second pass
* `Carved`: all records are inside the block, apart, and linked to records

## Main results

* `generateCfgTreeIn_withinBlock_iff`: when a block of the size that the first pass counts is enough
-/

namespace Hdf.HcsParser

/-- `struct DeviceResourceNode`, with addresses in the block for links. -/
structure NodeRecord where
  name : Bytes
  hashValue : UInt32
  attrData : Option ℕ
  parent : Option ℕ
  child : Option ℕ
  sibling : Option ℕ
  deriving DecidableEq, Repr

/-- `struct DeviceResourceAttr`. -/
structure AttrRecord where
  name : Bytes
  value : Bytes
  next : Option ℕ
  deriving DecidableEq, Repr

inductive Cell where
  | node (record : NodeRecord)
  | attr (record : AttrRecord)
  deriving DecidableEq, Repr

def Cell.size : Cell → ℕ
  | node _ => nodeSize
  | attr _ => attrSize

/-- The block with the records that have been carved out of it, and the address that `treeMem` has
come to. -/
structure Block where
  size : ℕ
  treeMem : ℕ
  cells : ℕ → Option Cell

/-- Reading beyond the blob, accessing memory that is no record of the block, or not returning. -/
inductive Fault where
  | blob
  | memory
  | endless
  deriving DecidableEq, Repr

def orFault {α : Type} (fault : Fault) : Option α → Except Fault α
  | none => .error fault
  | some a => .ok a

theorem ok_bind {α β : Type} (a : α) (f : α → Except Fault β) : (Except.ok a >>= f) = f a := rfl

/-- A record is carved out of the block. -/
def Block.carve (b : Block) (cell : Cell) : Except Fault Block :=
  if b.treeMem + cell.size ≤ b.size then
    .ok { b with
      treeMem := b.treeMem + cell.size
      cells := Function.update b.cells b.treeMem (some cell) }
  else .error .memory

/-- The node at an address. -/
def Block.node (b : Block) (a : ℕ) : Except Fault NodeRecord :=
  match b.cells a with
  | some (.node record) => .ok record
  | _ => .error .memory

def Block.setNode (b : Block) (a : ℕ) (record : NodeRecord) : Block :=
  { b with cells := Function.update b.cells a (some (.node record)) }

/-- The last node in a list of siblings. -/
def lastSibling (b : Block) : ℕ → ℕ → Except Fault ℕ
  | 0, _ => .error .endless
  | rounds + 1, curNode => do
    let node ← b.node curNode
    match node.sibling with
    | none => .ok curNode
    | some sibling => lastSibling b rounds sibling

/-- An entry of the stack: the end of a node, and its address. -/
structure OpenNode where
  offset : UInt32
  node : ℕ
  deriving DecidableEq, Repr

/-- `GetParentNode`. -/
def getParentIn (offset : ℕ) (treeStack : List OpenNode) (configOffset : ℕ) :
    Option ℕ × List OpenNode :=
  match treeStack.dropWhile fun e => e.offset < .ofNat (configOffset + offset) with
  | [] => (none, treeStack)
  | e :: below => (some e.node, e :: below)

/-- The node becomes the last child of its parent. -/
def linkChild (b : Block) (parentNode newNode : ℕ) : Except Fault Block := do
  let parent ← b.node parentNode
  match parent.child with
  | none => .ok (b.setNode parentNode { parent with child := some newNode })
  | some child =>
    let curNode ← lastSibling b (b.treeMem + 1) child
    let last ← b.node curNode
    .ok (b.setNode curNode { last with sibling := some newNode })

section

variable (byteAlign : Bool)

/-- The fields of a new node that are not written are zero. -/
def newRecord (start : Bytes) (offset : ℕ) (parentNode : Option ℕ) : NodeRecord where
  name := start.drop (offset + hcsPrefixLength byteAlign)
  hashValue := .ofNat offset + .ofNat hbcHeaderLength
  attrData := none
  parent := parentNode
  child := none
  sibling := none

/-- `CreateTreeNode`: the address of the new node. -/
def createTreeNodeIn (start : Bytes) (offset : ℕ) (parentNode : Option ℕ) (b : Block) :
    Except Fault (ℕ × Block) := do
  let newNode := b.treeMem
  let b ← b.carve (.node (newRecord byteAlign start offset parentNode))
  match parentNode with
  | none => .ok (newNode, b)
  | some parent => (linkChild b parent newNode).map fun b => (newNode, b)

/-- `AddAttrInNode`, whose failure is no block. -/
def addAttrInNodeIn (start : Bytes) (parentNode : Option ℕ) (b : Block) :
    Except Fault (Option Block) :=
  match parentNode with
  | none => .ok none
  | some parentNode => do
    let name := start.drop (hcsPrefixLength byteAlign)
    let nameLength ← orFault .blob (hcsStringLength byteAlign name)
    let newAttr := b.treeMem
    let parent ← b.node parentNode
    let b ← b.carve (.attr
      { name := name
        value := start.drop (hcsPrefixLength byteAlign + nameLength)
        next := parent.attrData })
    .ok (some (b.setNode parentNode { parent with attrData := some newAttr }))

/-- The block, and the stack of the open nodes from the layer down to 1. -/
structure Build where
  block : Block
  treeStack : List OpenNode

/-- `ParseByteCode` with a block. -/
def parseByteCodeIn (treeStart : Bytes) (offset : ℕ) (build : Build) :
    Except Fault (ℤ × Build) := do
  let record := treeStart.drop offset
  let termOffset ← orFault .blob (hcsGetNodeOrAttrLength byteAlign record)
  if termOffset ≤ 0 then .ok (hdfFailure, build)
  else
    let opCode ← orFault .blob (hcsGetPrefix byteAlign record)
    if opCode = configNode then
      let parent := getParentIn offset build.treeStack termOffset.toNat
      let (newNode, block) ← createTreeNodeIn byteAlign treeStart offset parent.1 build.block
      let nameLength ← orFault .blob
        (hcsStringLength byteAlign (record.drop (hcsPrefixLength byteAlign)))
      let size ← orFault .blob
        (hcsByteCodeToUint32 (record.drop (nameLength + hcsPrefixLength byteAlign)))
      if parent.2.length ≥ treeStackMax - 1 then .ok (hdfFailure, ⟨block, parent.2⟩)
      else .ok (termOffset,
        ⟨block, ⟨size + .ofNat (offset + termOffset.toNat), newNode⟩ :: parent.2⟩)
    else if opCode = configAttr then
      let parent := getParentIn offset build.treeStack termOffset.toNat
      match ← addAttrInNodeIn byteAlign record parent.1 build.block with
      | none => .ok (hdfFailure, ⟨build.block, parent.2⟩)
      | some block => .ok (termOffset, ⟨block, parent.2⟩)
    else .ok (hdfFailure, build)

/-- The loop of `GenerateCfgTree`. -/
def generateLoopIn (treeStart : Bytes) (length : ℤ) : ℕ → ℕ → Build → Except Fault (ℤ × Build)
  | 0, _, _ => .error .endless
  | rounds + 1, offset, build =>
    if offset < length then do
      let r ← parseByteCodeIn byteAlign treeStart offset build
      if r.1 ≤ 0 then .ok r else generateLoopIn treeStart length rounds (offset + r.1.toNat) r.2
    else .ok (build.treeStack.length, build)

/-- `GenerateCfgTree` with a block of zeroed memory. -/
def generateCfgTreeIn (treeStart : Bytes) (length : ℤ) (size : ℕ) : Except Fault (ℤ × Build) :=
  generateLoopIn byteAlign treeStart length (length.toNat + 1) 0
    ⟨{ size := size, treeMem := 0, cells := fun _ => none }, []⟩

end

/-! ### What is carved -/

def Block.IsNode (b : Block) (a : ℕ) : Prop := ∃ record, b.cells a = some (.node record)

def Block.IsAttr (b : Block) (a : ℕ) : Prop := ∃ record, b.cells a = some (.attr record)

/-- The links of a record lead to records in the block. -/
def Cell.Linked (b : Block) : Cell → Prop
  | node record => (∀ a, record.parent = some a → b.IsNode a) ∧
      (∀ a, record.child = some a → b.IsNode a) ∧
      (∀ a, record.sibling = some a → b.IsNode a) ∧ ∀ a, record.attrData = some a → b.IsAttr a
  | attr record => ∀ a, record.next = some a → b.IsAttr a

/-- The records are inside the block, before `treeMem`, and apart, and linked to each other only. -/
structure Block.Carved (b : Block) : Prop where
  fits : b.treeMem ≤ b.size
  inside : ∀ a cell, b.cells a = some cell → a + cell.size ≤ b.treeMem
  apart : ∀ a a' cell, b.cells a = some cell → (b.cells a').isSome → a < a' → a + cell.size ≤ a'
  linked : ∀ a cell, b.cells a = some cell → cell.Linked b

/-- A pass stays within a block of some size, unless it reads beyond the blob before. When it
returns, all open nodes are records. -/
def WithinBlock (size : ℕ) : Except Fault (ℤ × Build) → Prop
  | .error fault => fault = .blob
  | .ok (_, build) => build.block.size = size ∧ build.block.Carved ∧
      ∀ e ∈ build.treeStack, build.block.IsNode e.node

section

variable {b b' : Block} {a a' top : ℕ} {cell : Cell} {record : NodeRecord}

theorem Cell.size_pos (cell : Cell) : 0 < cell.size := by
  cases cell with
  | node record => exact show 0 < nodeSize by decide
  | attr record => exact show 0 < attrSize by decide

/-- Every record of a block is a record of the same kind in another one. -/
def Extends (b b' : Block) : Prop := (∀ a, b.IsNode a → b'.IsNode a) ∧ ∀ a, b.IsAttr a → b'.IsAttr a

theorem Extends.trans {b'' : Block} (first : Extends b b') (second : Extends b' b'') :
    Extends b b'' :=
  ⟨fun a node => second.1 a (first.1 a node), fun a attr => second.2 a (first.2 a attr)⟩

theorem Cell.Linked.mono (linked : cell.Linked b) (more : Extends b b') : cell.Linked b' := by
  cases cell with
  | node record =>
    obtain ⟨parent, child, sibling, attrData⟩ := linked
    exact ⟨fun a link => more.1 a (parent a link), fun a link => more.1 a (child a link),
      fun a link => more.1 a (sibling a link), fun a link => more.2 a (attrData a link)⟩
  | attr record => exact fun a link => more.2 a (linked a link)

theorem Block.Carved.lt_of_isSome (carved : b.Carved) (here : (b.cells a).isSome) :
    a < b.treeMem := by
  obtain ⟨cell, found⟩ := Option.isSome_iff_exists.mp here
  have inside := carved.inside a cell found
  have some := cell.size_pos
  omega

theorem Block.IsNode.isSome (node : b.IsNode a) : (b.cells a).isSome := by
  obtain ⟨record, found⟩ := node
  rw [found]
  rfl

theorem Block.Carved.lt_of_isNode (carved : b.Carved) (node : b.IsNode a) : a < b.treeMem :=
  carved.lt_of_isSome node.isSome

/-- A sibling is carved later than a node. -/
def Block.Ordered (b : Block) : Prop :=
  ∀ a record s, b.cells a = some (.node record) → record.sibling = some s → a < s

/-! ### Carving -/

/-- The block with one more record. -/
def Block.carved (b : Block) (cell : Cell) : Block :=
  { b with
    treeMem := b.treeMem + cell.size
    cells := Function.update b.cells b.treeMem (some cell) }

theorem carve_eq (room : b.treeMem + cell.size ≤ b.size) : b.carve cell = .ok (b.carved cell) :=
  if_pos room

theorem carved_cells_of_lt (before : a < b.treeMem) : (b.carved cell).cells a = b.cells a :=
  Function.update_of_ne before.ne _ _

theorem carved_cells_self : (b.carved cell).cells b.treeMem = some cell :=
  Function.update_self _ _ _

theorem extends_carved (carved : b.Carved) : Extends b (b.carved cell) := by
  constructor
  · rintro a ⟨record, found⟩
    have before := carved.lt_of_isSome (a := a) (by rw [found]; rfl)
    exact ⟨record, (carved_cells_of_lt before).trans found⟩
  · rintro a ⟨record, found⟩
    have before := carved.lt_of_isSome (a := a) (by rw [found]; rfl)
    exact ⟨record, (carved_cells_of_lt before).trans found⟩

/-- A record of the larger block is the new one or an old one. -/
theorem carved_cases (carved : b.Carved) {c : Cell} (found : (b.carved cell).cells a = some c) :
    (a = b.treeMem ∧ c = cell) ∨ (a < b.treeMem ∧ b.cells a = some c) := by
  by_cases new : a = b.treeMem
  · subst new
    rw [carved_cells_self, Option.some.injEq] at found
    exact .inl ⟨rfl, found.symm⟩
  · have old : b.cells a = some c := (Function.update_of_ne new _ _).symm.trans found
    exact .inr ⟨carved.lt_of_isSome (by rw [old]; rfl), old⟩

theorem Block.Carved.carve (carved : b.Carved) (room : b.treeMem + cell.size ≤ b.size)
    (linked : cell.Linked b) : (b.carved cell).Carved where
  fits := room
  inside a c found := by
    show a + c.size ≤ b.treeMem + cell.size
    obtain ⟨rfl, rfl⟩ | ⟨-, old⟩ := carved_cases carved found
    · exact le_rfl
    · exact (carved.inside a c old).trans (Nat.le_add_right _ _)
  apart a a' c found there less := by
    obtain ⟨c', found'⟩ := Option.isSome_iff_exists.mp there
    obtain ⟨rfl, -⟩ | ⟨-, old⟩ := carved_cases carved found
    · obtain ⟨rfl, -⟩ | ⟨before, -⟩ := carved_cases carved found'
      · exact absurd less (lt_irrefl _)
      · exact absurd less before.not_gt
    · obtain ⟨rfl, -⟩ | ⟨-, old'⟩ := carved_cases carved found'
      · exact carved.inside a c old
      · exact carved.apart a a' c old (by rw [old']; rfl) less
  linked a c found := by
    obtain ⟨-, rfl⟩ | ⟨-, old⟩ := carved_cases carved found
    · exact linked.mono (extends_carved carved)
    · exact (carved.linked a c old).mono (extends_carved carved)

theorem Block.Ordered.carve (ordered : b.Ordered) (carved : b.Carved)
    (plain : ∀ record, cell = .node record → record.sibling = none) : (b.carved cell).Ordered := by
  intro a record s found sibling
  obtain ⟨-, same⟩ | ⟨-, old⟩ := carved_cases carved found
  · rw [plain record same.symm] at sibling
    cases sibling
  · exact ordered a record s old sibling

/-! ### Writing a node -/

theorem setNode_cells_self : (b.setNode a record).cells a = some (.node record) :=
  Function.update_self _ _ _

theorem setNode_cases {c : Cell} (found : (b.setNode a record).cells a' = some c) :
    (a' = a ∧ c = .node record) ∨ (a' ≠ a ∧ b.cells a' = some c) := by
  by_cases here : a' = a
  · subst here
    rw [setNode_cells_self, Option.some.injEq] at found
    exact .inl ⟨rfl, found.symm⟩
  · exact .inr ⟨here, (Function.update_of_ne here _ _).symm.trans found⟩

theorem extends_setNode (node : b.IsNode a) : Extends b (b.setNode a record) := by
  constructor
  · rintro a' ⟨record', found⟩
    by_cases here : a' = a
    · exact ⟨record, here ▸ setNode_cells_self⟩
    · exact ⟨record', (Function.update_of_ne here _ _).trans found⟩
  · rintro a' ⟨record', found⟩
    have other : a' ≠ a := by
      rintro rfl
      obtain ⟨record'', found'⟩ := node
      cases found.symm.trans found'
    exact ⟨record', (Function.update_of_ne other _ _).trans found⟩

theorem Block.Carved.setNode (carved : b.Carved) (node : b.IsNode a)
    (linked : (Cell.node record).Linked b) : (b.setNode a record).Carved where
  fits := carved.fits
  inside a' c found := by
    obtain ⟨rfl, rfl⟩ | ⟨-, old⟩ := setNode_cases found
    · obtain ⟨record', found'⟩ := node
      exact carved.inside a' (.node record') found'
    · exact carved.inside a' c old
  apart a' a'' c found there less := by
    have there' : (b.cells a'').isSome := by
      obtain ⟨c', found'⟩ := Option.isSome_iff_exists.mp there
      obtain ⟨rfl, -⟩ | ⟨-, old⟩ := setNode_cases found'
      · exact node.isSome
      · rw [old]; rfl
    obtain ⟨rfl, rfl⟩ | ⟨-, old⟩ := setNode_cases found
    · obtain ⟨record', found'⟩ := node
      exact carved.apart a' a'' (.node record') found' there' less
    · exact carved.apart a' a'' c old there' less
  linked a' c found := by
    obtain ⟨-, rfl⟩ | ⟨-, old⟩ := setNode_cases found
    · exact linked.mono (extends_setNode node)
    · exact (carved.linked a' c old).mono (extends_setNode node)

theorem Block.Ordered.setNode (ordered : b.Ordered)
    (later : ∀ s, record.sibling = some s → a < s) : (b.setNode a record).Ordered := by
  intro a' record' s found sibling
  obtain ⟨rfl, same⟩ | ⟨-, old⟩ := setNode_cases found
  · obtain rfl := Cell.node.inj same
    exact later s sibling
  · exact ordered a' record' s old sibling

/-! ### The list of siblings -/

theorem node_eq (found : b.cells a = some (.node record)) : b.node a = .ok record := by
  rw [Block.node, found]

/-- The walk along siblings that lead on below an address ends, as they lead upwards. -/
theorem lastSibling_spec (rounds : ℕ)
    (closed : ∀ a record s, a < top → b.cells a = some (.node record) →
      record.sibling = some s → a < s ∧ s < top ∧ b.IsNode s)
    (before : a < top) (node : b.IsNode a) (enough : top - a ≤ rounds) :
    ∃ last, lastSibling b rounds a = .ok last ∧ last < top ∧ b.IsNode last := by
  induction rounds generalizing a with
  | zero => omega
  | succ rounds ih =>
    obtain ⟨record, found⟩ := node
    rw [lastSibling, node_eq found, ok_bind]
    cases sibling : record.sibling with
    | none => exact ⟨a, rfl, before, record, found⟩
    | some s =>
      obtain ⟨later, inside, next⟩ := closed a record s before found sibling
      exact ih inside next (by omega)

/-- Linking the newest node below an older one keeps all records where they are. -/
theorem linkChild_spec {parentNode : ℕ} (carved : b.Carved) (ordered : b.Ordered)
    (parent : b.IsNode parentNode) {new : NodeRecord} (sibling : new.sibling = none)
    (room : b.treeMem + nodeSize ≤ b.size)
    (linked : (Cell.node new).Linked b) :
    ∃ b', linkChild (b.carved (.node new)) parentNode b.treeMem = .ok b' ∧
      b'.treeMem = b.treeMem + nodeSize ∧ b'.size = b.size ∧ b'.Carved ∧ b'.Ordered ∧
      Extends (b.carved (.node new)) b' := by
  have carved' : (b.carved (.node new)).Carved := carved.carve room linked
  have ordered' : (b.carved (.node new)).Ordered :=
    ordered.carve carved fun record same => Cell.node.inj same ▸ sibling
  have newNode : (b.carved (.node new)).IsNode b.treeMem := ⟨new, carved_cells_self⟩
  have older : parentNode < b.treeMem := carved.lt_of_isNode parent
  obtain ⟨record, found⟩ := parent
  have found' : (b.carved (.node new)).cells parentNode = some (.node record) :=
    (carved_cells_of_lt older).trans found
  have links := carved'.linked parentNode _ found'
  rw [linkChild, node_eq found', ok_bind]
  cases first : record.child with
  | none =>
    refine ⟨_, rfl, rfl, rfl, carved'.setNode ⟨record, found'⟩ ⟨links.1, ?_, links.2.2⟩,
      ordered'.setNode fun s link => ordered' parentNode record s found' link,
      extends_setNode ⟨record, found'⟩⟩
    rintro a' same
    exact Option.some.inj same ▸ newNode
  | some c =>
    have closed a r s (before : a < b.treeMem) (there : (b.carved (.node new)).cells a =
        some (.node r)) (link : r.sibling = some s) :
        a < s ∧ s < b.treeMem ∧ (b.carved (.node new)).IsNode s := by
      have old := (carved_cells_of_lt before).symm.trans there
      have next := (carved.linked a _ old).2.2.1 s link
      exact ⟨ordered a r s old link, carved.lt_of_isNode next, (extends_carved carved).1 s next⟩
    have firstNode := (carved.linked parentNode _ found).2.1 c first
    obtain ⟨last, walked, before, lastRecord, there⟩ := lastSibling_spec
      ((b.carved (.node new)).treeMem + 1) closed (carved.lt_of_isNode firstNode)
      ((extends_carved carved).1 c firstNode)
      (by show b.treeMem - c ≤ b.treeMem + nodeSize + 1; omega)
    have links := carved'.linked last _ there
    simp only [walked, ok_bind, node_eq there]
    refine ⟨_, rfl, rfl, rfl, carved'.setNode ⟨lastRecord, there⟩
      ⟨links.1, links.2.1, ?_, links.2.2.2⟩, ordered'.setNode ?_,
        extends_setNode ⟨lastRecord, there⟩⟩
    · rintro a' same
      exact Option.some.inj same ▸ newNode
    · rintro s same
      exact Option.some.inj same ▸ before

/-! ### Records of the blob -/

/-- What the pass keeps: its records are linked well, and open nodes are records. -/
structure Build.Sound (build : Build) : Prop where
  carved : build.block.Carved
  ordered : build.block.Ordered
  stack : ∀ e ∈ build.treeStack, build.block.IsNode e.node

theorem createTreeNodeIn_spec (byteAlign : Bool) (start : Bytes) (offset : ℕ)
    {parentNode : Option ℕ} (carved : b.Carved) (ordered : b.Ordered)
    (parent : ∀ a, parentNode = some a → b.IsNode a) (room : b.treeMem + nodeSize ≤ b.size) :
    ∃ b', createTreeNodeIn byteAlign start offset parentNode b = .ok (b.treeMem, b') ∧
      b'.treeMem = b.treeMem + nodeSize ∧ b'.size = b.size ∧ b'.Carved ∧ b'.Ordered ∧
      Extends b b' ∧ b'.IsNode b.treeMem := by
  have linked : (Cell.node (newRecord byteAlign start offset parentNode)).Linked b := by
    refine ⟨parent, ?_, ?_, ?_⟩ <;> simp [newRecord]
  rw [createTreeNodeIn, carve_eq room, ok_bind]
  cases parentNode with
  | none =>
    exact ⟨_, rfl, rfl, rfl, carved.carve room linked, ordered.carve carved (by rintro r ⟨⟩; rfl),
      extends_carved carved, _, carved_cells_self⟩
  | some parentNode =>
    obtain ⟨b', same, treeMem, size, carved', ordered', extends'⟩ :=
      linkChild_spec carved ordered (parent parentNode rfl) rfl room linked
    dsimp only
    rw [same]
    exact ⟨b', rfl, treeMem, size, carved', ordered', (extends_carved carved).trans extends',
      extends'.1 _ ⟨_, carved_cells_self⟩⟩

theorem addAttrInNodeIn_spec {byteAlign : Bool} {start : Bytes} {parentNode nameLength : ℕ}
    (carved : b.Carved) (ordered : b.Ordered) (parent : b.IsNode parentNode)
    (room : b.treeMem + attrSize ≤ b.size)
    (name : hcsStringLength byteAlign (start.drop (hcsPrefixLength byteAlign)) = some nameLength) :
    ∃ b', addAttrInNodeIn byteAlign start (some parentNode) b = .ok (some b') ∧
      b'.treeMem = b.treeMem + attrSize ∧ b'.size = b.size ∧ b'.Carved ∧ b'.Ordered ∧
      Extends b b' := by
  obtain ⟨record, found⟩ := parent
  have links := carved.linked parentNode _ found
  let new : AttrRecord :=
    { name := start.drop (hcsPrefixLength byteAlign)
      value := start.drop (hcsPrefixLength byteAlign + nameLength)
      next := record.attrData }
  have more : Extends b (b.carved (.attr new)) := extends_carved carved
  have carved' : (b.carved (.attr new)).Carved := carved.carve room links.2.2.2
  have ordered' : (b.carved (.attr new)).Ordered := ordered.carve carved (by rintro r ⟨⟩)
  have newAttr : (b.carved (.attr new)).IsAttr b.treeMem := ⟨new, carved_cells_self⟩
  have node := more.1 _ ⟨record, found⟩
  rw [addAttrInNodeIn]
  dsimp only
  rw [name, orFault, ok_bind, node_eq found, ok_bind, carve_eq room, ok_bind]
  refine ⟨_, rfl, rfl, rfl, carved'.setNode node ?_, ordered'.setNode ?_,
    more.trans (extends_setNode node)⟩
  · refine ⟨fun a link => more.1 a (links.1 a link), fun a link => more.1 a (links.2.1 a link),
      fun a link => more.1 a (links.2.2.1 a link), fun a link => ?_⟩
    exact Option.some.inj link ▸ newAttr
  · exact fun s link => ordered parentNode record s found link

/-- The ends of the open nodes. -/
def Build.ends (build : Build) : List UInt32 := build.treeStack.map OpenNode.offset

/-- A record that has a length misses its size field, ends the second pass, or is built in as much
memory as the first pass counts for it. -/
inductive BuiltIn (byteAlign : Bool) (treeStart : Bytes) (o n : ℕ) (build : Build) :
    Except Fault (ℤ × Build) → Prop
  | cut (stops : ∀ t, ¬ BuildsTo byteAlign treeStart (o, build.ends) t) :
    BuiltIn byteAlign treeStart o n build (.error .blob)
  | stops (last : Build) (sound : last.Sound) (size : last.block.size = build.block.size)
      (stops : ∀ t, ¬ BuildsTo byteAlign treeStart (o, build.ends) t) :
    BuiltIn byteAlign treeStart o n build (.ok (hdfFailure, last))
  | next (build' : Build) (sound : build'.Sound) (size : build'.block.size = build.block.size)
      (carved : build'.block.treeMem =
        build.block.treeMem + recordSize byteAlign (treeStart.drop o))
      (step : BuildsTo byteAlign treeStart (o, build.ends) (o + n, build'.ends)) :
    BuiltIn byteAlign treeStart o n build (.ok ((n : ℤ), build'))

/-- The second pass carves a record at an offset, among open nodes with some ends: always for a
node, and for an attribute in an open node. -/
def Creates (byteAlign : Bool) (treeStart : Bytes) (o : ℕ) (ends : List UInt32) : Prop :=
  hcsGetPrefix byteAlign (treeStart.drop o) = some configNode ∨
    ∃ n, Record byteAlign (treeStart.drop o) (some n) ∧ around ends (o + n) ≠ []

variable {byteAlign : Bool} {treeStart : Bytes} {o n : ℕ} {build : Build}

theorem map_getParentIn (treeStack : List OpenNode) :
    (getParentIn o treeStack n).2.map OpenNode.offset =
      stillOpen (treeStack.map OpenNode.offset) (o + n) := by
  rw [getParentIn, stillOpen, around, List.dropWhile_map, Nat.add_comm o n]
  simp only [Function.comp_def]
  cases treeStack.dropWhile fun e => e.offset < .ofNat (n + o) with
  | nil | cons e below => rfl

theorem getParentIn_eq_none_iff (treeStack : List OpenNode) :
    (getParentIn o treeStack n).1 = none ↔
      around (treeStack.map OpenNode.offset) (o + n) = [] := by
  rw [getParentIn, around, List.dropWhile_map, Nat.add_comm o n, List.map_eq_nil_iff]
  simp only [Function.comp_def]
  cases treeStack.dropWhile fun e => e.offset < .ofNat (n + o) with
  | nil => exact iff_of_true rfl rfl
  | cons e below => exact iff_of_false (Option.some_ne_none _) (List.cons_ne_nil _ _)

/-- The parent and the nodes that stay open are among the open nodes. -/
theorem mem_of_getParentIn (treeStack : List OpenNode) :
    (∀ e ∈ (getParentIn o treeStack n).2, e ∈ treeStack) ∧
      ∀ a, (getParentIn o treeStack n).1 = some a → ∃ e ∈ treeStack, e.node = a := by
  rw [getParentIn]
  have part : treeStack.dropWhile (fun e => e.offset < .ofNat (n + o)) ⊆ treeStack :=
    (List.dropWhile_sublist _).subset
  cases kept : treeStack.dropWhile fun e => e.offset < .ofNat (n + o) with
  | nil => exact ⟨fun e member => member, fun a none => by cases none⟩
  | cons e below =>
    rw [kept] at part
    refine ⟨part, fun a same => ⟨e, part List.mem_cons_self, Option.some.inj same⟩⟩

theorem length_getParentIn :
    (getParentIn o build.treeStack n).2.length = (stillOpen build.ends (o + n)).length := by
  rw [Build.ends, ← map_getParentIn, List.length_map]

theorem isNode_getParentIn {a : ℕ} (sound : build.Sound)
    (parent : (getParentIn o build.treeStack n).1 = some a) : build.block.IsNode a := by
  obtain ⟨e, member, rfl⟩ := (mem_of_getParentIn build.treeStack).2 a parent
  exact sound.stack e member

theorem stack_getParentIn (sound : build.Sound)
    (nodes : ∀ a, build.block.IsNode a → b.IsNode a) :
    ∀ e ∈ (getParentIn o build.treeStack n).2, b.IsNode e.node := fun e member =>
  nodes _ (sound.stack e ((mem_of_getParentIn build.treeStack).1 e member))

theorem parseIn_node_spec {name : ℕ} (record : Record byteAlign (treeStart.drop o) (some n))
    (sound : build.Sound)
    (opCode : hcsGetPrefix byteAlign (treeStart.drop o) = Option.some configNode)
    (text : Terminated byteAlign ((treeStart.drop o).drop (hcsPrefixLength byteAlign)) name)
    (length : n = name + hcsPrefixLength byteAlign + hcsDwordLength)
    (room : build.block.treeMem + nodeSize ≤ build.block.size) :
    BuiltIn byteAlign treeStart o n build (parseByteCodeIn byteAlign treeStart o build) := by
  obtain ⟨found, some⟩ := parse_known record
  -- the size field ends the record, behind the name
  have here : (treeStart.drop o).drop (name + hcsPrefixLength byteAlign) =
      treeStart.drop (o + n - hcsDwordLength) := by
    rw [List.drop_drop, length]
    congr 1
  obtain ⟨b', created, treeMem, size', carved, ordered, extends', new⟩ :=
    createTreeNodeIn_spec byteAlign treeStart o sound.carved sound.ordered
      (fun _ parent => isNode_getParentIn sound parent) room
  rw [parseByteCodeIn, found, orFault, ok_bind, if_neg some, Int.toNat_natCast, opCode, orFault,
    ok_bind, if_pos rfl]
  dsimp only
  rw [created, ok_bind, hcsStringLength_eq_some_iff.mpr text, orFault, ok_bind, here]
  cases sized : hcsByteCodeToUint32 (treeStart.drop (o + n - hcsDwordLength)) with
  | none => exact .cut fun t step => (step.of_node opCode record).1 sized
  | some size =>
    rw [orFault, ok_bind]
    by_cases deep : (getParentIn o build.treeStack n).2.length ≥ treeStackMax - 1
    · -- the node is carved before the guard on the layers ends the pass
      rw [if_pos deep]
      refine .stops _ ⟨carved, ordered, stack_getParentIn sound extends'.1⟩ size' fun t step => ?_
      have shallow := (step.of_node opCode record).2
      rw [← length_getParentIn] at shallow
      omega
    · rw [if_neg deep]
      rw [length_getParentIn] at deep
      have stack := stack_getParentIn (o := o) (n := n) sound extends'.1
      refine .next _ ⟨carved, ordered, List.forall_mem_cons.mpr ⟨new, stack⟩⟩ size' ?_ ?_
      · rw [treeMem, recordSize, if_pos opCode]
      · change BuildsTo byteAlign treeStart (o, build.ends)
          (o + n, _ :: (getParentIn o build.treeStack n).2.map OpenNode.offset)
        rw [map_getParentIn]
        exact .node opCode record sized (by omega)

theorem parseIn_attr_spec {name : ℕ} (record : Record byteAlign (treeStart.drop o) (some n))
    (sound : build.Sound)
    (opCode : hcsGetPrefix byteAlign (treeStart.drop o) = Option.some configAttr)
    (text : Terminated byteAlign ((treeStart.drop o).drop (hcsPrefixLength byteAlign)) name)
    (room : around build.ends (o + n) ≠ [] →
      build.block.treeMem + attrSize ≤ build.block.size) :
    BuiltIn byteAlign treeStart o n build (parseByteCodeIn byteAlign treeStart o build) := by
  obtain ⟨found, some⟩ := parse_known record
  rw [parseByteCodeIn, found, orFault, ok_bind, if_neg some, Int.toNat_natCast, opCode, orFault,
    ok_bind, if_neg (by decide), if_pos rfl]
  dsimp only
  cases parent : (getParentIn o build.treeStack n).1 with
  | none =>
    exact .stops _ ⟨sound.carved, sound.ordered, stack_getParentIn sound fun _ node => node⟩ rfl
      fun t step => step.of_attr opCode record ((getParentIn_eq_none_iff _).mp parent)
  | some a =>
    have inside : around build.ends (o + n) ≠ [] := by
      intro none
      rw [(getParentIn_eq_none_iff build.treeStack).mpr none] at parent
      cases parent
    obtain ⟨b', added, treeMem, size', carved, ordered, extends'⟩ :=
      addAttrInNodeIn_spec sound.carved sound.ordered (isNode_getParentIn sound parent)
        (room inside) (hcsStringLength_eq_some_iff.mpr text)
    rw [added, ok_bind]
    refine .next _ ⟨carved, ordered, stack_getParentIn sound extends'.1⟩ size' ?_ ?_
    · rw [treeMem, recordSize, opCode, if_neg (by decide)]
    · change BuildsTo byteAlign treeStart (o, build.ends)
        (o + n, (getParentIn o build.treeStack n).2.map OpenNode.offset)
      rw [map_getParentIn]
      exact .attr opCode record inside

theorem parseIn_spec (record : Record byteAlign (treeStart.drop o) (some n)) (sound : build.Sound)
    (room : Creates byteAlign treeStart o build.ends →
      build.block.treeMem + recordSize byteAlign (treeStart.drop o) ≤ build.block.size) :
    BuiltIn byteAlign treeStart o n build (parseByteCodeIn byteAlign treeStart o build) := by
  obtain ⟨opCode, name, text, length⟩ | ⟨opCode, name, _, text, -⟩ := record.cases
  · rw [recordSize, if_pos opCode] at room
    exact parseIn_node_spec record sound opCode text length (room (.inl opCode))
  · rw [recordSize, opCode, if_neg (by decide)] at room
    exact parseIn_attr_spec record sound opCode text fun inside =>
      room (.inr ⟨n, record, inside⟩)

theorem carve_beyond (beyond : ¬ b.treeMem + cell.size ≤ b.size) : b.carve cell = .error .memory :=
  if_neg beyond

/-- A record that is carved without room for it leaves the block. -/
theorem parseIn_beyond (record : Record byteAlign (treeStart.drop o) (some n)) (sound : build.Sound)
    (creates : Creates byteAlign treeStart o build.ends)
    (beyond : ¬ build.block.treeMem + recordSize byteAlign (treeStart.drop o) ≤ build.block.size) :
    parseByteCodeIn byteAlign treeStart o build = .error .memory := by
  obtain ⟨found, some⟩ := parse_known record
  rw [parseByteCodeIn, found, orFault, ok_bind, if_neg some, Int.toNat_natCast]
  obtain ⟨opCode, -⟩ | ⟨opCode, name, _, text, -⟩ := record.cases
  · rw [recordSize, if_pos opCode] at beyond
    rw [opCode, orFault, ok_bind, if_pos rfl]
    dsimp only
    rw [createTreeNodeIn, carve_beyond beyond]
    rfl
  · have other : ¬ hcsGetPrefix byteAlign (treeStart.drop o) = Option.some configNode := by
      rw [opCode]
      decide
    rw [recordSize, if_neg other] at beyond
    obtain ⟨n', record', inside⟩ := creates.resolve_left other
    obtain rfl := Option.some.inj (record.unique record')
    obtain ⟨a, parent⟩ := Option.ne_none_iff_exists'.mp
      fun none => inside ((getParentIn_eq_none_iff build.treeStack).mp none)
    obtain ⟨node, there⟩ := isNode_getParentIn sound parent
    rw [opCode, orFault, ok_bind, if_neg (by decide), if_pos rfl]
    dsimp only
    rw [parent, addAttrInNodeIn]
    dsimp only
    rw [hcsStringLength_eq_some_iff.mpr text, orFault, ok_bind, node_eq there, ok_bind,
      carve_beyond beyond]
    rfl

end

/-! ### The whole pass -/

section

variable {byteAlign : Bool} {treeStart : Bytes} {length m : ℤ} {last : Pass}

/-- By induction on the rounds: the second pass stays inside the block as long as each record that
it carves ends there, which is behind all records before it. -/
theorem loop_withinBlock_iff (rounds o : ℕ) (build : Build) (sound : build.Sound)
    (enough : length.toNat - o < rounds)
    (known : ∀ o', SizeComes byteAlign treeStart length o o' →
      ∃ n, Record byteAlign (treeStart.drop o') (some n)) :
    WithinBlock build.block.size (generateLoopIn byteAlign treeStart length rounds o build) ↔
      ∀ o' ends, BuildComes byteAlign treeStart length (o, build.ends) (o', ends) →
        Creates byteAlign treeStart o' ends →
          build.block.treeMem + memoryTo byteAlign treeStart (o' + 1 : ℕ) rounds o ≤
            build.block.size := by
  induction rounds generalizing o build with
  | zero => exact absurd enough (Nat.not_lt_zero _)
  | succ rounds ih =>
    rw [generateLoopIn]
    by_cases inside : (o : ℤ) < length
    · obtain ⟨n, record⟩ := known o (.refl inside)
      have behind := record.pos
      have own : memoryTo byteAlign treeStart (o + 1 : ℕ) (rounds + 1) o =
          recordSize byteAlign (treeStart.drop o) := by
        rw [memoryTo_succ record (by omega), memoryTo_of_le (by omega), Nat.add_zero]
      rw [if_pos inside]
      by_cases room : Creates byteAlign treeStart o build.ends →
          build.block.treeMem + recordSize byteAlign (treeStart.drop o) ≤ build.block.size
      · have only (stops : ∀ t, ¬ BuildsTo byteAlign treeStart (o, build.ends) t) o' ends
            (comes : BuildComes byteAlign treeStart length (o, build.ends) (o', ends))
            (creates : Creates byteAlign treeStart o' ends) :
            build.block.treeMem + memoryTo byteAlign treeStart (o' + 1 : ℕ) (rounds + 1) o ≤
              build.block.size := by
          obtain same | ⟨u, step, -⟩ := comes.cases
          · obtain ⟨rfl, rfl⟩ := Prod.mk.inj same
            exact own ▸ room creates
          · exact absurd step (stops u)
        have built := parseIn_spec record sound room
        generalize parseByteCodeIn byteAlign treeStart o build = result at built
        cases built with
        -- a pass that ends here carves no record after this one
        | cut stops => exact iff_of_true rfl (only stops)
        | stops last sound' size' stops =>
          rw [ok_bind, if_pos (show hdfFailure ≤ 0 by decide)]
          exact iff_of_true ⟨size', sound'.carved, sound'.stack⟩ (only stops)
        | next build' sound' size' carved step =>
          rw [ok_bind, if_neg (parse_known record).2, Int.toNat_natCast, ← size',
            ih (o + n) build' sound' (by omega) fun o' comes => known o' (.next record comes)]
          have shift {o'} (later : o < o') :
              build.block.treeMem + memoryTo byteAlign treeStart (o' + 1 : ℕ) (rounds + 1) o =
                build'.block.treeMem +
                  memoryTo byteAlign treeStart (o' + 1 : ℕ) rounds (o + n) := by
            rw [memoryTo_succ record (by omega), carved, Nat.add_assoc]
          constructor
          · intro rest o' ends comes creates
            obtain same | ⟨u, step', comes⟩ := comes.cases
            · obtain ⟨rfl, rfl⟩ := Prod.mk.inj same
              rw [own, size']
              exact room creates
            · obtain rfl := step.unique step'
              rw [shift (lt_of_lt_of_le (by omega) comes.le)]
              exact rest o' ends comes creates
          · intro all o' ends comes creates
            rw [← shift (lt_of_lt_of_le (by omega) comes.le)]
            exact all o' ends (.next step comes) creates
      · obtain ⟨creates, beyond⟩ := Classical.not_imp.mp room
        rw [parseIn_beyond record sound creates beyond]
        refine iff_of_false (by rintro ⟨⟩) fun all => beyond ?_
        exact own ▸ all o build.ends (.refl inside) creates
    · rw [if_neg inside]
      exact iff_of_true ⟨rfl, sound.carved, sound.stack⟩ fun o' ends comes => absurd comes.lt inside

theorem sound_empty (size : ℕ) : Build.Sound ⟨⟨size, 0, fun _ => none⟩, []⟩ where
  carved :=
    { fits := Nat.zero_le size
      inside := fun a cell found => by cases found
      apart := fun a a' cell found => by cases found
      linked := fun a cell found => by cases found }
  ordered a record s found := by cases found
  stack e member := by cases member

/-- The records that the second pass carves end within the memory that all records up to the length
need, modulo 2^32. -/
def CountFits (byteAlign : Bool) (treeStart : Bytes) (length : ℤ) : Prop :=
  ∀ o ends, BuildComes byteAlign treeStart length (0, []) (o, ends) →
    Creates byteAlign treeStart o ends →
      memoryTo byteAlign treeStart (o + 1 : ℕ) (length.toNat + 1) 0 ≤
        memoryTo byteAlign treeStart length (length.toNat + 1) 0 % 2 ^ 32

/-- It is so when the records need less than 4 GiB. -/
theorem countFits_of_lt
    (short : memoryTo byteAlign treeStart length (length.toNat + 1) 0 < 2 ^ 32) :
    CountFits byteAlign treeStart length := by
  intro o ends comes creates
  rw [Nat.mod_eq_of_lt short]
  exact memoryTo_mono (by have inside := comes.2; push_cast; omega) _ _

/-- A block of the size that the first pass counts for some bytes is enough for the second pass
over them, all its records are carved out of the block, and linked to each other, if and only if
the records that are carved fit the count. -/
theorem generateCfgTreeIn_withinBlock_iff (positive : 0 < m)
    (sized : generateCfgTree byteAlign treeStart length (.size 0) = some (m, last)) :
    WithinBlock m.toNat (generateCfgTreeIn byteAlign treeStart length m.toNat) ↔
      CountFits byteAlign treeStart length := by
  have passed : SizePassed byteAlign treeStart length (length.toNat + 1) 0 0
      (generateCfgTree byteAlign treeStart length (.size 0)) :=
    sizePass _ 0 0 (by omega)
  rw [sized] at passed
  cases passed with
  | unknown _ _ _ _ => exact absurd positive (by decide)
  | through known memory counted _ =>
    have size : (Int32.ofNat memory).toInt.toNat = memory % 2 ^ 32 := by
      rw [Int32.toInt_ofNat', Int.bmod_def, show Int32.size = 2 ^ 32 from rfl] at positive ⊢
      omega
    refine (loop_withinBlock_iff (length.toNat + 1) 0 _ (sound_empty _) (by omega) known).trans ?_
    refine forall₂_congr fun o ends => imp_congr_right fun _ => imp_congr_right fun _ => ?_
    change 0 + _ ≤ (Int32.ofNat memory).toInt.toNat ↔ _
    rw [size, counted, Nat.zero_add, Nat.zero_add]

/-! ### Examples -/

/-- Two nodes, one in the other, and an attribute in the inner one. -/
def innerAttr : Bytes :=
  [1, 97, 0, 14, 0, 0, 0, 1, 98, 0, 7, 0, 0, 0, 2, 99, 0, 0x10, 5]

theorem innerAttr_withinBlock :
    WithinBlock 120 (generateCfgTreeIn false innerAttr 19 120) := by
  have sized : generateCfgTree false innerAttr 19 (.size 0) = some (120, .size 120) := by
    rfl
  exact (generateCfgTreeIn_withinBlock_iff (by decide) sized).mpr (countFits_of_lt (by decide))

/-- Nodes without names and contents. -/
def bareNodes (copies : ℕ) : Bytes := (List.replicate copies [1, 0, 0, 0, 0, 0]).flatten

theorem record_bareNodes {copies : ℕ} (here : treeStart.drop o = bareNodes (copies + 1)) :
    Record false (treeStart.drop o) (some 6) ∧
      hcsGetPrefix false (treeStart.drop o) = some configNode := by
  rw [here]
  exact ⟨.node rfl ⟨[], [0, 0, 0, 0] ++ bareNodes copies, rfl, by simp, rfl⟩, rfl⟩

/-- The first pass counts a node for each of them. -/
theorem size_bareNodes (copies o spare memLen : ℕ) (here : treeStart.drop o = bareNodes copies) :
    generateLoop false treeStart (o + 6 * copies : ℕ) (spare + 1 + copies) o
        (.size (.ofNat memLen)) =
      some ((Int32.ofNat (memLen + nodeSize * copies)).toInt,
        .size (.ofNat (memLen + nodeSize * copies))) := by
  induction copies generalizing o memLen with
  | zero => rw [generateLoop, if_neg (by omega)]; rfl
  | succ copies ih =>
    obtain ⟨record, opCode⟩ := record_bareNodes here
    have node : recordSize false (treeStart.drop o) = nodeSize := if_pos opCode
    have rest := ih (o + 6) (memLen + nodeSize) (by rw [← List.drop_drop, here]; rfl)
    rw [← Nat.add_assoc, generateLoop, if_pos (by omega), parse_size record, Option.bind_some,
      if_neg (parse_known record).2, node]
    rw [show o + 6 * (copies + 1) = o + 6 + 6 * copies by omega,
      show memLen + nodeSize * (copies + 1) = memLen + nodeSize + nodeSize * copies by
        rw [Nat.mul_succ]; omega]
    exact rest

theorem bareNodes_not_withinBlock :
    generateCfgTree false (bareNodes 89478486) 536870916 (.size 0) = some (32, .size 32) ∧
      ¬ WithinBlock 32 (generateCfgTreeIn false (bareNodes 89478486) 536870916 32) := by
  constructor
  · have sized := size_bareNodes 89478486 0 447392430 0 List.drop_zero
    have count : Int32.ofNat (0 + nodeSize * 89478486) = 32 := by decide
    rw [count, show 447392430 + 1 + 89478486 = (536870916 : ℤ).toNat + 1 by omega] at sized
    exact sized
  · obtain ⟨record, opCode⟩ := @record_bareNodes (bareNodes 89478486) 0 89478485 List.drop_zero
    have node : recordSize false ((bareNodes 89478486).drop 0) = nodeSize := if_pos opCode
    rw [generateCfgTreeIn, generateLoopIn, if_pos (by decide),
      parseIn_beyond record (sound_empty 32) (.inl opCode) (by rw [node]; decide)]
    rintro ⟨⟩

end

end Hdf.HcsParser
