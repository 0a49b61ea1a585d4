import Hdf.Core.Base
import Hdf.Lib.KeyedList
import Hdf.Lib.Runs
import Hdf.Utils.CString

/-!
# The regulator topology

The regulator manager keeps a list of nodes; the tree manager keeps, under the name of
a regulator, a pointer to its parent and pointers to its children. A new node is linked
to its parent and to the children that wait for it. A node is taken off the list and
freed without a look at the tree, so a link that it is part of stays.

A node is told from others by the number of its registration, since a name can be used
again. Locks can be taken unless a call has kept them; `memory` tells which allocations
succeed. Turning regulators on changes no link and is left out.

## Main definitions

* `RegulatorNode`, `RegulatorTreeInfo`, `State`: the list, and the tree over it
* `regulatorTreeSet`, `regulatorNodeAdd`, `regulatorNodeRemove`, `regulatorNodeRemoveAll`
* `Topology`: the tree names live nodes, every matching pair and no child twice
* `Unlinked`: the calls that keep it so

## Main results

* `regulatorTreeSet_spec`, `regulatorNodeSetChild_spec`: what a call records
* `Kept.add`, `Kept.remove`, `Kept.removeAll`: what one call preserves
* `topology_of_unlinked`: runs of such calls
* `parent_removed`: a parent that is freed while its child points to it
-/

namespace Hdf.Platform.RegulatorTopology

open Hdf.Core KeyedList

/-- `struct RegulatorNode`: which registration it is from, and what it is linked by. -/
structure RegulatorNode where
  number : ℕ
  name : CString
  parentName : Option CString
  deriving DecidableEq

/-- `struct RegulatorTreeInfo`. -/
structure RegulatorTreeInfo where
  name : CString
  parent : Option RegulatorNode
  childHead : List RegulatorNode
  deriving DecidableEq

/-- `struct RegulatorTreeManager`: the records, whether a call has kept the lock, and the outcomes
of the allocations to come. -/
structure RegulatorTreeManager where
  treeMgrHead : List RegulatorTreeInfo
  locked : Bool
  memory : List Bool
  deriving DecidableEq

/-- The nodes in the order of their registration, the tree, and how many nodes there have
been. -/
structure State where
  regulatorHead : List RegulatorNode
  tree : RegulatorTreeManager
  registered : ℕ
  deriving DecidableEq

/-- What a call returns, unless it waits for ever for a lock. -/
abbrev Outcome := Option (HdfStatus × RegulatorTreeManager)

/-- Goes on when a call has succeeded, and fails otherwise. -/
def Outcome.andThen (outcome : Outcome) (next : RegulatorTreeManager → Outcome) : Outcome :=
  outcome.bind fun (ret, tree) => if ret ≠ .success then some (.failure, tree) else next tree

theorem Outcome.andThen_success (next : RegulatorTreeManager → Outcome)
    (tree : RegulatorTreeManager) :
    Outcome.andThen (some (.success, tree)) next = next tree := by
  simp [Outcome.andThen]

/-! ### The tree manager -/

/-- `RegulatorTreeManagerNodeInit`. It returns with the lock held when it has no memory. -/
def regulatorTreeManagerNodeInit (name : CString) (tree : RegulatorTreeManager) : Outcome :=
  if tree.locked then none
  else if (search RegulatorTreeInfo.name name tree.treeMgrHead).isSome then some (.success, tree)
  else if tree.memory.headD true then
    some (.success, { tree with
      treeMgrHead := tree.treeMgrHead ++ [{ name := name, parent := none, childHead := [] }]
      memory := tree.memory.tail })
  else some (.failure, { tree with locked := true, memory := tree.memory.tail })

/-- `RegulatorTreeSetParent`. -/
def regulatorTreeSetParent (name : CString) (parent : RegulatorNode)
    (tree : RegulatorTreeManager) : Outcome :=
  if tree.locked then none
  else if (search RegulatorTreeInfo.name name tree.treeMgrHead).isSome then
    some (.success, { tree with
      treeMgrHead := update RegulatorTreeInfo.name name
        (fun pos => { pos with parent := some parent }) tree.treeMgrHead })
  else some (.failure, tree)

/-- `RegulatorTreeSetChild`, with `RegulatorChildNodeAdd`. -/
def regulatorTreeSetChild (name : CString) (child : RegulatorNode)
    (tree : RegulatorTreeManager) : Outcome :=
  if tree.locked then none
  else if (search RegulatorTreeInfo.name name tree.treeMgrHead).isSome then
    if tree.memory.headD true then
      some (.success, { tree with
        treeMgrHead := update RegulatorTreeInfo.name name
          (fun pos => { pos with childHead := pos.childHead ++ [child] }) tree.treeMgrHead
        memory := tree.memory.tail })
    else some (.failure, { tree with memory := tree.memory.tail })
  else some (.failure, tree)

/-- `RegulatorTreeSet`. -/
def regulatorTreeSet (name : CString) (child parent : RegulatorNode)
    (tree : RegulatorTreeManager) : Outcome :=
  (regulatorTreeManagerNodeInit name tree).andThen fun tree =>
    (regulatorTreeSetParent name parent tree).andThen fun tree =>
      (regulatorTreeManagerNodeInit parent.name tree).andThen fun tree =>
        (regulatorTreeSetChild parent.name child tree).andThen fun tree => some (.success, tree)

/-- `RegulatorTreeNodeRemoveAll`. -/
def regulatorTreeNodeRemoveAll (tree : RegulatorTreeManager) : Outcome :=
  if tree.locked then none else some (.success, { tree with treeMgrHead := [] })

/-! ### The list of nodes -/

/-- `RegulatorNodeSetParent`. An empty name stands for no parent. -/
def regulatorNodeSetParent (regulatorHead : List RegulatorNode) (node : RegulatorNode)
    (tree : RegulatorTreeManager) : Outcome :=
  match node.parentName.filter fun parentName => 0 < parentName.length with
  | none => some (.success, tree)
  | some parentName =>
    match search RegulatorNode.name parentName regulatorHead with
    | none => some (.failure, tree)
    | some pos => regulatorTreeSet node.name node pos tree

/-- `RegulatorNodeSetChild`, from a place of the list on. -/
def regulatorNodeSetChild (parent : RegulatorNode) :
    List RegulatorNode → RegulatorTreeManager → Outcome
  | [], tree => some (.success, tree)
  | pos :: rest, tree =>
    if pos.parentName = some parent.name then
      (regulatorTreeSet pos.name pos parent tree).andThen (regulatorNodeSetChild parent rest)
    else regulatorNodeSetChild parent rest tree

/-- `RegulatorNodeInitProcess`. A parent that is not found is no error. `RegulatorNodeInitEnable`
looks for children under the lock. -/
def regulatorNodeInitProcess (regulatorHead : List RegulatorNode) (node : RegulatorNode)
    (tree : RegulatorTreeManager) : Outcome :=
  (regulatorNodeSetParent regulatorHead node tree).bind fun (_, tree) =>
    (regulatorNodeSetChild node regulatorHead tree).andThen fun tree =>
      if tree.locked then none else some (.success, tree)

/-- `RegulatorNodeAdd`. A node whose links cannot be recorded stays on the list. -/
def regulatorNodeAdd (name : CString) (parentName : Option CString) (memory : List Bool)
    (s : State) : Option (HdfStatus × State) :=
  if (search RegulatorNode.name name s.regulatorHead).isSome then some (.failure, s)
  else
    let node : RegulatorNode := { number := s.registered, name := name, parentName := parentName }
    let regulatorHead := s.regulatorHead ++ [node]
    (regulatorNodeInitProcess regulatorHead node { s.tree with memory := memory }).map
      fun (ret, tree) => (ret, ⟨regulatorHead, tree, s.registered + 1⟩)

/-- `RegulatorNodeRemove`. -/
def regulatorNodeRemove (name : CString) (s : State) : State :=
  { s with regulatorHead := remove RegulatorNode.name name s.regulatorHead }

/-- `RegulatorNodeRemoveAll`. -/
def regulatorNodeRemoveAll (s : State) : Option State :=
  (regulatorTreeNodeRemoveAll s.tree).map fun (_, tree) =>
    { s with regulatorHead := [], tree := tree }

/-- A call, with the outcomes of its allocations. -/
inductive Act
  | add (name : CString) (parentName : Option CString) (memory : List Bool)
  | remove (name : CString)
  | removeAll

/-- A call of the manager. -/
def step : Act → State → Option State
  | .add name parentName memory, s => (regulatorNodeAdd name parentName memory s).map Prod.snd
  | .remove name, s => some (regulatorNodeRemove name s)
  | .removeAll, s => regulatorNodeRemoveAll s

/-- After `RegulatorTreeManagerInit`. -/
def start : State where
  regulatorHead := []
  tree := { treeMgrHead := [], locked := false, memory := [] }
  registered := 0

/-- Every pointer of the tree is to a node on the list, every pair of nodes whose names match is
recorded at both ends, and no child is recorded twice under one parent. -/
structure Topology (s : State) : Prop where
  parents : ∀ info ∈ s.tree.treeMgrHead, ∀ parent ∈ info.parent, parent ∈ s.regulatorHead
  children : ∀ info ∈ s.tree.treeMgrHead, ∀ child ∈ info.childHead, child ∈ s.regulatorHead
  recorded : ∀ child ∈ s.regulatorHead, ∀ parent ∈ s.regulatorHead,
    child.parentName = some parent.name →
    (∃ info ∈ s.tree.treeMgrHead, info.name = child.name ∧ info.parent = some parent) ∧
      ∃ info ∈ s.tree.treeMgrHead, info.name = parent.name ∧ child ∈ info.childHead
  once : ∀ info ∈ s.tree.treeMgrHead, info.childHead.Nodup

/-- A new node does not name itself as its parent, nor a registered one by an empty name, and there
is memory for its links. A node that is removed is neither parent nor child of a registered
one. -/
def Unlinked : Act → State → Prop
  | .add name parentName memory, s =>
    name ∉ s.regulatorHead.map RegulatorNode.name → parentName ≠ some name ∧
      (∀ parent ∈ s.regulatorHead, parentName = some parent.name → 0 < parent.name.length) ∧
      ∀ there ∈ memory, there = true
  | .remove name, s =>
    ∀ node ∈ s.regulatorHead, node.name = name → ∀ other ∈ s.regulatorHead,
      other.parentName ≠ some name ∧ node.parentName ≠ some other.name
  | .removeAll, _ => True

instance {act : Act} {s : State} : Decidable (Unlinked act s) := by
  cases act <;> unfold Unlinked <;> infer_instance

/-! ## What a call records -/

/-- The parent that is recorded under a name. -/
def parentOf (name : CString) (tree : RegulatorTreeManager) : Option RegulatorNode :=
  (search RegulatorTreeInfo.name name tree.treeMgrHead).bind RegulatorTreeInfo.parent

/-- The children that are recorded under a name. -/
def childrenOf (name : CString) (tree : RegulatorTreeManager) : List RegulatorNode :=
  ((search RegulatorTreeInfo.name name tree.treeMgrHead).map RegulatorTreeInfo.childHead).getD []

/-- The lock is free, there is memory, and there is one record for a name. -/
structure Sound (tree : RegulatorTreeManager) : Prop where
  unlocked : tree.locked = false
  plenty : ∀ there ∈ tree.memory, there = true
  distinct : (tree.treeMgrHead.map RegulatorTreeInfo.name).Nodup

variable {tree tree' : RegulatorTreeManager} {name other : CString}
  {node child parent : RegulatorNode} {s t : State} {act : Act}

theorem Sound.headD (sound : Sound tree) : tree.memory.headD true = true := by
  have plenty := sound.plenty
  cases memory : tree.memory with
  | nil => rfl
  | cons there rest => exact plenty there (memory ▸ List.mem_cons_self)

theorem Sound.tail (sound : Sound tree) : ∀ there ∈ tree.memory.tail, there = true :=
  fun there member => sound.plenty there (List.mem_of_mem_tail member)

/-- A record that is there is kept, and an empty one is added otherwise. -/
theorem regulatorTreeManagerNodeInit_spec (name : CString) (sound : Sound tree) :
    ∃ tree', regulatorTreeManagerNodeInit name tree = some (.success, tree') ∧ Sound tree' ∧
      (search RegulatorTreeInfo.name name tree'.treeMgrHead).isSome ∧
      (∀ other, parentOf other tree' = parentOf other tree) ∧
      ∀ other, childrenOf other tree' = childrenOf other tree := by
  rw [regulatorTreeManagerNodeInit, sound.unlocked, sound.headD]
  by_cases known : (search RegulatorTreeInfo.name name tree.treeMgrHead).isSome
  · simp only [known, if_true]
    exact ⟨tree, rfl, sound, known, fun _ => rfl, fun _ => rfl⟩
  · -- the new record has neither a parent nor children, and none is found without it
    have absent : name ∉ tree.treeMgrHead.map RegulatorTreeInfo.name :=
      fun there => known (search_isSome_iff.mpr there)
    simp only [known]
    refine ⟨_, rfl, ⟨rfl, sound.tail, ?_⟩, ?_, fun other => ?_, fun other => ?_⟩
    · rw [List.map_append, List.nodup_append]
      refine ⟨sound.distinct, List.nodup_singleton _, ?_⟩
      rintro other there _ new rfl
      obtain rfl : other = name := List.mem_singleton.mp new
      exact absent there
    · rw [search_isSome_iff, List.map_append]
      exact List.mem_append_right _ List.mem_cons_self
    · rw [parentOf, search_append_singleton, parentOf]
      cases search RegulatorTreeInfo.name other tree.treeMgrHead with
      | none => rw [Option.none_or]; split <;> rfl
      | some info => rfl
    · rw [childrenOf, search_append_singleton, childrenOf]
      cases search RegulatorTreeInfo.name other tree.treeMgrHead with
      | none => rw [Option.none_or]; split <;> rfl
      | some info => rfl

theorem regulatorTreeSetParent_spec (parent : RegulatorNode) (sound : Sound tree)
    (known : (search RegulatorTreeInfo.name name tree.treeMgrHead).isSome) :
    ∃ tree', regulatorTreeSetParent name parent tree = some (.success, tree') ∧ Sound tree' ∧
      (∀ other, parentOf other tree' = if other = name then some parent else parentOf other tree) ∧
      ∀ other, childrenOf other tree' = childrenOf other tree := by
  have keeps : ∀ pos : RegulatorTreeInfo, pos.name = name →
      ({ pos with parent := some parent } : RegulatorTreeInfo).name = name := fun _ same => same
  rw [regulatorTreeSetParent, sound.unlocked, known]
  refine ⟨_, rfl, ⟨rfl, sound.plenty, ?_⟩, fun other => ?_, fun other => ?_⟩
  · dsimp only
    rw [map_key_update keeps]
    exact sound.distinct
  · rw [parentOf, search_update keeps, parentOf]
    by_cases same : other = name
    · obtain ⟨info, found⟩ := Option.isSome_iff_exists.mp known
      rw [if_pos same, if_pos same, same, found]
      rfl
    · rw [if_neg same, if_neg same]
  · rw [childrenOf, search_update keeps, childrenOf]
    split
    · rw [Option.map_map]
      rfl
    · rfl

theorem regulatorTreeSetChild_spec (child : RegulatorNode) (sound : Sound tree)
    (known : (search RegulatorTreeInfo.name name tree.treeMgrHead).isSome) :
    ∃ tree', regulatorTreeSetChild name child tree = some (.success, tree') ∧ Sound tree' ∧
      (∀ other, parentOf other tree' = parentOf other tree) ∧
      ∀ other, childrenOf other tree' =
        childrenOf other tree ++ if other = name then [child] else [] := by
  have keeps : ∀ pos : RegulatorTreeInfo, pos.name = name →
      ({ pos with childHead := pos.childHead ++ [child] } : RegulatorTreeInfo).name = name :=
    fun _ same => same
  rw [regulatorTreeSetChild, sound.unlocked, known, sound.headD]
  refine ⟨_, rfl, ⟨rfl, sound.tail, ?_⟩, fun other => ?_, fun other => ?_⟩
  · dsimp only
    rw [map_key_update keeps]
    exact sound.distinct
  · rw [parentOf, search_update keeps, parentOf]
    split
    · rw [Option.bind_map]
      rfl
    · rfl
  · rw [childrenOf, search_update keeps, childrenOf]
    by_cases same : other = name
    · obtain ⟨info, found⟩ := Option.isSome_iff_exists.mp known
      rw [if_pos same, if_pos same, same, found]
      rfl
    · rw [if_neg same, if_neg same, List.append_nil]

/-- A link is recorded at both ends. -/
theorem regulatorTreeSet_spec (name : CString) (child parent : RegulatorNode) (sound : Sound tree) :
    ∃ tree', regulatorTreeSet name child parent tree = some (.success, tree') ∧ Sound tree' ∧
      (∀ other, parentOf other tree' = if other = name then some parent else parentOf other tree) ∧
      ∀ other, childrenOf other tree' =
        childrenOf other tree ++ if other = parent.name then [child] else [] := by
  obtain ⟨tree₁, made₁, sound₁, known₁, parents₁, children₁⟩ :=
    regulatorTreeManagerNodeInit_spec name sound
  obtain ⟨tree₂, made₂, sound₂, parents₂, children₂⟩ :=
    regulatorTreeSetParent_spec parent sound₁ known₁
  obtain ⟨tree₃, made₃, sound₃, known₃, parents₃, children₃⟩ :=
    regulatorTreeManagerNodeInit_spec parent.name sound₂
  obtain ⟨tree₄, made₄, sound₄, parents₄, children₄⟩ :=
    regulatorTreeSetChild_spec child sound₃ known₃
  refine ⟨tree₄, ?_, sound₄, fun other => ?_, fun other => ?_⟩
  · rw [regulatorTreeSet, made₁, Outcome.andThen_success, made₂, Outcome.andThen_success, made₃,
      Outcome.andThen_success, made₄, Outcome.andThen_success]
  · rw [parents₄, parents₃, parents₂, parents₁]
  · rw [children₄, children₃, children₂, children₁]

/-- All children that wait for a new node are linked to it. -/
theorem regulatorNodeSetChild_spec (parent : RegulatorNode) (sound : Sound tree)
    (nodes : List RegulatorNode) :
    ∃ tree', regulatorNodeSetChild parent nodes tree = some (.success, tree') ∧ Sound tree' ∧
      (∀ other, parentOf other tree' =
        if ∃ pos ∈ nodes, pos.parentName = some parent.name ∧ pos.name = other then some parent
        else parentOf other tree) ∧
      ∀ other, childrenOf other tree' = childrenOf other tree ++
        if other = parent.name then nodes.filter fun pos => pos.parentName = some parent.name
        else [] := by
  induction nodes generalizing tree with
  | nil =>
    refine ⟨tree, rfl, sound, fun other => ?_, fun other => ?_⟩
    · simp
    · simp
  | cons pos rest ih =>
    rw [regulatorNodeSetChild]
    by_cases named : pos.parentName = some parent.name
    · obtain ⟨tree₁, made₁, sound₁, parents₁, children₁⟩ :=
        regulatorTreeSet_spec pos.name pos parent sound
      obtain ⟨tree₂, made₂, sound₂, parents₂, children₂⟩ := ih sound₁
      refine ⟨tree₂, ?_, sound₂, fun other => ?_, fun other => ?_⟩
      · rw [if_pos named, made₁, Outcome.andThen_success, made₂]
      · rw [parents₂, parents₁]
        -- the links that come later write the same parent
        by_cases later : ∃ pos ∈ rest, pos.parentName = some parent.name ∧ pos.name = other
        · obtain ⟨pos', member, linked⟩ := later
          rw [if_pos ⟨pos', member, linked⟩, if_pos ⟨pos', List.mem_cons_of_mem _ member, linked⟩]
        · rw [if_neg later]
          by_cases here : other = pos.name
          · rw [if_pos here, if_pos ⟨pos, List.mem_cons_self, named, here.symm⟩]
          · rw [if_neg here, if_neg]
            rintro ⟨pos', member, named', same⟩
            rcases List.mem_cons.mp member with rfl | member
            · exact here same.symm
            · exact later ⟨pos', member, named', same⟩
      · rw [children₂, children₁, List.filter_cons, if_pos (decide_eq_true named)]
        split
        · rw [List.append_assoc, List.singleton_append]
        · rw [List.append_nil]
    · obtain ⟨tree₂, made₂, sound₂, parents₂, children₂⟩ := ih sound
      refine ⟨tree₂, ?_, sound₂, fun other => ?_, fun other => ?_⟩
      · rw [if_neg named, made₂]
      · rw [parents₂]
        refine if_congr ?_ rfl rfl
        rw [List.exists_mem_cons_iff, or_iff_right fun both => named both.1]
      · rw [children₂, List.filter_cons, if_neg fun holds => named (of_decide_eq_true holds)]

/-! ## What a call preserves -/

/-- The tree records exactly the pairs on the list whose names match. -/
structure Kept (s : State) : Prop where
  sound : s.tree.locked = false ∧ (s.tree.treeMgrHead.map RegulatorTreeInfo.name).Nodup
  names : (s.regulatorHead.map RegulatorNode.name).Nodup
  parents : ∀ name, ∀ parent ∈ parentOf name s.tree, parent ∈ s.regulatorHead ∧
    ∃ child ∈ s.regulatorHead, child.name = name ∧ child.parentName = some parent.name
  children : ∀ name, ∀ child ∈ childrenOf name s.tree, child ∈ s.regulatorHead ∧
    child.parentName = some name ∧ name ∈ s.regulatorHead.map RegulatorNode.name
  recorded : ∀ child ∈ s.regulatorHead, ∀ parent ∈ s.regulatorHead,
    child.parentName = some parent.name →
    parentOf child.name s.tree = some parent ∧ child ∈ childrenOf parent.name s.tree
  once : ∀ name, (childrenOf name s.tree).Nodup

theorem kept_start : Kept start where
  sound := ⟨rfl, List.nodup_nil⟩
  names := List.nodup_nil
  parents := by rintro name parent ⟨⟩
  children := by rintro name child ⟨⟩
  recorded := by rintro child ⟨⟩
  once _ := List.nodup_nil

theorem Kept.remove (kept : Kept s) (unlinked : Unlinked (.remove name) s) :
    Kept (regulatorNodeRemove name s) where
  sound := kept.sound
  names := kept.names.sublist map_key_remove_sublist
  once := kept.once
  parents other parent linked := by
    obtain ⟨above, child, below, same, named⟩ := kept.parents other parent linked
    refine ⟨(mem_remove kept.names).mpr ⟨above, fun removed => ?_⟩, child,
      (mem_remove kept.names).mpr ⟨below, fun removed => ?_⟩, same, named⟩
    · exact (unlinked parent above removed child below).1 (removed ▸ named)
    · exact (unlinked child below removed parent above).2 named
  children other child linked := by
    obtain ⟨below, named, there⟩ := kept.children other child linked
    obtain ⟨parent, above, rfl⟩ := List.mem_map.mp there
    refine ⟨(mem_remove kept.names).mpr ⟨below, fun removed => ?_⟩, named,
      List.mem_map_of_mem ((mem_remove kept.names).mpr ⟨above, fun removed => ?_⟩)⟩
    · exact (unlinked child below removed parent above).2 named
    · exact (unlinked parent above removed child below).1 (removed ▸ named)
  recorded child below parent above :=
    kept.recorded child ((mem_remove kept.names).mp below).1 parent
      ((mem_remove kept.names).mp above).1

theorem Kept.removeAll (kept : Kept s) (stepped : regulatorNodeRemoveAll s = some t) : Kept t := by
  rw [regulatorNodeRemoveAll, regulatorTreeNodeRemoveAll, kept.sound.1] at stepped
  obtain rfl := Option.some.inj stepped
  exact {
    sound := ⟨rfl, List.nodup_nil⟩
    names := List.nodup_nil
    parents := by rintro name parent ⟨⟩
    children := by rintro name child ⟨⟩
    recorded := by rintro child ⟨⟩
    once := fun _ => List.nodup_nil }

/-- A new node is linked to the node that it names as its parent. -/
theorem regulatorNodeSetParent_spec {nodes : List RegulatorNode} (sound : Sound tree)
    (names : ((nodes ++ [node]).map RegulatorNode.name).Nodup)
    (notSelf : node.parentName ≠ some node.name)
    (nonempty : ∀ parent ∈ nodes, node.parentName = some parent.name → 0 < parent.name.length) :
    ∃ ret tree', regulatorNodeSetParent (nodes ++ [node]) node tree = some (ret, tree') ∧
      Sound tree' ∧ ∃ found : Option RegulatorNode,
        (∀ parent, found = some parent ↔
          parent ∈ nodes ∧ node.parentName = some parent.name) ∧
        (∀ other, parentOf other tree' =
          if other = node.name then found.or (parentOf other tree) else parentOf other tree) ∧
        ∀ other, childrenOf other tree' =
          childrenOf other tree ++
            if found.map RegulatorNode.name = some other then [node] else [] := by
  rw [regulatorNodeSetParent]
  by_cases present : ∃ parent ∈ nodes, node.parentName = some parent.name
  · obtain ⟨parent, above, named⟩ := present
    have above' : parent ∈ nodes ++ [node] := List.mem_append_left _ above
    obtain ⟨tree', made, sound', parents, children⟩ :=
      regulatorTreeSet_spec node.name node parent sound
    refine ⟨.success, tree', ?_, sound', some parent, fun parent' => ⟨?_, ?_⟩, fun other => ?_,
      fun other => ?_⟩
    · -- a parent on the list has a name that is not empty, so that it is searched for
      have kept : (some parent.name).filter (fun parentName => 0 < parentName.length) =
          some parent.name :=
        Option.filter_some_pos (decide_eq_true (nonempty parent above named))
      rw [named, kept]
      dsimp only
      rw [search_of_mem names above']
      exact made
    · rintro ⟨⟩
      exact ⟨above, named⟩
    · rintro ⟨above', named'⟩
      have same : parent.name = parent'.name := Option.some.inj (named.symm.trans named')
      rw [List.inj_on_of_nodup_map names (List.mem_append_left _ above)
        (List.mem_append_left _ above') same]
    · rw [parents, Option.some_or]
    · rw [children, Option.map_some]
      refine congrArg _ (if_congr ?_ rfl rfl)
      rw [Option.some.injEq, eq_comm]
  · -- no node has the name, and the new one does not name itself
    have absent : ∀ parentName, node.parentName = some parentName →
        search RegulatorNode.name parentName (nodes ++ [node]) = none := by
      intro parentName named
      rw [search_eq_none_iff, List.map_append, List.mem_append, not_or]
      refine ⟨fun there => ?_, fun there => ?_⟩
      · obtain ⟨parent, above, rfl⟩ := List.mem_map.mp there
        exact present ⟨parent, above, named⟩
      · exact notSelf (List.mem_singleton.mp there ▸ named)
    have unchanged : ∃ ret, (match node.parentName.filter
          fun parentName => 0 < parentName.length with
        | none => some (.success, tree)
        | some parentName =>
          match search RegulatorNode.name parentName (nodes ++ [node]) with
          | none => some (.failure, tree)
          | some pos => regulatorTreeSet node.name node pos tree) = some (ret, tree) := by
      split
      · exact ⟨.success, rfl⟩
      · rename_i parentName named
        rw [absent parentName (Option.filter_eq_some_iff.mp named).1]
        exact ⟨.failure, rfl⟩
    obtain ⟨ret, same⟩ := unchanged
    refine ⟨ret, tree, same, sound, none, fun parent => ⟨by rintro ⟨⟩, fun linked => ?_⟩,
      fun other => ?_, fun other => ?_⟩
    · exact absurd ⟨parent, linked⟩ present
    · rw [Option.none_or, ite_self]
    · rw [if_neg (by simp), List.append_nil]

theorem nodup_append_singleton (names : (s.regulatorHead.map RegulatorNode.name).Nodup)
    (absent : node.name ∉ s.regulatorHead.map RegulatorNode.name) :
    ((s.regulatorHead ++ [node]).map RegulatorNode.name).Nodup := by
  rw [List.map_append, List.nodup_append]
  refine ⟨names, List.nodup_singleton _, ?_⟩
  rintro other there _ new rfl
  obtain rfl : other = node.name := List.mem_singleton.mp new
  exact absent there

/-- A new node at the end of the list, linked to the parent that it names and to the children
that name it. -/
theorem Kept.link {found : Option RegulatorNode} {registered : ℕ} (kept : Kept s)
    (absent : node.name ∉ s.regulatorHead.map RegulatorNode.name)
    (notSelf : node.parentName ≠ some node.name)
    (found_iff : ∀ parent, found = some parent ↔
      parent ∈ s.regulatorHead ∧ node.parentName = some parent.name)
    (sound : Sound tree)
    (parents : ∀ other, parentOf other tree =
      if ∃ pos ∈ s.regulatorHead ++ [node], pos.parentName = some node.name ∧ pos.name = other then
        some node
      else if other = node.name then found else parentOf other s.tree)
    (children : ∀ other, childrenOf other tree = childrenOf other s.tree ++
      (if found.map RegulatorNode.name = some other then [node] else []) ++
      if other = node.name then
        (s.regulatorHead ++ [node]).filter fun pos => pos.parentName = some node.name
      else []) :
    Kept ⟨s.regulatorHead ++ [node], tree, registered⟩ := by
  have old : ∀ {pos}, pos ∈ s.regulatorHead → pos.name ≠ node.name :=
    fun there same => absent (same ▸ List.mem_map_of_mem there)
  have last : node ∈ s.regulatorHead ++ [node] := List.mem_append_right _ List.mem_cons_self
  have names := nodup_append_singleton kept.names absent
  -- a node is under a name only once, and the new one is not its own child
  have notChild : ∀ {pos : RegulatorNode}, pos ∈ s.regulatorHead ++ [node] →
      pos.parentName ≠ some node.name →
      ¬ ∃ pos' ∈ s.regulatorHead ++ [node],
        pos'.parentName = some node.name ∧ pos'.name = pos.name := by
    rintro pos member differs ⟨pos', member', named, same⟩
    obtain rfl : pos' = pos := List.inj_on_of_nodup_map names member' member same
    exact differs named
  constructor
  case sound => exact ⟨sound.unlocked, sound.distinct⟩
  case names => exact names
  case parents =>
    intro other parent linked
    rw [parents, Option.mem_def] at linked
    split at linked
    case isTrue waits =>
      obtain ⟨pos, member, named, same⟩ := waits
      obtain rfl := Option.some.inj linked
      exact ⟨last, pos, member, same, named⟩
    case isFalse =>
      split at linked
      case isTrue same =>
        obtain ⟨above, named⟩ := (found_iff parent).mp linked
        exact ⟨List.mem_append_left _ above, node, last, same.symm, named⟩
      case isFalse =>
        obtain ⟨above, child, below, same, named⟩ := kept.parents other parent linked
        exact ⟨List.mem_append_left _ above, child, List.mem_append_left _ below, same, named⟩
  case children =>
    intro other child linked
    rw [children, List.mem_append, List.mem_append] at linked
    rcases linked with (before | up) | down
    · obtain ⟨below, named, there⟩ := kept.children other child before
      rw [List.map_append]
      exact ⟨List.mem_append_left _ below, named, List.mem_append_left _ there⟩
    · split at up
      case isFalse => cases up
      case isTrue above =>
        obtain rfl := List.mem_singleton.mp up
        obtain ⟨parent, rfl, rfl⟩ := Option.map_eq_some_iff.mp above
        obtain ⟨above, named⟩ := (found_iff parent).mp rfl
        exact ⟨last, named, List.mem_map_of_mem (List.mem_append_left _ above)⟩
    · split at down
      case isFalse => cases down
      case isTrue same =>
        obtain ⟨member, named⟩ := List.mem_filter.mp down
        subst same
        exact ⟨member, of_decide_eq_true named, List.mem_map_of_mem last⟩
  case recorded =>
    intro child below parent above named
    dsimp only at below above ⊢
    rw [parents, children, List.mem_append, List.mem_append]
    rcases List.mem_append.mp above with earlier | above
    · have differs : child.parentName ≠ some node.name :=
        fun named' => old earlier (Option.some.inj (named.symm.trans named'))
      rw [if_neg (notChild below differs)]
      rcases List.mem_append.mp below with below | below
      · obtain ⟨up, down⟩ := kept.recorded child below parent earlier named
        rw [if_neg (old below)]
        exact ⟨up, .inl (.inl down)⟩
      · obtain rfl := List.mem_singleton.mp below
        have there : found = some parent := (found_iff parent).mpr ⟨earlier, named⟩
        rw [if_pos rfl, there, Option.map_some, if_pos rfl]
        exact ⟨rfl, .inl (.inr List.mem_cons_self)⟩
    · obtain rfl := List.mem_singleton.mp above
      rw [if_pos ⟨child, below, named, rfl⟩, if_pos rfl]
      exact ⟨rfl, .inr (List.mem_filter.mpr ⟨below, decide_eq_true named⟩)⟩
  case once =>
    intro other
    dsimp only
    rw [children]
    by_cases same : other = node.name
    · have noChild : childrenOf other s.tree = [] := by
        rw [List.eq_nil_iff_forall_not_mem]
        intro child linked
        exact absent (same ▸ (kept.children other child linked).2.2)
      have notFound : found.map RegulatorNode.name ≠ some other := by
        intro above
        obtain ⟨parent, there, same'⟩ := Option.map_eq_some_iff.mp above
        exact old ((found_iff parent).mp there).1 (same'.trans same)
      rw [noChild, if_neg notFound, if_pos same, List.append_nil, List.nil_append]
      exact (List.Nodup.of_map _ names).filter _
    · rw [if_neg same, List.append_nil]
      split
      · refine List.Nodup.append (kept.once other) (List.nodup_singleton _) ?_
        intro child linked new
        obtain rfl := List.mem_singleton.mp new
        exact old (kept.children other _ linked).1 rfl
      · rw [List.append_nil]
        exact kept.once other

theorem Kept.add {parentName : Option CString} {memory : List Bool} {ret : HdfStatus}
    (kept : Kept s)
    (unlinked : Unlinked (.add name parentName memory) s)
    (added : regulatorNodeAdd name parentName memory s = some (ret, t)) : Kept t := by
  rw [regulatorNodeAdd] at added
  split at added
  · obtain ⟨-, rfl⟩ := Prod.mk.inj (Option.some.inj added)
    exact kept
  rename_i unknown
  have absent : name ∉ s.regulatorHead.map RegulatorNode.name :=
    fun there => unknown (search_isSome_iff.mpr there)
  obtain ⟨notSelf, nonempty, plenty⟩ := unlinked absent
  dsimp only at added
  generalize fresh : (⟨s.registered, name, parentName⟩ : RegulatorNode) = node at added
  obtain rfl : node.name = name := by rw [← fresh]
  obtain rfl : node.parentName = parentName := by rw [← fresh]
  clear fresh
  have sound : Sound { s.tree with memory := memory } := ⟨kept.sound.1, plenty, kept.sound.2⟩
  obtain ⟨ret₁, tree₁, made₁, sound₁, found, found_iff, parents₁, children₁⟩ :=
    regulatorNodeSetParent_spec sound (nodup_append_singleton kept.names absent) notSelf nonempty
  obtain ⟨tree₂, made₂, sound₂, parents₂, children₂⟩ :=
    regulatorNodeSetChild_spec node sound₁ (s.regulatorHead ++ [node])
  have processed : regulatorNodeInitProcess (s.regulatorHead ++ [node]) node
      { s.tree with memory := memory } = some (.success, tree₂) := by
    rw [regulatorNodeInitProcess, made₁, Option.bind_some]
    dsimp only
    rw [made₂, Outcome.andThen_success, sound₂.unlocked]
    rfl
  rw [processed] at added
  obtain ⟨-, rfl⟩ := Prod.mk.inj (Option.some.inj added)
  -- nothing is recorded under the new name before
  have noParent : parentOf node.name { s.tree with memory := memory } = none := by
    rw [Option.eq_none_iff_forall_ne_some]
    intro parent linked
    obtain ⟨-, child, below, same, -⟩ := kept.parents _ parent linked
    exact absent (same ▸ List.mem_map_of_mem below)
  refine kept.link absent notSelf found_iff sound₂ (fun other => ?_) fun other => ?_
  · rw [parents₂, parents₁]
    by_cases same : other = node.name
    · rw [if_pos same, if_pos same, same, noParent, Option.or_none]
    · rw [if_neg same, if_neg same]
      rfl
  · rw [children₂, children₁]
    rfl

theorem Kept.step (kept : Kept s) (unlinked : Unlinked act s) (stepped : step act s = some t) :
    Kept t := by
  cases act with
  | add name parentName memory =>
    obtain ⟨⟨ret, t⟩, added, rfl⟩ := Option.map_eq_some_iff.mp stepped
    exact kept.add unlinked added
  | remove name =>
    obtain rfl := Option.some.inj stepped
    exact kept.remove unlinked
  | removeAll => exact kept.removeAll stepped

/-- A record of the tree is what its name finds. -/
theorem Kept.topology (kept : Kept s) : Topology s where
  parents info member parent linked := by
    refine (kept.parents info.name parent ?_).1
    rw [parentOf, search_of_mem kept.sound.2 member]
    exact linked
  children info member child linked := by
    refine (kept.children info.name child ?_).1
    rw [childrenOf, search_of_mem kept.sound.2 member]
    exact linked
  recorded child below parent above named := by
    obtain ⟨up, down⟩ := kept.recorded child below parent above named
    constructor
    · obtain ⟨info, found, linked⟩ := Option.bind_eq_some_iff.mp up
      exact ⟨info, mem_of_search found, key_of_search found, linked⟩
    · -- a name without a record has no children
      rw [childrenOf] at down
      cases found : search RegulatorTreeInfo.name parent.name s.tree.treeMgrHead with
      | none =>
        rw [found] at down
        cases down
      | some info =>
        rw [found] at down
        exact ⟨info, mem_of_search found, key_of_search found, down⟩
  once info member := by
    have once := kept.once info.name
    rw [childrenOf, search_of_mem kept.sound.2 member] at once
    exact once

/-- In every run of such calls the topology names live nodes, every pair whose names match, and
no child twice. -/
theorem topology_of_unlinked {acts : List Act} (unlinked : Meets step Unlinked start acts)
    (ran : runs step start acts = some s) : Topology s :=
  (runs_invariant (fun _ _ _ kept unlinked stepped => Kept.step kept unlinked stepped) kept_start
    unlinked ran).topology

/-- A child that waits for its parent, and a name that is used again. -/
theorem topology_of_unlinked_again :
    ∃ s, runs step start [.add (.ofAscii "sd") (some (.ofAscii "io")) [],
      .add (.ofAscii "io") none [], .add (.ofAscii "sd") none [], .add (.ofAscii "usb") none [],
      .remove (.ofAscii "usb"), .add (.ofAscii "usb") (some (.ofAscii "io")) []] = some s ∧
      (childrenOf (.ofAscii "io") s.tree).map RegulatorNode.number = [0, 3] ∧ Topology s := by
  have unlinked : Meets step Unlinked start [.add (.ofAscii "sd") (some (.ofAscii "io")) [],
      .add (.ofAscii "io") none [], .add (.ofAscii "sd") none [], .add (.ofAscii "usb") none [],
      .remove (.ofAscii "usb"), .add (.ofAscii "usb") (some (.ofAscii "io")) []] := by
    decide +kernel
  exact ⟨_, rfl, by decide +kernel, topology_of_unlinked unlinked rfl⟩

/-- A regulator that supplies another is removed, and the tree keeps a pointer to the freed node.
A regulator that names itself as its parent is recorded twice under itself. -/
theorem parent_removed :
    (∃ s, runs step start [.add (.ofAscii "io") none [],
      .add (.ofAscii "sd") (some (.ofAscii "io")) [], .remove (.ofAscii "io")] = some s ∧
      parentOf (.ofAscii "sd") s.tree = some ⟨0, .ofAscii "io", none⟩ ∧
      (∀ node ∈ s.regulatorHead, node.number ≠ 0) ∧ ¬ Topology s) ∧
    ∃ s, runs step start [.add (.ofAscii "io") (some (.ofAscii "io")) []] = some s ∧
      ¬ Topology s := by
  refine ⟨⟨_, rfl, by decide +kernel, by decide +kernel, fun topology => ?_⟩, _, rfl,
    fun topology => ?_⟩
  · have live : (⟨0, .ofAscii "io", none⟩ : RegulatorNode) ∈ [(⟨1, .ofAscii "sd",
        some (.ofAscii "io")⟩ : RegulatorNode)] :=
      topology.parents ⟨.ofAscii "sd", some ⟨0, .ofAscii "io", none⟩, []⟩ List.mem_cons_self _ rfl
    revert live
    decide
  · have once := topology.once _ List.mem_cons_self
    revert once
    decide +kernel

end Hdf.Platform.RegulatorTopology
