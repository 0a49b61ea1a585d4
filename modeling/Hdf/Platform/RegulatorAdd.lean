import Hdf.Platform.RegulatorSupply

/-!
# Registering regulators

Regulators are registered one after the other. A new one is linked to its parent
and to its children as far as they are registered. It is enabled if it is always on
or a child is on, and so is what supplies it if all of that is registered already.
Otherwise only the new regulator itself is turned on: a parent that is registered
and off stays off, and nothing turns it on when the rest of its supply is there.

## Main definitions

* `Rooted`: everything that supplies a regulator is registered
* `Wanted`, `Ready`: when a new regulator is turned on, and when that is enough
* `register`: the registration of a regulator whose callbacks succeed

## Main results

* `powered_of_order`: always-on regulators have their supply on in the end
* `unpowered_chain`: an order that leaves the supply of an always-on regulator off
-/

namespace Hdf.Platform.Regulator

open Hdf.Core KeyedList Relation

/-- Everything that supplies a regulator, up to one without a parent, is registered. -/
inductive Rooted (regulators : List RegulatorNode) : RegulatorNode → Prop
  | root {node : RegulatorNode} (top : node.parent? = none) : Rooted regulators node
  | supplied {node parent : RegulatorNode} (there : parent ∈ regulators)
    (named : node.parent? = some parent.name) (rooted : Rooted regulators parent) :
    Rooted regulators node

/-- A new regulator is turned on. -/
def Wanted (node : RegulatorNode) (manager : RegulatorManager) : Prop :=
  node.alwaysOn ∨ ∃ child ∈ manager.regulatorHead, child.parentName = some node.name ∧
    (child.alwaysOn ∨ manager.on child.name)

/-- If a new regulator is turned on, its parent is not registered, or on, or can be turned on. -/
def Ready (node : RegulatorNode) (manager : RegulatorManager) : Prop :=
  Wanted node manager → ∀ parent ∈ manager.regulatorHead, node.parent? = some parent.name →
    manager.on parent.name = true ∨ Rooted manager.regulatorHead node

/-- Before the first registration. -/
def RegulatorManager.empty : RegulatorManager where
  regulatorHead := []
  treeMgrHead := []
  on _ := false
  calls := 0

/-- Registers a regulator, all of whose callbacks succeed. -/
def register (fuel : ℕ) (node : RegulatorNode) (manager : RegulatorManager) :
    Option RegulatorManager :=
  (regulatorNodeAdd (fun _ => true) fuel node manager).map Prod.snd

/-! ### Links -/

section

variable {manager : RegulatorManager} {node parent child : RegulatorNode} {name other : CString}

theorem search_nodeInit :
    search RegulatorTreeInfo.name other (regulatorTreeManagerNodeInit name manager).treeMgrHead =
      (search RegulatorTreeInfo.name other manager.treeMgrHead).or
        (if name = other then some ⟨name, none, []⟩ else none) := by
  rw [regulatorTreeManagerNodeInit]
  split
  · rename_i known
    by_cases same : name = other
    · subst same
      obtain ⟨info, found⟩ := Option.isSome_iff_exists.mp known
      rw [found, Option.some_or]
    · rw [if_neg same, Option.or_none]
  · exact search_append_singleton

theorem getParent_nodeInit :
    regulatorTreeGetParent other (regulatorTreeManagerNodeInit name manager) =
    regulatorTreeGetParent other manager := by
  rw [regulatorTreeGetParent, search_nodeInit, regulatorTreeGetParent]
  cases search RegulatorTreeInfo.name other manager.treeMgrHead with
  | none => split <;> rfl
  | some info => rfl

theorem getChild_nodeInit :
    regulatorTreeGetChild other (regulatorTreeManagerNodeInit name manager) =
    regulatorTreeGetChild other manager := by
  rw [regulatorTreeGetChild, search_nodeInit, regulatorTreeGetChild]
  cases search RegulatorTreeInfo.name other manager.treeMgrHead with
  | none => split <;> rfl
  | some info => rfl

theorem isSome_nodeInit : (search RegulatorTreeInfo.name name
    (regulatorTreeManagerNodeInit name manager).treeMgrHead).isSome := by
  rw [search_nodeInit, if_pos rfl]
  cases search RegulatorTreeInfo.name name manager.treeMgrHead <;> rfl

theorem search_treeSetParent :
    search RegulatorTreeInfo.name other (regulatorTreeSetParent name parent manager).treeMgrHead =
      if other = name then (search RegulatorTreeInfo.name other manager.treeMgrHead).map
        fun pos => { pos with parent := some parent }
      else search RegulatorTreeInfo.name other manager.treeMgrHead :=
  search_update fun _ same => same

theorem search_treeSetChild :
    search RegulatorTreeInfo.name other (regulatorTreeSetChild name child manager).treeMgrHead =
      if other = name then (search RegulatorTreeInfo.name other manager.treeMgrHead).map
        fun pos => { pos with childHead := pos.childHead ++ [child] }
      else search RegulatorTreeInfo.name other manager.treeMgrHead :=
  search_update fun _ same => same

theorem getParent_treeSetParent
    (known : (search RegulatorTreeInfo.name name manager.treeMgrHead).isSome) :
    regulatorTreeGetParent other (regulatorTreeSetParent name parent manager) =
      if other = name then some parent else regulatorTreeGetParent other manager := by
  rw [regulatorTreeGetParent, search_treeSetParent]
  split
  · rename_i same
    subst same
    obtain ⟨info, found⟩ := Option.isSome_iff_exists.mp known
    rw [found]
    rfl
  · rfl

theorem getChild_treeSetParent :
    regulatorTreeGetChild other (regulatorTreeSetParent name parent manager) =
      regulatorTreeGetChild other manager := by
  rw [regulatorTreeGetChild, search_treeSetParent, regulatorTreeGetChild]
  split
  · rw [Option.map_map]
    rfl
  · rfl

theorem getParent_treeSetChild :
    regulatorTreeGetParent other (regulatorTreeSetChild name child manager) =
      regulatorTreeGetParent other manager := by
  rw [regulatorTreeGetParent, search_treeSetChild, regulatorTreeGetParent]
  split
  · rw [Option.bind_map]
    rfl
  · rfl

theorem getChild_treeSetChild
    (known : (search RegulatorTreeInfo.name name manager.treeMgrHead).isSome) :
    regulatorTreeGetChild other (regulatorTreeSetChild name child manager) =
      regulatorTreeGetChild other manager ++ if other = name then [child] else [] := by
  rw [regulatorTreeGetChild, search_treeSetChild, regulatorTreeGetChild]
  split
  · rename_i same
    subst same
    obtain ⟨info, found⟩ := Option.isSome_iff_exists.mp known
    rw [found]
    rfl
  · rw [List.append_nil]

/-- What a link changes about the parents. -/
theorem getParent_treeSet : regulatorTreeGetParent other (regulatorTreeSet child parent manager) =
    if other = child.name then some parent else regulatorTreeGetParent other manager := by
  rw [regulatorTreeSet, getParent_treeSetChild, getParent_nodeInit,
    getParent_treeSetParent isSome_nodeInit, getParent_nodeInit]

/-- What a link changes about the children. -/
theorem getChild_treeSet : regulatorTreeGetChild other (regulatorTreeSet child parent manager) =
    regulatorTreeGetChild other manager ++ if other = parent.name then [child] else [] := by
  rw [regulatorTreeSet, getChild_treeSetChild isSome_nodeInit, getChild_nodeInit,
    getChild_treeSetParent, getChild_nodeInit]

/-- Only links have changed. -/
structure Relinks (manager manager' : RegulatorManager) : Prop where
  regulators : manager'.regulatorHead = manager.regulatorHead
  on : manager'.on = manager.on

theorem relinks_treeSet : Relinks manager (regulatorTreeSet child parent manager) := by
  have init (name : CString) (manager : RegulatorManager) :
      Relinks manager (regulatorTreeManagerNodeInit name manager) := by
    rw [regulatorTreeManagerNodeInit]
    split <;> exact ⟨rfl, rfl⟩
  constructor
  · exact (init _ _).regulators.trans (init _ _).regulators
  · exact (init _ _).on.trans (init _ _).on

/-- Every link is one that a regulator names. -/
structure Sound (manager : RegulatorManager) : Prop where
  parents : ∀ name parent, regulatorTreeGetParent name manager = some parent →
    parent ∈ manager.regulatorHead ∧
      ∃ node ∈ manager.regulatorHead, node.name = name ∧ node.parentName = some parent.name
  children : ∀ name, ∀ child ∈ regulatorTreeGetChild name manager,
    child ∈ manager.regulatorHead ∧ child.parentName = some name

theorem Sound.treeSet (sound : Sound manager) (below : child ∈ manager.regulatorHead)
    (above : parent ∈ manager.regulatorHead) (named : child.parentName = some parent.name) :
    Sound (regulatorTreeSet child parent manager) where
  parents name found linked := by
    rw [relinks_treeSet.regulators]
    rw [getParent_treeSet] at linked
    split at linked
    · rename_i same
      cases linked
      exact ⟨above, child, below, same.symm, named⟩
    · exact sound.parents name found linked
  children name found linked := by
    rw [relinks_treeSet.regulators]
    rw [getChild_treeSet, List.mem_append] at linked
    rcases linked with old | new
    · exact sound.children name found old
    · split at new
      · rename_i same
        rw [List.mem_singleton.mp new, same]
        exact ⟨below, named⟩
      · cases new

/-- The loop of `RegulatorNodeSetChild`. -/
def linkAll (parent : RegulatorNode) (children : List RegulatorNode) (manager : RegulatorManager) :
    RegulatorManager :=
  children.foldl (fun manager pos => regulatorTreeSet pos parent manager) manager

variable {children : List RegulatorNode}

theorem relinks_linkAll : Relinks manager (linkAll parent children manager) := by
  induction children generalizing manager with
  | nil => exact ⟨rfl, rfl⟩
  | cons child children ih =>
    have first : Relinks manager (regulatorTreeSet child parent manager) := relinks_treeSet
    exact ⟨ih.regulators.trans first.regulators, ih.on.trans first.on⟩

theorem Sound.linkAll (sound : Sound manager) (above : parent ∈ manager.regulatorHead)
    (below : ∀ child ∈ children, child ∈ manager.regulatorHead ∧
      child.parentName = some parent.name) : Sound (linkAll parent children manager) := by
  induction children generalizing manager with
  | nil => exact sound
  | cons child children ih =>
    rw [List.forall_mem_cons] at below
    have same : (regulatorTreeSet child parent manager).regulatorHead = manager.regulatorHead :=
      relinks_treeSet.regulators
    refine ih (sound.treeSet below.1.1 above below.1.2) (same ▸ above) fun child member => ?_
    rw [same]
    exact below.2 child member

theorem getParent_linkAll : regulatorTreeGetParent other (linkAll parent children manager) =
    if other ∈ children.map RegulatorNode.name then some parent
    else regulatorTreeGetParent other manager := by
  induction children generalizing manager with
  | nil => rfl
  | cons child children ih =>
    rw [linkAll, List.foldl_cons]
    refine ih.trans ?_
    rw [getParent_treeSet]
    by_cases later : other ∈ children.map RegulatorNode.name <;>
      by_cases here : other = child.name <;> simp [later, here]

theorem getChild_linkAll : regulatorTreeGetChild other (linkAll parent children manager) =
    regulatorTreeGetChild other manager ++ if other = parent.name then children else [] := by
  induction children generalizing manager with
  | nil => simp [linkAll]
  | cons child children ih =>
    rw [linkAll, List.foldl_cons]
    refine ih.trans ?_
    rw [getChild_treeSet]
    split <;> simp

theorem regulatorNodeSetChild_eq : regulatorNodeSetChild parent manager =
    linkAll parent (manager.regulatorHead.filter fun pos => pos.parentName = some parent.name)
      manager := rfl

theorem parentName_of_parent? (named : node.parent? = some name) : node.parentName = some name :=
  (Option.filter_eq_some_iff.mp named).1

theorem regulatorNodeSetParent_spec (sound : Sound manager)
    (member : node ∈ manager.regulatorHead) :
    Relinks manager (regulatorNodeSetParent node manager) ∧
      Sound (regulatorNodeSetParent node manager) ∧
      (∀ other ≠ node.name, regulatorTreeGetParent other (regulatorNodeSetParent node manager) =
        regulatorTreeGetParent other manager) ∧
      ∀ parentName parent, node.parent? = some parentName →
        search RegulatorNode.name parentName manager.regulatorHead = some parent →
        regulatorTreeGetParent node.name (regulatorNodeSetParent node manager) = some parent := by
  rw [regulatorNodeSetParent]
  split
  · rename_i top
    exact ⟨⟨rfl, rfl⟩, sound, fun _ _ => rfl, fun parentName parent named => by
      cases top.symm.trans named⟩
  · rename_i parentName named
    split
    · rename_i missing
      refine ⟨⟨rfl, rfl⟩, sound, fun _ _ => rfl, fun parentName' parent named' found => ?_⟩
      cases named.symm.trans named'
      cases missing.symm.trans found
    · rename_i pos found
      have same : pos.name = parentName := key_of_search found
      refine ⟨relinks_treeSet, sound.treeSet member (mem_of_search found) ?_,
        fun other differs => ?_, fun parentName' parent named' found' => ?_⟩
      · rw [same]
        exact parentName_of_parent? named
      · rw [getParent_treeSet, if_neg differs]
      · cases named.symm.trans named'
        cases found.symm.trans found'
        rw [getParent_treeSet, if_pos rfl]

/-! ### Enabling a new regulator -/

/-- Every registered regulator is linked to its parent if that is registered. -/
def Linked (manager : RegulatorManager) : Prop :=
  ∀ parent node, Supplies manager.regulatorHead parent node →
    regulatorTreeGetParent node.name manager = some parent

variable {rank : RegulatorNode → ℕ} {fuel bound : ℕ}

theorem regulatorTreeIsUpNodeComplete_spec
    (unique : (manager.regulatorHead.map RegulatorNode.name).Nodup) (sound : Sound manager)
    (linked : Linked manager)
    (ranked : ∀ parent child, Supplies manager.regulatorHead parent child →
      rank parent < rank child)
    (member : node ∈ manager.regulatorHead) (named : node.parent? ≠ none)
    (enough : rank node < fuel) :
    ∃ complete, regulatorTreeIsUpNodeComplete manager fuel node.name = some complete ∧
      (complete = true ↔ Rooted manager.regulatorHead node) := by
  induction fuel generalizing node with
  | zero => cases enough
  | succ fuel ih =>
    obtain ⟨parentName, named⟩ := Option.ne_none_iff_exists'.mp named
    rw [regulatorTreeIsUpNodeComplete]
    cases found : regulatorTreeGetParent node.name manager with
    | none =>
      refine ⟨false, rfl, iff_of_false Bool.false_ne_true fun rooted => ?_⟩
      cases rooted with
      | root top => cases named.symm.trans top
      | supplied there named' _ => cases found.symm.trans (linked _ _ ⟨there, member, named'⟩)
    | some parent =>
      obtain ⟨there, other, other_mem, same, raw⟩ := sound.parents _ _ found
      obtain rfl := eq_of_name unique other_mem member same
      have link : other.parent? = some parent.name := by
        rw [named, ← parentName_of_parent? named, raw]
      have rooted_iff : Rooted manager.regulatorHead other ↔
          Rooted manager.regulatorHead parent := by
        refine ⟨fun rooted => ?_, .supplied there link⟩
        cases rooted with
        | root top => cases named.symm.trans top
        | supplied there' named' rooted =>
          have same := Option.some.inj (named'.symm.trans link)
          exact eq_of_name unique there' there same ▸ rooted
      rw [rooted_iff]
      dsimp only
      split
      · rename_i top
        exact ⟨true, rfl, iff_of_true rfl (.root top)⟩
      · rename_i above
        have lower := ranked parent other ⟨there, member, link⟩
        exact ih there (by rw [above]; nofun) (lower.trans_le (Nat.le_of_lt_succ enough))

theorem regulatorNodeEnable_of_rooted
    (unique : (manager.regulatorHead.map RegulatorNode.name).Nodup) (linked : Linked manager)
    (ranked : ∀ parent child, Supplies manager.regulatorHead parent child →
      rank parent < rank child)
    (rooted : Rooted manager.regulatorHead node) (member : node ∈ manager.regulatorHead)
    (enough : rank node < fuel) :
    ∃ manager', regulatorNodeEnable (fun _ => true) fuel node manager =
      some (.success, manager') ∧ Raises manager manager' ∧ manager'.on node.name := by
  induction rooted generalizing fuel with
  | @root node top =>
    obtain ⟨fuel, rfl⟩ := Nat.exists_eq_succ_of_ne_zero (Nat.ne_zero_of_lt enough)
    rw [regulatorNodeEnable]
    split
    · rename_i on
      exact ⟨manager, rfl, ⟨.refl, fun _ => id⟩, on⟩
    · obtain ⟨raises, on⟩ := @raises_switch (fun _ => true) manager _ node unique member
        (fun parent link => by cases top.symm.trans link.2.2) _ rfl
      rw [top]
      exact ⟨_, rfl, raises, on rfl⟩
  | @supplied node parent there named _ ih =>
    obtain ⟨fuel, rfl⟩ := Nat.exists_eq_succ_of_ne_zero (Nat.ne_zero_of_lt enough)
    have link : Supplies manager.regulatorHead parent node := ⟨there, member, named⟩
    rw [regulatorNodeEnable]
    split
    · rename_i on
      exact ⟨manager, rfl, ⟨.refl, fun _ => id⟩, on⟩
    · obtain ⟨manager', enabled, raises, above⟩ :=
        ih there ((ranked parent node link).trans_le (Nat.le_of_lt_succ enough))
      obtain ⟨further, on⟩ := @raises_switch (fun _ => true) manager' _ node
        (raises.regulators ▸ unique) (raises.regulators ▸ member)
        (fun other link' => by
          rw [raises.regulators] at link'
          rw [Option.some.inj (link'.2.2.symm.trans named)]
          exact above) _ rfl
      rw [named]
      dsimp only
      rw [linked parent node link]
      dsimp only
      rw [enabled]
      exact ⟨_, rfl, ⟨raises.toSwitches.trans further.toSwitches,
        fun name before => further.keeps name (raises.keeps name before)⟩, on rfl⟩

theorem regulatorNodeInitEnable_spec
    (unique : (manager.regulatorHead.map RegulatorNode.name).Nodup) (sound : Sound manager)
    (linked : Linked manager)
    (ranked : ∀ parent child, Supplies manager.regulatorHead parent child →
      rank parent < rank child)
    (bounded : ∀ node ∈ manager.regulatorHead, rank node < bound) (enough : bound < fuel)
    (member : node ∈ manager.regulatorHead) (off : manager.on node.name = false)
    (ready : (node.alwaysOn || regulatorTreeIsChildAlwayson node.name manager ||
        regulatorTreeIsChildStatusOn node.name manager) = true →
      ∀ parent, Supplies manager.regulatorHead parent node →
        manager.on parent.name = true ∨ Rooted manager.regulatorHead node) :
    ∃ manager', regulatorNodeInitEnable (fun _ => true) fuel node manager = some manager' ∧
      Raises manager manager' ∧
      if node.alwaysOn || regulatorTreeIsChildAlwayson node.name manager ||
          regulatorTreeIsChildStatusOn node.name manager
      then manager'.on node.name = true else manager' = manager := by
  rw [regulatorNodeInitEnable, if_neg (by rw [off]; exact Bool.false_ne_true)]
  split
  · rename_i wanted
    -- what the answer on the way up says about the supply
    obtain ⟨complete, answered, up, down⟩ : ∃ complete,
        regulatorTreeIsUpNodeComplete manager fuel node.name = some complete ∧
        (complete = true → Rooted manager.regulatorHead node) ∧
        (Rooted manager.regulatorHead node → node.parent? ≠ none → complete = true) := by
      by_cases top : node.parent? = none
      · have rooted : Rooted manager.regulatorHead node := .root top
        obtain ⟨fuel, rfl⟩ := Nat.exists_eq_succ_of_ne_zero (Nat.ne_zero_of_lt enough)
        rw [regulatorTreeIsUpNodeComplete]
        cases found : regulatorTreeGetParent node.name manager with
        | none => exact ⟨false, rfl, fun _ => rooted, fun _ named => absurd top named⟩
        | some parent =>
          dsimp only
          split
          · exact ⟨true, rfl, fun _ => rooted, fun _ named => absurd top named⟩
          · rename_i above
            have there := (sound.parents _ _ found).1
            obtain ⟨complete, answered, -⟩ := regulatorTreeIsUpNodeComplete_spec unique sound linked
              ranked there (by rw [above]; nofun)
              ((bounded parent there).trans_le (Nat.le_of_lt_succ enough))
            exact ⟨complete, answered, fun _ => rooted, fun _ named => absurd top named⟩
      · obtain ⟨complete, answered, exact'⟩ := regulatorTreeIsUpNodeComplete_spec unique sound
          linked ranked member top ((bounded node member).trans enough)
        exact ⟨complete, answered, exact'.mp, fun rooted _ => exact'.mpr rooted⟩
    rw [answered, Option.bind_some]
    cases complete with
    | true =>
      obtain ⟨manager', enabled, raises, on⟩ := regulatorNodeEnable_of_rooted unique linked ranked
        (up rfl) member ((bounded node member).trans enough)
      rw [if_pos rfl, enabled]
      exact ⟨manager', rfl, raises, on⟩
    | false =>
      obtain ⟨raises, on⟩ := @raises_switch (fun _ => true) manager _ node unique member
        (fun parent link => by
          refine (ready wanted parent link).resolve_right fun rooted => ?_
          cases down rooted (by rw [link.2.2]; nofun)) _ rfl
      exact ⟨_, rfl, raises, on rfl⟩
  · exact ⟨manager, rfl, ⟨.refl, fun _ => id⟩, rfl⟩

/-! ### The registration of a regulator -/

/-- After every registration, what is on has its parent on if that is registered, and what is
always on is on. -/
structure Kept (manager : RegulatorManager) : Prop where
  unique : (manager.regulatorHead.map RegulatorNode.name).Nodup
  sound : Sound manager
  linked : Linked manager
  supplied : Supplied manager
  powered : ∀ node ∈ manager.regulatorHead, node.alwaysOn → manager.on node.name

theorem Kept.empty : Kept .empty where
  unique := List.nodup_nil
  sound := ⟨fun _ _ none => (by cases none), fun _ _ none => (by cases none)⟩
  linked _ _ link := by cases link.1
  supplied _ _ link := by cases link.1
  powered _ none := by cases none

/-- The new regulator stands at the end of the list and is off. -/
def RegulatorManager.append (node : RegulatorNode) (manager : RegulatorManager) :
    RegulatorManager :=
  { manager.set node.name false with regulatorHead := manager.regulatorHead ++ [node] }

/-- The new regulator has its links. -/
def RegulatorManager.link (node : RegulatorNode) (manager : RegulatorManager) :
    RegulatorManager :=
  regulatorNodeSetChild node (regulatorNodeSetParent node (manager.append node))

theorem regulatorNodeAdd_eq {answers : ℕ → Bool}
    (fresh : node.name ∉ manager.regulatorHead.map RegulatorNode.name) :
    regulatorNodeAdd answers fuel node manager =
      (regulatorNodeInitEnable answers fuel node (manager.link node)).map
        fun manager => (.success, manager) := by
  rw [regulatorNodeAdd, search_eq_none_iff.mpr fresh]
  rfl

theorem Sound.append (sound : Sound manager) : Sound (manager.append node) where
  parents name parent linked := by
    obtain ⟨there, child, member, named⟩ := sound.parents name parent linked
    exact ⟨List.mem_append_left _ there, child, List.mem_append_left _ member, named⟩
  children name child linked := by
    obtain ⟨there, named⟩ := sound.children name child linked
    exact ⟨List.mem_append_left _ there, named⟩

/-- What the links of a new regulator are. -/
structure IsLinked (node : RegulatorNode) (manager manager' : RegulatorManager) : Prop where
  regulators : manager'.regulatorHead = manager.regulatorHead ++ [node]
  off : manager'.on node.name = false
  old : ∀ other ∈ manager.regulatorHead, manager'.on other.name = manager.on other.name
  unique : (manager'.regulatorHead.map RegulatorNode.name).Nodup
  sound : Sound manager'
  linked : Linked manager'
  children : ∀ child, child ∈ regulatorTreeGetChild node.name manager' ↔
    child ∈ manager'.regulatorHead ∧ child.parentName = some node.name

theorem Kept.link (kept : Kept manager)
    (fresh : node.name ∉ manager.regulatorHead.map RegulatorNode.name) :
    IsLinked node manager (manager.link node) := by
  have member : node ∈ (manager.append node).regulatorHead :=
    List.mem_append_right _ List.mem_cons_self
  obtain ⟨relinks, sound, others, own⟩ :=
    regulatorNodeSetParent_spec (@Sound.append manager node kept.sound) member
  have further : Relinks (regulatorNodeSetParent node (manager.append node)) (manager.link node) :=
    relinks_linkAll
  have regulators : (manager.link node).regulatorHead = manager.regulatorHead ++ [node] :=
    further.regulators.trans relinks.regulators
  have on : (manager.link node).on = (manager.append node).on := further.on.trans relinks.on
  have unique : ((manager.link node).regulatorHead.map RegulatorNode.name).Nodup := by
    rw [regulators, List.map_append, List.nodup_append]
    refine ⟨kept.unique, List.nodup_singleton _, fun name old other new => ?_⟩
    rintro rfl
    rw [List.map_singleton, List.mem_singleton] at new
    exact fresh (new ▸ old)
  have listed (child : RegulatorNode) : child ∈
      ((regulatorNodeSetParent node (manager.append node)).regulatorHead.filter
        fun pos => pos.parentName = some node.name) ↔
      child ∈ manager.regulatorHead ++ [node] ∧ child.parentName = some node.name := by
    rw [List.mem_filter, relinks.regulators, decide_eq_true_iff]
    rfl
  have linkedSound : Sound (manager.link node) :=
    sound.linkAll (relinks.regulators ▸ member) fun child member' =>
      ⟨List.mem_of_mem_filter member', ((listed child).mp member').2⟩
  refine ⟨regulators, ?_, fun other old => ?_, unique, linkedSound, ?_, fun child => ?_⟩
  · rw [on]
    exact RegulatorManager.set_on_self _ _ _
  · rw [on]
    refine RegulatorManager.set_on_of_ne fun same => fresh ?_
    rw [← same]
    exact List.mem_map_of_mem old
  · -- a link is made when the later one of the two regulators is registered
    intro parent child edge
    have ends := edge
    rw [regulators] at ends
    obtain ⟨above, below, named⟩ := ends
    have raw := parentName_of_parent? named
    rw [RegulatorManager.link, regulatorNodeSetChild_eq, getParent_linkAll]
    split
    · rename_i later
      obtain ⟨other, other_mem, same⟩ := List.mem_map.mp later
      obtain ⟨there, named'⟩ := (listed other).mp other_mem
      obtain rfl := eq_of_name unique (regulators ▸ there) edge.2.1 same
      have same := Option.some.inj (named'.symm.trans raw)
      rw [eq_of_name unique (regulators ▸ member) edge.1 same]
    · rename_i earlier
      have other : parent ≠ node := by
        rintro rfl
        exact earlier (List.mem_map_of_mem ((listed child).mpr ⟨below, raw⟩))
      have old := (List.mem_append.mp above).resolve_right fun new =>
        other (List.mem_singleton.mp new)
      rcases List.mem_append.mp below with before | new
      · rw [others]
        · exact kept.linked parent child ⟨old, before, named⟩
        · intro same
          exact fresh (same ▸ List.mem_map_of_mem before)
      · obtain rfl := List.mem_singleton.mp new
        refine own parent.name parent named ?_
        have unique' := unique
        rw [regulators] at unique'
        exact search_of_mem unique' above
  · rw [regulators]
    constructor
    · intro linked
      exact regulators ▸ linkedSound.children node.name child linked
    · intro child_mem
      rw [RegulatorManager.link, regulatorNodeSetChild_eq, getChild_linkAll, if_pos rfl]
      exact List.mem_append_right _ ((listed child).mpr child_mem)

theorem wanted_iff {manager' : RegulatorManager} (links : IsLinked node manager manager') :
    (node.alwaysOn || regulatorTreeIsChildAlwayson node.name manager' ||
      regulatorTreeIsChildStatusOn node.name manager') = true ↔ Wanted node manager := by
  rw [Bool.or_eq_true, Bool.or_eq_true, regulatorTreeIsChildAlwayson, regulatorTreeIsChildStatusOn,
    List.any_eq_true, List.any_eq_true, or_assoc, Wanted]
  constructor
  · rintro (always | ⟨child, linked, on⟩ | ⟨child, linked, on⟩)
    · exact .inl always
    · obtain ⟨there, named⟩ := (links.children child).mp linked
      rw [links.regulators] at there
      rcases List.mem_append.mp there with old | new
      · exact .inr ⟨child, old, named, .inl on⟩
      · exact .inl (List.mem_singleton.mp new ▸ on)
    · obtain ⟨there, named⟩ := (links.children child).mp linked
      rw [links.regulators] at there
      rcases List.mem_append.mp there with old | new
      · rw [links.old child old] at on
        exact .inr ⟨child, old, named, .inr on⟩
      · rw [List.mem_singleton.mp new, links.off] at on
        cases on
  · rintro (always | ⟨child, old, named, on⟩)
    · exact .inl always
    · have linked : child ∈ regulatorTreeGetChild node.name manager' := by
        rw [links.children, links.regulators]
        exact ⟨List.mem_append_left _ old, named⟩
      rcases on with always | on
      · exact .inr (.inl ⟨child, linked, always⟩)
      · exact .inr (.inr ⟨child, linked, (links.old child old).trans on⟩)

theorem Rooted.mono {regulators regulators' : List RegulatorNode}
    (rooted : Rooted regulators node) (subset : regulators ⊆ regulators') :
    Rooted regulators' node := by
  induction rooted with
  | root top => exact .root top
  | supplied there named _ ih => exact .supplied (subset there) named ih

/-- One registration. -/
theorem Kept.register (kept : Kept manager)
    (fresh : node.name ∉ manager.regulatorHead.map RegulatorNode.name)
    (ranked : ∀ parent child, Supplies (manager.regulatorHead ++ [node]) parent child →
      rank parent < rank child)
    (bounded : ∀ other ∈ manager.regulatorHead ++ [node], rank other < bound)
    (enough : bound < fuel) (ready : Ready node manager) :
    ∃ manager', register fuel node manager = some manager' ∧
      manager'.regulatorHead = manager.regulatorHead ++ [node] ∧ Kept manager' := by
  have links := kept.link fresh
  have same := links.regulators
  have member : node ∈ (manager.link node).regulatorHead := by
    rw [same]
    exact List.mem_append_right _ List.mem_cons_self
  have old_or_new {other : RegulatorNode} (there : other ∈ (manager.link node).regulatorHead) :
      other ∈ manager.regulatorHead ∨ other = node := by
    rw [same] at there
    exact (List.mem_append.mp there).imp_right List.mem_singleton.mp
  obtain ⟨manager', enabled, raises, outcome⟩ := regulatorNodeInitEnable_spec links.unique
    links.sound links.linked (same ▸ ranked) (same ▸ bounded) enough member links.off
    fun wanted parent link => by
      have old : parent ∈ manager.regulatorHead := by
        refine (old_or_new link.1).resolve_right ?_
        rintro rfl
        exact lt_irrefl _ (ranked _ _ (same ▸ link))
      rw [links.old parent old, same]
      exact (ready ((wanted_iff links).mp wanted) parent old link.2.2).imp_right
        fun rooted => rooted.mono (List.subset_append_left _ _)
  have regulators : manager'.regulatorHead = (manager.link node).regulatorHead := raises.regulators
  refine ⟨manager', ?_, regulators.trans same, ?_, ?_, ?_, ?_, ?_⟩
  · rw [Regulator.register, regulatorNodeAdd_eq fresh, enabled]
    rfl
  · rw [regulators]
    exact links.unique
  · refine ⟨fun name parent linked => ?_, fun name child linked => ?_⟩
    · rw [raises.getParent] at linked
      rw [regulators]
      exact links.sound.parents name parent linked
    · rw [raises.getChild] at linked
      rw [regulators]
      exact links.sound.children name child linked
  · intro parent child link
    rw [regulators] at link
    rw [raises.getParent]
    exact links.linked parent child link
  · intro parent child link
    rw [regulators] at link
    rcases old_or_new link.1 with oldParent | rfl
    · refine raises.above parent child link fun on => ?_
      rcases old_or_new link.2.1 with oldChild | rfl
      · rw [links.old child oldChild] at on
        rw [links.old parent oldParent]
        exact kept.supplied parent child ⟨oldParent, oldChild, link.2.2⟩ on
      · rw [links.off] at on
        cases on
    · -- the new regulator is turned on if a child is
      intro on
      split at outcome
      · exact outcome
      · rename_i unwanted
        subst outcome
        rw [wanted_iff links] at unwanted
        rcases old_or_new link.2.1 with oldChild | rfl
        · rw [links.old child oldChild] at on
          exact absurd (.inr ⟨child, oldChild, parentName_of_parent? link.2.2, .inr on⟩) unwanted
        · exact on
  · intro other there always
    rw [regulators] at there
    rcases old_or_new there with old | rfl
    · refine raises.keeps _ ?_
      rw [links.old other old]
      exact kept.powered other old always
    · rwa [if_pos ((wanted_iff links).mpr (.inl always))] at outcome

/-- When all regulators have been registered, those that are always on and everything that
supplies them are on, provided that no regulator is turned on while its parent is registered and
off and something further above is not registered. -/
theorem powered_of_order {order : List RegulatorNode}
    (unique : (order.map RegulatorNode.name).Nodup)
    (acyclic : ∀ node, ¬ TransGen (Supplies order) node node) (enough : order.length < fuel)
    (ready : Meets (register fuel) Ready .empty order) :
    ∃ s, runs (register fuel) .empty order = some s ∧ s.regulatorHead = order ∧
      ∀ node ∈ order, node.alwaysOn → s.on node.name = true ∧
        ∀ ancestor, TransGen (Supplies order) ancestor node → s.on ancestor.name = true := by
  obtain ⟨rank, ranked, bounded⟩ := exists_rank acyclic
  have all (rest : List RegulatorNode) : ∀ manager, Kept manager →
      manager.regulatorHead ++ rest = order → Meets (register fuel) Ready manager rest →
      ∃ s, runs (register fuel) manager rest = some s ∧ s.regulatorHead = order ∧ Kept s := by
    induction rest with
    | nil =>
      intro manager kept whole _
      rw [List.append_nil] at whole
      exact ⟨manager, rfl, whole, kept⟩
    | cons node rest ih =>
      intro manager kept whole ready
      have part : manager.regulatorHead ++ [node] ⊆ order := by
        intro other there
        rw [← whole, List.append_cons]
        exact List.mem_append_left _ there
      have fresh : node.name ∉ manager.regulatorHead.map RegulatorNode.name := by
        intro old
        rw [← whole, List.map_append, List.nodup_append] at unique
        exact unique.2.2 _ old _ (List.mem_map_of_mem List.mem_cons_self) rfl
      obtain ⟨manager', registered, regulators, kept'⟩ := kept.register fresh
        (fun parent child link => ranked parent child
          ⟨part link.1, part link.2.1, link.2.2⟩)
        (fun other there => bounded other (part there)) enough ready.1
      obtain ⟨s, ran, complete, final⟩ := ih manager' kept'
        (by rw [regulators, List.append_assoc]; exact whole) (ready.2 manager' registered)
      exact ⟨s, by rw [runs_cons, registered, Option.bind_some, ran], complete, final⟩
  obtain ⟨s, ran, regulators, kept⟩ := all order .empty .empty rfl ready
  refine ⟨s, ran, regulators, fun node member always => ?_⟩
  have on := kept.powered node (regulators ▸ member) always
  exact ⟨on, fun ancestor path => kept.supplied.ancestor (regulators ▸ path) on⟩

end

/-! ### Three regulators in a row -/

/-- The regulator above. -/
def source : RegulatorNode := ⟨.ofAscii "source", none, false⟩

/-- The regulator between. -/
def between : RegulatorNode := ⟨.ofAscii "between", some (.ofAscii "source"), false⟩

/-- The regulator below, which is always on. -/
def always : RegulatorNode := ⟨.ofAscii "always", some (.ofAscii "between"), true⟩

/-- The place of a regulator in the row. -/
private def place (node : RegulatorNode) : ℕ :=
  if node = source then 0 else if node = between then 1 else 2

private theorem acyclic_of_place {order : List RegulatorNode}
    (up : ∀ parent ∈ order, ∀ child ∈ order, child.parent? = some parent.name →
      place parent < place child) (node : RegulatorNode) :
    ¬ TransGen (Supplies order) node node :=
  acyclic_of_rank place
    (fun parent child link => up parent link.1 child link.2.1 link.2.2) node

theorem powered_chain : ∃ s, runs (register 4) .empty [source, between, always] = some s ∧
    s.on always.name = true ∧ s.on source.name = true := by
  have acyclic := @acyclic_of_place [source, between, always] (by decide)
  have ready : Meets (register 4) Ready .empty [source, between, always] := by
    have rooted : Rooted [source] between := .supplied List.mem_cons_self rfl (.root rfl)
    refine ⟨fun _ _ none => absurd none List.not_mem_nil, fun s first => ⟨?_, fun t second =>
      ⟨?_, fun _ _ => trivial⟩⟩⟩
    · cases first
      exact fun _ _ _ _ => .inr rooted
    · cases first
      cases second
      refine fun _ _ _ _ => .inr (@Rooted.supplied _ always between (by decide) rfl ?_)
      exact rooted.mono (List.subset_append_left _ _)
  obtain ⟨s, ran, -, powered⟩ := @powered_of_order 4 [source, between, always] (by decide) acyclic
    (by decide) ready
  obtain ⟨on, above⟩ := powered always (by decide) rfl
  have first : Supplies [source, between, always] source between :=
    ⟨by decide, by decide, rfl⟩
  have second : Supplies [source, between, always] between always :=
    ⟨by decide, by decide, rfl⟩
  exact ⟨s, ran, on, above source (.tail (.single first) second)⟩

/-- The regulator between is registered first, and the one above last. -/
theorem unpowered_chain : ([between, always, source].map RegulatorNode.name).Nodup ∧
    (∀ node, ¬ TransGen (Supplies [between, always, source]) node node) ∧
    ∃ s, runs (register 4) .empty [between, always, source] = some s ∧
      always.alwaysOn = true ∧ Supplies [between, always, source] between always ∧
      s.on between.name = false ∧ s.on source.name = false :=
  ⟨by decide, acyclic_of_place (by decide), _, rfl, rfl, ⟨by decide, by decide, rfl⟩, rfl, rfl⟩

end Hdf.Platform.Regulator
