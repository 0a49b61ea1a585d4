import Hdf.Core.Base
import Hdf.Lib.KeyedList
import Hdf.Utils.CString

/-!
# Regulators

A regulator names the regulator that supplies it. The tree manager keeps what is
known of these links: the parent of a regulator and its children. Enabling a
regulator enables its parent first; disabling one goes on to the parent once no
child is on; forcing one off turns off everything below it before.

A regulator is identified by its name, under which its status is kept. `answers`
tells which calls of the callbacks succeed, in the order in which they are made; a
callback that succeeds has set the status as the virtual driver does. Locks are
taken without contention and allocations succeed. Functions that go along the links
have no result when they run out of fuel.
-/

namespace Hdf.Platform.Regulator

open Hdf.Core KeyedList

/-- `struct RegulatorNode`, as far as it does not change. -/
structure RegulatorNode where
  name : CString
  parentName : Option CString
  alwaysOn : Bool
  deriving DecidableEq

/-- The name of the parent. An empty name stands for no parent. -/
def RegulatorNode.parent? (node : RegulatorNode) : Option CString :=
  node.parentName.filter fun parentName => 0 < parentName.length

/-- `struct RegulatorTreeInfo`. -/
structure RegulatorTreeInfo where
  name : CString
  parent : Option RegulatorNode
  childHead : List RegulatorNode
  deriving DecidableEq

/-- The regulators in the order of their registration, the links that are known, the regulators
that are on and the number of callbacks so far. -/
structure RegulatorManager where
  regulatorHead : List RegulatorNode
  treeMgrHead : List RegulatorTreeInfo
  on : CString → Bool
  calls : ℕ

/-- A regulator with a new status. -/
def RegulatorManager.set (manager : RegulatorManager) (name : CString) (status : Bool) :
    RegulatorManager :=
  { manager with on := Function.update manager.on name status }

@[simp] theorem RegulatorManager.set_on_self (manager : RegulatorManager) (name : CString)
    (status : Bool) : (manager.set name status).on name = status := by
  simp [RegulatorManager.set]

theorem RegulatorManager.set_on_of_ne {manager : RegulatorManager} {name other : CString}
    {status : Bool} (differs : other ≠ name) :
    (manager.set name status).on other = manager.on other := by
  simp [RegulatorManager.set, differs]

/-- Calls a callback. -/
def RegulatorManager.call (manager : RegulatorManager) (answers : ℕ → Bool) :
    Bool × RegulatorManager :=
  (answers manager.calls, { manager with calls := manager.calls + 1 })

/-- Calls a callback of a driver that sets the status when it succeeds. -/
def RegulatorManager.switch (manager : RegulatorManager) (answers : ℕ → Bool) (name : CString)
    (status : Bool) : HdfStatus × RegulatorManager :=
  let (done, manager) := manager.call answers
  if done then (.success, manager.set name status) else (.failure, manager)

theorem switch_cases (manager : RegulatorManager) (answers : ℕ → Bool) (name : CString)
    (status : Bool) :
    manager.switch answers name status = (.success, (manager.call answers).2.set name status) ∨
      manager.switch answers name status = (.failure, (manager.call answers).2) := by
  rw [RegulatorManager.switch]
  dsimp only
  split
  · exact .inl rfl
  · exact .inr rfl

/-! ### The tree manager -/

/-- `RegulatorTreeGetParent`. -/
def regulatorTreeGetParent (name : CString) (manager : RegulatorManager) : Option RegulatorNode :=
  (search RegulatorTreeInfo.name name manager.treeMgrHead).bind RegulatorTreeInfo.parent

/-- `RegulatorTreeGetChild`; a missing list has no children either. -/
def regulatorTreeGetChild (name : CString) (manager : RegulatorManager) : List RegulatorNode :=
  ((search RegulatorTreeInfo.name name manager.treeMgrHead).map RegulatorTreeInfo.childHead).getD []

/-- `RegulatorTreeIsUpNodeComplete`. -/
def regulatorTreeIsUpNodeComplete (manager : RegulatorManager) : ℕ → CString → Option Bool
  | 0, _ => none
  | fuel + 1, name =>
    match regulatorTreeGetParent name manager with
    | none => some false
    | some node =>
      match node.parent? with
      | none => some true
      | some _ => regulatorTreeIsUpNodeComplete manager fuel node.name

/-- `RegulatorTreeIsChildAlwayson`. -/
def regulatorTreeIsChildAlwayson (name : CString) (manager : RegulatorManager) : Bool :=
  (regulatorTreeGetChild name manager).any (·.alwaysOn)

/-- `RegulatorTreeIsChildStatusOn`. -/
def regulatorTreeIsChildStatusOn (name : CString) (manager : RegulatorManager) : Bool :=
  (regulatorTreeGetChild name manager).any fun child => manager.on child.name

/-- `RegulatorTreeIsAllChildDisable`. -/
def regulatorTreeIsAllChildDisable (name : CString) (manager : RegulatorManager) : Bool :=
  (regulatorTreeGetChild name manager).all fun child => !manager.on child.name

/-- `RegulatorTreeManagerNodeInit`. -/
def regulatorTreeManagerNodeInit (name : CString) (manager : RegulatorManager) :
    RegulatorManager :=
  if (search RegulatorTreeInfo.name name manager.treeMgrHead).isSome then manager
  else { manager with
    treeMgrHead := manager.treeMgrHead ++ [{ name := name, parent := none, childHead := [] }] }

/-- `RegulatorTreeSetParent`. -/
def regulatorTreeSetParent (name : CString) (parent : RegulatorNode) (manager : RegulatorManager) :
    RegulatorManager :=
  { manager with
    treeMgrHead := update RegulatorTreeInfo.name name
      (fun pos => { pos with parent := some parent })
      manager.treeMgrHead }

/-- `RegulatorTreeSetChild`. -/
def regulatorTreeSetChild (name : CString) (child : RegulatorNode) (manager : RegulatorManager) :
    RegulatorManager :=
  { manager with
    treeMgrHead := update RegulatorTreeInfo.name name
      (fun pos => { pos with childHead := pos.childHead ++ [child] }) manager.treeMgrHead }

/-- `RegulatorTreeSet`. -/
def regulatorTreeSet (child parent : RegulatorNode) (manager : RegulatorManager) :
    RegulatorManager :=
  regulatorTreeSetChild parent.name child <| regulatorTreeManagerNodeInit parent.name <|
    regulatorTreeSetParent child.name parent <| regulatorTreeManagerNodeInit child.name manager

/-! ### Turning regulators on and off -/

/-- `RegulatorNodeEnable`. -/
def regulatorNodeEnable (answers : ℕ → Bool) :
    ℕ → RegulatorNode → RegulatorManager → Option (HdfStatus × RegulatorManager)
  | 0, _, _ => none
  | fuel + 1, node, manager =>
    if manager.on node.name then some (.success, manager)
    else
      match node.parent? with
      | none => some (manager.switch answers node.name true)
      | some _ =>
        match regulatorTreeGetParent node.name manager with
        | none => some (.failure, manager)
        | some parent =>
          (regulatorNodeEnable answers fuel parent manager).map fun (ret, manager) =>
            if ret ≠ .success then (.failure, manager)
            else manager.switch answers node.name true

/-- The end of the functions that turn a regulator off. What the parent answers is not
passed on. -/
def disableParent
    (disable : RegulatorNode → RegulatorManager → Option (HdfStatus × RegulatorManager))
    (node : RegulatorNode) (manager : RegulatorManager) : Option (HdfStatus × RegulatorManager) :=
  match node.parent? with
  | none => some (.success, manager)
  | some _ =>
    match regulatorTreeGetParent node.name manager with
    | none => some (.failure, manager)
    | some parent => (disable parent manager).map fun (_, manager) => (.success, manager)

/-- `RegulatorNodeDisable`. -/
def regulatorNodeDisable (answers : ℕ → Bool) :
    ℕ → RegulatorNode → RegulatorManager → Option (HdfStatus × RegulatorManager)
  | 0, _, _ => none
  | fuel + 1, node, manager =>
    if !manager.on node.name || node.alwaysOn then some (.success, manager)
    else if !regulatorTreeIsAllChildDisable node.name manager then some (.failure, manager)
    else
      let (ret, manager) := manager.switch answers node.name false
      if ret ≠ .success then some (.failure, manager)
      else disableParent (regulatorNodeDisable answers fuel) node manager

/-- The loop of `RegulatorTreeChildForceDisable`. What the callback returns is not looked at. -/
def forceChildren (answers : ℕ → Bool)
    (below : RegulatorNode → RegulatorManager → Option (HdfStatus × RegulatorManager)) :
    List RegulatorNode → RegulatorManager → Option (HdfStatus × RegulatorManager)
  | [], manager => some (.success, manager)
  | child :: rest, manager =>
    (below child manager).bind fun (ret, manager) =>
      if ret ≠ .success then some (.failure, manager)
      else if manager.on child.name then
        let (_, manager) := manager.call answers
        forceChildren answers below rest (manager.set child.name false)
      else forceChildren answers below rest manager

/-- `RegulatorTreeChildForceDisable`. -/
def regulatorTreeChildForceDisable (answers : ℕ → Bool) :
    ℕ → RegulatorNode → RegulatorManager → Option (HdfStatus × RegulatorManager)
  | 0, _, _ => none
  | fuel + 1, node, manager =>
    forceChildren answers (regulatorTreeChildForceDisable answers fuel)
      (regulatorTreeGetChild node.name manager) manager

/-- `RegulatorNodeForceDisable`. Whether the driver has a `forceDisable` or only a `disable`
makes no difference to the status. -/
def regulatorNodeForceDisable (answers : ℕ → Bool) (fuel : ℕ) (node : RegulatorNode)
    (manager : RegulatorManager) : Option (HdfStatus × RegulatorManager) :=
  if !manager.on node.name then some (.success, manager)
  else
    (regulatorTreeChildForceDisable answers fuel node manager).bind fun (ret, manager) =>
      if ret ≠ .success then some (.failure, manager)
      else
        let (ret, manager) := manager.switch answers node.name false
        if ret ≠ .success then some (.failure, manager)
        else disableParent (regulatorNodeDisable answers fuel) node manager

/-! ### Registration -/

/-- `RegulatorNodeSetParent`. -/
def regulatorNodeSetParent (node : RegulatorNode) (manager : RegulatorManager) : RegulatorManager :=
  match node.parent? with
  | none => manager
  | some parentName =>
    match search RegulatorNode.name parentName manager.regulatorHead with
    | none => manager
    | some pos => regulatorTreeSet node pos manager

/-- `RegulatorNodeSetChild`. -/
def regulatorNodeSetChild (parent : RegulatorNode) (manager : RegulatorManager) :
    RegulatorManager :=
  (manager.regulatorHead.filter fun pos => pos.parentName = some parent.name).foldl
    (fun manager pos => regulatorTreeSet pos parent manager) manager

/-- `RegulatorNodeInitEnable`. -/
def regulatorNodeInitEnable (answers : ℕ → Bool) (fuel : ℕ) (node : RegulatorNode)
    (manager : RegulatorManager) : Option RegulatorManager :=
  if manager.on node.name then some manager
  else if node.alwaysOn || regulatorTreeIsChildAlwayson node.name manager ||
      regulatorTreeIsChildStatusOn node.name manager then
    (regulatorTreeIsUpNodeComplete manager fuel node.name).bind fun complete =>
      if complete then (regulatorNodeEnable answers fuel node manager).map Prod.snd
      else
        some (manager.switch answers node.name true).2
  else some manager

/-- `RegulatorNodeAdd`. -/
def regulatorNodeAdd (answers : ℕ → Bool) (fuel : ℕ) (node : RegulatorNode)
    (manager : RegulatorManager) : Option (HdfStatus × RegulatorManager) :=
  if (search RegulatorNode.name node.name manager.regulatorHead).isSome then
    some (.failure, manager)
  else
    let manager := { manager.set node.name false with
      regulatorHead := manager.regulatorHead ++ [node] }
    let manager := regulatorNodeSetChild node (regulatorNodeSetParent node manager)
    (regulatorNodeInitEnable answers fuel node manager).map fun manager => (.success, manager)

end Hdf.Platform.Regulator
