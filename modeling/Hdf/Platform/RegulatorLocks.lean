import Hdf.Lib.Locks
import Hdf.Platform.RegulatorAdd

/-!
# The locks of regulators

Every regulator has a lock, and the tree manager has one. Enabling and disabling a
regulator hold its lock while they go on to the parent, so they take locks upwards.
Forcing a regulator off holds its lock while it takes those of everything below it,
one at a time. The lock of the tree manager is taken for every lookup of a link and
given back at once, except when an entry for a regulator cannot be allocated.

Every lock that is taken or released, every callback and every access to what the
regulators share is one step. A callback may succeed or fail, and so may every attempt
to take a lock. The functions are those of the sequential model with their locks.

## Main definitions

* `Lock`, `Procedure`, `Operation`: the locks, and the functions that take them
* `Linked`: the links that are known are links of a tree
* `Orderly`: no operation begins below a regulator that is being forced off

## Main results

* `deadlockFree_of_orderly`: orderly operations do not deadlock
* `force_meets_disable`: forcing a regulator off meets disabling its child
-/

namespace Hdf.Platform.Regulator.Locking

open Hdf.Core KeyedList Relation Hdf.Locks

/-- The mutexes. -/
inductive Lock where
  | node (node : RegulatorNode)
  | tree
  deriving DecidableEq

/-- The functions that call themselves. -/
inductive Procedure where
  | enable (node : RegulatorNode)
  | disable (node : RegulatorNode)
  | childForceDisable (node : RegulatorNode)
  | isUpNodeComplete (name : CString)

/-- What they return. -/
@[reducible] def Procedure.Result : Procedure → Type
  | enable _ | disable _ | childForceDisable _ => HdfStatus
  | isUpNodeComplete _ => Bool

/-- Code that runs on the regulators. -/
abbrev Code (α : Type) := Program RegulatorManager Lock Procedure.Result α

/-! ### The tree manager -/

/-- `RegulatorTreeGetParent`. -/
def regulatorTreeGetParent (name : CString) : Code (Option RegulatorNode) := do
  if ← lock .tree then
    let parent ← get (Regulator.regulatorTreeGetParent name)
    unlock .tree
    pure parent
  else pure none

/-- `RegulatorTreeGetChild`, and the children in the list that it returns, which are read
without the lock. -/
def regulatorTreeGetChild (name : CString) : Code (List RegulatorNode) := do
  if ← lock .tree then
    unlock .tree
    let children ← get (Regulator.regulatorTreeGetChild name)
    pure children
  else pure []

/-- `RegulatorTreeIsUpNodeComplete`. -/
def regulatorTreeIsUpNodeComplete (name : CString) : Code Bool := do
  match ← regulatorTreeGetParent name with
  | none => pure false
  | some node =>
    match node.parent? with
    | none => pure true
    | some _ => do
      let complete ← invoke (Procedure.isUpNodeComplete node.name)
      pure complete

/-- `RegulatorTreeIsChildAlwayson`. -/
def regulatorTreeIsChildAlwayson (name : CString) : Code Bool := do
  let children ← regulatorTreeGetChild name
  pure (children.any (·.alwaysOn))

/-- `RegulatorTreeIsChildStatusOn`. -/
def regulatorTreeIsChildStatusOn (name : CString) : Code Bool := do
  let children ← regulatorTreeGetChild name
  let on ← get fun manager => children.any fun child => manager.on child.name
  pure on

/-- `RegulatorTreeIsAllChildDisable`. -/
def regulatorTreeIsAllChildDisable (name : CString) : Code Bool := do
  let children ← regulatorTreeGetChild name
  let off ← get fun manager => children.all fun child => !manager.on child.name
  pure off

/-- `RegulatorTreeManagerNodeInit`. It returns with the lock when the allocation fails. -/
def regulatorTreeManagerNodeInit (name : CString) (allocated : Bool) : Code HdfStatus := do
  if ← lock .tree then
    if ← get fun manager => (search RegulatorTreeInfo.name name manager.treeMgrHead).isSome then
      unlock .tree
      pure .success
    else if allocated then
      let _ ← attempt fun manager _ => Regulator.regulatorTreeManagerNodeInit name manager
      unlock .tree
      pure .success
    else pure .failure
  else pure .deviceBusy

/-- `RegulatorTreeSetParent`. -/
def regulatorTreeSetParent (name : CString) (parent : RegulatorNode) : Code HdfStatus := do
  if ← lock .tree then
    if ← get fun manager => (search RegulatorTreeInfo.name name manager.treeMgrHead).isSome then
      let _ ← attempt fun manager _ => Regulator.regulatorTreeSetParent name parent manager
      unlock .tree
      pure .success
    else
      unlock .tree
      pure .failure
  else pure .deviceBusy

/-- `RegulatorTreeSetChild`, with the allocation in `RegulatorChildNodeAdd`. -/
def regulatorTreeSetChild (name : CString) (child : RegulatorNode) : Code HdfStatus := do
  if ← lock .tree then
    if ← get fun manager => (search RegulatorTreeInfo.name name manager.treeMgrHead).isSome then
      let added ← attempt fun manager allocated =>
        if allocated then Regulator.regulatorTreeSetChild name child manager else manager
      unlock .tree
      pure (if added then .success else .failure)
    else
      unlock .tree
      pure .failure
  else pure .deviceBusy

/-- `RegulatorTreeSet`, where the entries for the child and the parent can be allocated or not. -/
def regulatorTreeSet (child parent : RegulatorNode) (first second : Bool) : Code HdfStatus := do
  if (← regulatorTreeManagerNodeInit child.name first) ≠ .success then pure .failure
  else if (← regulatorTreeSetParent child.name parent) ≠ .success then pure .failure
  else if (← regulatorTreeManagerNodeInit parent.name second) ≠ .success then pure .failure
  else if (← regulatorTreeSetChild parent.name child) ≠ .success then pure .failure
  else pure .success

/-! ### Turning regulators on and off -/

/-- A callback of a driver that sets the status when it succeeds. -/
def switch (name : CString) (status : Bool) : Code Bool :=
  attempt fun manager done => if done then manager.set name status else manager

/-- What `RegulatorNodeEnable` does for the parent. -/
def enableParent (node : RegulatorNode) : Code Bool :=
  match node.parent? with
  | none => pure true
  | some _ => do
    match ← regulatorTreeGetParent node.name with
    | none => pure false
    | some parent => do
      let ret ← invoke (Procedure.enable parent)
      pure (ret = .success)

/-- `RegulatorNodeEnable`. -/
def regulatorNodeEnable (node : RegulatorNode) : Code HdfStatus := do
  if ← get fun manager => manager.on node.name then pure .success
  else if ← lock (.node node) then
    if ← enableParent node then
      let done ← switch node.name true
      unlock (.node node)
      pure (if done then .success else .failure)
    else
      unlock (.node node)
      pure .failure
  else pure .deviceBusy

/-- The end of the functions that turn a regulator off. -/
def disableParent (node : RegulatorNode) : Code HdfStatus :=
  match node.parent? with
  | none => pure .success
  | some _ => do
    match ← regulatorTreeGetParent node.name with
    | none => pure .failure
    | some parent => do
      let _ ← invoke (Procedure.disable parent)
      pure .success

/-- What `RegulatorNodeDisable` does with the lock. -/
def disableLocked (node : RegulatorNode) : Code HdfStatus := do
  if ← regulatorTreeIsAllChildDisable node.name then
    if ← switch node.name false then disableParent node
    else pure .failure
  else pure .failure

/-- `RegulatorNodeDisable`. -/
def regulatorNodeDisable (node : RegulatorNode) : Code HdfStatus := do
  if ← get fun manager => !manager.on node.name || node.alwaysOn then pure .success
  else if ← lock (.node node) then
    let ret ← disableLocked node
    unlock (.node node)
    pure ret
  else pure .deviceBusy

/-- What the loop of `RegulatorTreeChildForceDisable` does with the lock of a child. -/
def turnOff (child : RegulatorNode) : Code Unit := do
  if ← get fun manager => manager.on child.name then
    let _ ← attempt fun manager _ => manager.set child.name false
    pure ()
  else pure ()

/-- The loop of `RegulatorTreeChildForceDisable`. -/
def forceChildren : List RegulatorNode → Code HdfStatus
  | [] => pure .success
  | child :: rest => do
    let ret ← invoke (Procedure.childForceDisable child)
    if ret ≠ .success then pure .failure
    else if ← lock (.node child) then
      turnOff child
      unlock (.node child)
      forceChildren rest
    else pure .deviceBusy

/-- `RegulatorTreeChildForceDisable`. -/
def regulatorTreeChildForceDisable (node : RegulatorNode) : Code HdfStatus := do
  let children ← regulatorTreeGetChild node.name
  forceChildren children

/-- What `RegulatorNodeForceDisable` does with the lock. -/
def forceLocked (node : RegulatorNode) : Code HdfStatus := do
  if ← get fun manager => manager.on node.name then
    let ret ← invoke (Procedure.childForceDisable node)
    if ret ≠ .success then pure .failure
    else if ← switch node.name false then disableParent node
    else pure .failure
  else pure .success

/-- `RegulatorNodeForceDisable`. -/
def regulatorNodeForceDisable (node : RegulatorNode) : Code HdfStatus := do
  if ← lock (.node node) then
    let ret ← forceLocked node
    unlock (.node node)
    pure ret
  else pure .deviceBusy

/-- `RegulatorNodeInitEnable`. -/
def regulatorNodeInitEnable (node : RegulatorNode) : Code Unit := do
  if ← get fun manager => manager.on node.name then pure ()
  else
    let isChildAlwayson ← regulatorTreeIsChildAlwayson node.name
    let isChildOn ← regulatorTreeIsChildStatusOn node.name
    if node.alwaysOn || isChildAlwayson || isChildOn then
      let complete ← invoke (Procedure.isUpNodeComplete node.name)
      if complete then
        let _ ← invoke (Procedure.enable node)
        pure ()
      else if ← lock (.node node) then
        let _ ← switch node.name true
        unlock (.node node)
        pure ()
      else pure ()
    else pure ()

/-- The bodies of the functions that call themselves. -/
def body : (p : Procedure) → Code p.Result
  | .enable node => regulatorNodeEnable node
  | .disable node => regulatorNodeDisable node
  | .childForceDisable node => regulatorTreeChildForceDisable node
  | .isUpNodeComplete name => regulatorTreeIsUpNodeComplete name

/-- The operations that threads run. -/
inductive Operation where
  | enable (node : RegulatorNode)
  | disable (node : RegulatorNode)
  | forceDisable (node : RegulatorNode)
  | initEnable (node : RegulatorNode)
  | treeSet (child parent : RegulatorNode) (first second : Bool)

/-- The code of an operation. -/
def code : Operation → Code Unit
  | .enable node => do
    let _ ← invoke (Procedure.enable node)
    pure ()
  | .disable node => do
    let _ ← invoke (Procedure.disable node)
    pure ()
  | .forceDisable node => do
    let _ ← regulatorNodeForceDisable node
    pure ()
  | .initEnable node => regulatorNodeInitEnable node
  | .treeSet child parent first second => do
    let _ ← regulatorTreeSet child parent first second
    pure ()

/-- The regulators and the threads that run operations on them. -/
abbrev State := System RegulatorManager Lock Operation Procedure.Result

/-- An operation begins, or a thread makes a step. -/
def step (action : Action Operation) (s : State) : Option State :=
  Locks.step body code action s

/-! ### The discipline of the regulators -/

/-- The regulators are a tree, or several of them. -/
structure Forest (regulators : List RegulatorNode) : Prop where
  unique : (regulators.map RegulatorNode.name).Nodup
  acyclic : ∀ node, ¬ TransGen (Supplies regulators) node node

/-- The links that are known are links of the tree. -/
structure Linked (regulators : List RegulatorNode) (manager : RegulatorManager) : Prop where
  parents : ∀ name parent, Regulator.regulatorTreeGetParent name manager = some parent →
    ∀ child ∈ regulators, child.name = name → Supplies regulators parent child
  children : ∀ name, ∀ child ∈ Regulator.regulatorTreeGetChild name manager,
    ∀ parent ∈ regulators, parent.name = name → Supplies regulators parent child

/-- A regulator is below another one. -/
def Below (regulators : List RegulatorNode) (child parent : RegulatorNode) : Prop :=
  TransGen (Supplies regulators) parent child

/-- The regulator that an operation is about. -/
def Operation.target : Operation → Option RegulatorNode
  | .enable node | .disable node | .forceDisable node | .initEnable node => some node
  | .treeSet _ _ _ _ => none

/-- The regulators of an operation are registered, and a link that is set is one of the tree.
The entries that the tree manager needs for it can be allocated. -/
def Operation.Fits (regulators : List RegulatorNode) : Operation → Prop
  | .enable node | .disable node | .forceDisable node | .initEnable node => node ∈ regulators
  | .treeSet child parent first second =>
    Supplies regulators parent child ∧ first = true ∧ second = true

/-- An operation does not begin below a regulator that another one forces off. -/
def Operation.Avoids (regulators : List RegulatorNode) (op op' : Operation) : Prop :=
  ∀ node node', op = .forceDisable node → op'.target = some node' → ¬ Below regulators node' node

/-- The steps of operations that keep out of each other's way. -/
def Orderly (regulators : List RegulatorNode) (action : Action Operation) (s : State) : Prop :=
  match action with
  | .start op => op.Fits regulators ∧ ∀ thread ∈ s.threads, thread.Runs →
      thread.op.Avoids regulators op ∧ op.Avoids regulators thread.op
  | .advance _ _ => True

/-- A rank that goes up along the tree. -/
structure Ranked (regulators : List RegulatorNode) (rank : RegulatorNode → ℕ) : Prop where
  up : ∀ parent child, Supplies regulators parent child → rank child < rank parent
  below : ∀ node ∈ regulators, rank node < regulators.length

/-- The lock of the tree manager is above all others. -/
def rankOf (regulators : List RegulatorNode) (rank : RegulatorNode → ℕ) : Lock → ℕ
  | .node node => rank node
  | .tree => regulators.length

section

variable (regulators : List RegulatorNode) (rank : RegulatorNode → ℕ) (op : Operation)

/-- All locks that are held have a lower rank. -/
def Under (bound : ℕ) (held : List Lock) : Prop :=
  ∀ l ∈ held, rankOf regulators rank l < bound

/-- A regulator is the one that an operation is about, or above it. -/
def Covers (node : RegulatorNode) : Prop :=
  node ∈ regulators ∧ ∃ target, op.target = some target ∧
    ReflTransGen (Supplies regulators) node target

/-- The locks that an operation may take: upwards, or downwards from a regulator that it
forces off. -/
def May (l : Lock) (held : List Lock) : Prop :=
  (Under regulators rank (rankOf regulators rank l) held ∧
      ∀ node, l = .node node → Covers regulators op node) ∨
    ∃ node child, op = .forceDisable node ∧ l = .node child ∧ held = [.node node] ∧
      Below regulators child node

/-- The procedures that an operation may call. -/
def Pre : Procedure → List Lock → Prop
  | .enable node, held | .disable node, held =>
    Covers regulators op node ∧ Under regulators rank (rank node) held
  | .childForceDisable node, held => node ∈ regulators ∧ ∃ target, op = .forceDisable target ∧
      held = [.node target] ∧ ReflTransGen (Supplies regulators) target node
  | .isUpNodeComplete _, held => Under regulators rank regulators.length held

/-- Code that follows the discipline of an operation. -/
abbrev Obeys {α : Type} (base : List Lock) (post : α → Prop) (held : List Lock)
    (program : Code α) : Prop :=
  Follows (Linked regulators) (May regulators rank op) (Pre regulators rank op) base post held
    program

end

section

variable {regulators : List RegulatorNode} {rank : RegulatorNode → ℕ} {op : Operation}
  {held : List Lock} {name : CString} {node : RegulatorNode}

theorem may_tree (low : Under regulators rank regulators.length held) :
    May regulators rank op .tree held :=
  .inl ⟨low, fun _ same => nomatch same⟩

theorem may_node (covers : Covers regulators op node)
    (low : Under regulators rank (rank node) held) : May regulators rank op (.node node) held := by
  refine .inl ⟨low, fun node' same => ?_⟩
  cases same
  exact covers

theorem Under.mono {bound bound' : ℕ} (under : Under regulators rank bound held)
    (le : bound ≤ bound') : Under regulators rank bound' held :=
  fun l member => (under l member).trans_le le

theorem Under.cons {bound : ℕ} {l : Lock} (first : rankOf regulators rank l < bound)
    (rest : Under regulators rank bound held) : Under regulators rank bound (l :: held) := by
  intro l' member
  rcases List.mem_cons.mp member with rfl | member
  · exact first
  · exact rest l' member

/-! ### The tree manager -/

theorem obeys_getParent (low : Under regulators rank regulators.length held) :
    Obeys regulators rank op held (fun parent => ∀ node ∈ parent, ∀ child ∈ regulators,
      child.name = name → Supplies regulators node child) held (regulatorTreeGetParent name) :=
  .lock (may_tree low)
    (.get fun _ linked => .unlock (.pure fun parent found => linked.parents name parent found))
    (.pure fun _ none => nomatch none)

theorem obeys_getChild (low : Under regulators rank regulators.length held) :
    Obeys regulators rank op held (fun children => ∀ child ∈ children, ∀ parent ∈ regulators,
      parent.name = name → Supplies regulators parent child) held (regulatorTreeGetChild name) :=
  .lock (may_tree low) (.unlock (.get fun _ linked => .pure (linked.children name)))
    (.pure fun _ none => absurd none List.not_mem_nil)

theorem obeys_isUpNodeComplete (low : Under regulators rank regulators.length held) :
    Obeys regulators rank op held (fun _ => True) held (regulatorTreeIsUpNodeComplete name) := by
  refine .seq (obeys_getParent low) fun parent _ => ?_
  cases parent with
  | none => exact .pure trivial
  | some node =>
    dsimp only
    split
    · exact .pure trivial
    · exact .invoke low fun _ => .pure trivial

theorem obeys_isChildAlwayson (low : Under regulators rank regulators.length held) :
    Obeys regulators rank op held (fun _ => True) held (regulatorTreeIsChildAlwayson name) :=
  .seq (obeys_getChild low) fun _ _ => .pure trivial

theorem obeys_isChildStatusOn (low : Under regulators rank regulators.length held) :
    Obeys regulators rank op held (fun _ => True) held (regulatorTreeIsChildStatusOn name) :=
  .seq (obeys_getChild low) fun _ _ => .get fun _ _ => .pure trivial

theorem obeys_isAllChildDisable (low : Under regulators rank regulators.length held) :
    Obeys regulators rank op held (fun _ => True) held (regulatorTreeIsAllChildDisable name) :=
  .seq (obeys_getChild low) fun _ _ => .get fun _ _ => .pure trivial

/-! ### Going up -/

theorem Linked.set {manager : RegulatorManager} (linked : Linked regulators manager)
    (name : CString) (status : Bool) : Linked regulators (manager.set name status) :=
  ⟨linked.parents, linked.children⟩

theorem obeys_switch {α : Type} {base : List Lock} {post : α → Prop} {status : Bool}
    {rest : Bool → Code α} (next : ∀ done, Obeys regulators rank op base post held (rest done)) :
    Obeys regulators rank op base post held (switch name status >>= rest) := by
  refine .attempt (fun manager done linked => ?_) next
  split
  · exact linked.set name status
  · exact linked

theorem obeys_initEnable (covers : Covers regulators op node) :
    Obeys regulators rank op [] (fun _ => True) [] (regulatorNodeInitEnable node) := by
  have low {bound : ℕ} : Under regulators rank bound [] :=
    fun _ none => absurd none List.not_mem_nil
  refine .get fun manager _ => ?_
  split
  · exact .pure trivial
  · refine .seq (obeys_isChildAlwayson low) fun isChildAlwayson _ => ?_
    refine .seq (obeys_isChildStatusOn low) fun isChildOn _ => ?_
    split
    · refine .invoke low fun complete => ?_
      cases complete with
      | true => exact .invoke ⟨covers, low⟩ fun _ => .pure trivial
      | false =>
        exact .lock (may_node covers low) (obeys_switch fun _ => .unlock (.pure trivial))
          (.pure trivial)
    · exact .pure trivial

variable (ranked : Ranked regulators rank)

include ranked

/-- The tree manager's lock is above that of a regulator. -/
theorem Ranked.low (member : node ∈ regulators) (under : Under regulators rank (rank node) held) :
    Under regulators rank regulators.length (.node node :: held) :=
  .cons (ranked.below node member) (under.mono (ranked.below node member).le)

/-- A parent is above a regulator whose lock is held. -/
theorem Ranked.parent {parent : RegulatorNode} (link : Supplies regulators parent node)
    (covers : Covers regulators op node) (under : Under regulators rank (rank node) held) :
    Covers regulators op parent ∧
      Under regulators rank (rank parent) (.node node :: held) := by
  have higher := ranked.up parent node link
  obtain ⟨-, target, targeted, path⟩ := covers
  exact ⟨⟨link.1, target, targeted, .head link path⟩, .cons higher (under.mono higher.le)⟩

theorem obeys_enableParent (covers : Covers regulators op node)
    (under : Under regulators rank (rank node) held) :
    Obeys regulators rank op (.node node :: held) (fun _ => True) (.node node :: held)
      (enableParent node) := by
  rw [enableParent]
  split
  · exact .pure trivial
  · refine .seq (obeys_getParent (ranked.low covers.1 under)) fun parent known => ?_
    cases parent with
    | none => exact .pure trivial
    | some parent =>
      have link := known parent rfl node covers.1 rfl
      exact .invoke (ranked.parent link covers under) fun _ => .pure trivial

theorem obeys_enable (covers : Covers regulators op node)
    (under : Under regulators rank (rank node) held) :
    Obeys regulators rank op held (fun _ => True) held (regulatorNodeEnable node) := by
  refine .get fun manager _ => ?_
  split
  · exact .pure trivial
  · refine .lock (may_node covers under) ?_ (.pure trivial)
    refine .seq (obeys_enableParent ranked covers under) fun enabled _ => ?_
    cases enabled with
    | true => exact obeys_switch fun done => .unlock (.pure trivial)
    | false => exact .unlock (.pure trivial)

theorem obeys_disableParent (covers : Covers regulators op node)
    (under : Under regulators rank (rank node) held) :
    Obeys regulators rank op (.node node :: held) (fun _ => True) (.node node :: held)
      (disableParent node) := by
  rw [disableParent]
  split
  · exact .pure trivial
  · refine .seq (obeys_getParent (ranked.low covers.1 under)) fun parent known => ?_
    cases parent with
    | none => exact .pure trivial
    | some parent =>
      have link := known parent rfl node covers.1 rfl
      exact .invoke (ranked.parent link covers under) fun _ => .pure trivial

theorem obeys_disableLocked (covers : Covers regulators op node)
    (under : Under regulators rank (rank node) held) :
    Obeys regulators rank op (.node node :: held) (fun _ => True) (.node node :: held)
      (disableLocked node) := by
  refine .seq (obeys_isAllChildDisable (ranked.low covers.1 under)) fun off _ => ?_
  cases off with
  | false => exact .pure trivial
  | true =>
    refine obeys_switch fun done => ?_
    cases done with
    | true => exact obeys_disableParent ranked covers under
    | false => exact .pure trivial

theorem obeys_disable (covers : Covers regulators op node)
    (under : Under regulators rank (rank node) held) :
    Obeys regulators rank op held (fun _ => True) held (regulatorNodeDisable node) := by
  refine .get fun manager _ => ?_
  split
  · exact .pure trivial
  · refine .lock (may_node covers under) ?_ (.pure trivial)
    exact .seq (obeys_disableLocked ranked covers under) fun ret _ => .unlock (.pure trivial)

/-! ### Going down -/

omit ranked in
theorem obeys_forceChildren {target : RegulatorNode} {children : List RegulatorNode}
    (below : ∀ child ∈ children, child ∈ regulators ∧ Below regulators child target) :
    Obeys regulators rank (.forceDisable target) [.node target] (fun _ => True) [.node target]
      (forceChildren children) := by
  induction children with
  | nil => exact .pure trivial
  | cons child rest ih =>
    obtain ⟨member, path⟩ := below child List.mem_cons_self
    refine .invoke ⟨member, target, rfl, rfl, path.to_reflTransGen⟩ fun ret => ?_
    split
    · exact .pure trivial
    · refine .lock (.inr ⟨target, child, rfl, rfl, rfl, path⟩) ?_ (.pure trivial)
      have off : Obeys regulators rank (.forceDisable target) [.node child, .node target]
          (fun _ => True) [.node child, .node target] (turnOff child) := by
        refine .get fun manager _ => ?_
        split
        · exact .attempt (fun manager _ linked => linked.set child.name false) fun _ =>
            .pure trivial
        · exact .pure trivial
      exact .seq off fun _ _ => .unlock (ih fun child' member' =>
        below child' (List.mem_cons_of_mem _ member'))

theorem obeys_childForceDisable {target : RegulatorNode} (member : node ∈ regulators)
    (path : ReflTransGen (Supplies regulators) target node) :
    Obeys regulators rank (.forceDisable target) [.node target] (fun _ => True) [.node target]
      (regulatorTreeChildForceDisable node) := by
  have top : target ∈ regulators := by
    rcases path.cases_head with rfl | ⟨_, link, -⟩
    · exact member
    · exact link.1
  refine .seq (obeys_getChild (ranked.low top fun _ none => absurd none List.not_mem_nil))
    fun children known => obeys_forceChildren fun child listed => ?_
  have link := known child listed node member rfl
  exact ⟨link.2.1, TransGen.tail' path link⟩

theorem obeys_forceDisable (member : node ∈ regulators) :
    Obeys regulators rank (.forceDisable node) [] (fun _ => True) []
      (regulatorNodeForceDisable node) := by
  have covers : Covers regulators (.forceDisable node) node := ⟨member, node, rfl, .refl⟩
  have under : Under regulators rank (rank node) [] := fun _ none => absurd none List.not_mem_nil
  have locked : Obeys regulators rank (.forceDisable node) [.node node] (fun _ => True)
      [.node node] (forceLocked node) := by
    refine .get fun manager _ => ?_
    split
    · refine .invoke ⟨member, node, rfl, rfl, .refl⟩ fun ret => ?_
      split
      · exact .pure trivial
      · refine obeys_switch fun done => ?_
        cases done with
        | true => exact obeys_disableParent ranked covers under
        | false => exact .pure trivial
    · exact .pure trivial
  exact .lock (may_node covers under) (.seq locked fun ret _ => .unlock (.pure trivial))
    (.pure trivial)

theorem obeys_body (p : Procedure) (allowed : Pre regulators rank op p held) :
    Obeys regulators rank op held (fun _ => True) held (body p) := by
  cases p with
  | enable node => exact obeys_enable ranked allowed.1 allowed.2
  | disable node => exact obeys_disable ranked allowed.1 allowed.2
  | childForceDisable node =>
    obtain ⟨member, target, rfl, rfl, path⟩ := allowed
    exact obeys_childForceDisable ranked member path
  | isUpNodeComplete name => exact obeys_isUpNodeComplete allowed

end

/-! ### Setting links -/

section

variable {regulators : List RegulatorNode} {rank : RegulatorNode → ℕ} {op : Operation}
  {manager : RegulatorManager} {name : CString} {child parent : RegulatorNode}

theorem Linked.nodeInit (linked : Linked regulators manager) (name : CString) :
    Linked regulators (Regulator.regulatorTreeManagerNodeInit name manager) := by
  refine ⟨fun other node found => ?_, fun other node listed => ?_⟩
  · rw [getParent_nodeInit] at found
    exact linked.parents other node found
  · rw [getChild_nodeInit] at listed
    exact linked.children other node listed

theorem Linked.setParent (linked : Linked regulators manager)
    (unique : (regulators.map RegulatorNode.name).Nodup)
    (link : Supplies regulators parent child) :
    Linked regulators (Regulator.regulatorTreeSetParent child.name parent manager) := by
  refine ⟨fun other node found => ?_, fun other node listed => ?_⟩
  · rw [Regulator.regulatorTreeGetParent, search_treeSetParent] at found
    split at found
    · rename_i same
      intro child' member named
      obtain rfl := eq_of_name unique member link.2.1 (named.trans same)
      cases known : search RegulatorTreeInfo.name other manager.treeMgrHead with
      | none =>
        rw [known] at found
        cases found
      | some info =>
        rw [known] at found
        cases found
        exact link
    · exact linked.parents other node found
  · rw [getChild_treeSetParent] at listed
    exact linked.children other node listed

theorem Linked.setChild (linked : Linked regulators manager)
    (unique : (regulators.map RegulatorNode.name).Nodup)
    (link : Supplies regulators parent child) :
    Linked regulators (Regulator.regulatorTreeSetChild parent.name child manager) := by
  refine ⟨fun other node found => ?_, fun other node listed => ?_⟩
  · rw [getParent_treeSetChild] at found
    exact linked.parents other node found
  · rw [Regulator.regulatorTreeGetChild, search_treeSetChild] at listed
    split at listed
    · rename_i same
      cases known : search RegulatorTreeInfo.name other manager.treeMgrHead with
      | none =>
        rw [known] at listed
        exact absurd listed List.not_mem_nil
      | some info =>
        rw [known] at listed
        rcases List.mem_append.mp listed with old | new
        · refine linked.children other node ?_
          rw [Regulator.regulatorTreeGetChild, known]
          exact old
        · intro parent' member named
          obtain rfl := eq_of_name unique member link.1 (named.trans same)
          obtain rfl := List.mem_singleton.mp new
          exact link
    · exact linked.children other node listed

theorem obeys_nodeInit : Obeys regulators rank op [] (fun _ => True) []
    (regulatorTreeManagerNodeInit name true) := by
  refine .lock (may_tree fun _ none => absurd none List.not_mem_nil) ?_ (.pure trivial)
  refine .get fun manager _ => ?_
  split
  · exact .unlock (.pure trivial)
  · exact .attempt (fun manager _ linked => linked.nodeInit name) fun _ => .unlock (.pure trivial)

theorem obeys_treeSet (unique : (regulators.map RegulatorNode.name).Nodup)
    (link : Supplies regulators parent child) :
    Obeys regulators rank op [] (fun _ => True) [] (regulatorTreeSet child parent true true) := by
  have low {bound : ℕ} : Under regulators rank bound [] :=
    fun _ none => absurd none List.not_mem_nil
  have setParent : Obeys regulators rank op [] (fun _ => True) []
      (regulatorTreeSetParent child.name parent) := by
    refine .lock (may_tree low) (.get fun manager _ => ?_) (.pure trivial)
    split
    · exact .attempt (fun manager _ linked => linked.setParent unique link) fun _ =>
        .unlock (.pure trivial)
    · exact .unlock (.pure trivial)
  have setChild : Obeys regulators rank op [] (fun _ => True) []
      (regulatorTreeSetChild parent.name child) := by
    refine .lock (may_tree low) (.get fun manager _ => ?_) (.pure trivial)
    split
    · refine .attempt (fun manager allocated linked => ?_) fun _ => .unlock (.pure trivial)
      cases allocated with
      | true => exact linked.setChild unique link
      | false => exact linked
    · exact .unlock (.pure trivial)
  refine .seq obeys_nodeInit fun ret _ => ?_
  split
  · exact .pure trivial
  refine .seq setParent fun ret _ => ?_
  split
  · exact .pure trivial
  refine .seq obeys_nodeInit fun ret _ => ?_
  split
  · exact .pure trivial
  refine .seq setChild fun ret _ => ?_
  split <;> exact .pure trivial

theorem obeys_code (forest : Forest regulators) (ranked : Ranked regulators rank)
    (fits : op.Fits regulators) :
    Obeys regulators rank op [] (fun _ => True) [] (code op) := by
  have low {bound : ℕ} : Under regulators rank bound [] :=
    fun _ none => absurd none List.not_mem_nil
  cases op with
  | enable node | disable node =>
    exact .invoke ⟨⟨fits, node, rfl, .refl⟩, low⟩ fun _ => .pure trivial
  | forceDisable node => exact .seq (obeys_forceDisable ranked fits) fun _ _ => .pure trivial
  | initEnable node => exact obeys_initEnable ⟨fits, node, rfl, .refl⟩
  | treeSet child parent first second =>
    obtain ⟨link, rfl, rfl⟩ := fits
    exact .seq (obeys_treeSet forest.unique link) fun _ _ => .pure trivial

/-! ### No deadlock -/

/-- Of two regulators above a third, one is above the other. -/
theorem Forest.comparable (forest : Forest regulators) {node first second : RegulatorNode}
    (below : Below regulators node first) (below' : Below regulators node second) :
    first = second ∨ Below regulators first second ∨ Below regulators second first := by
  have unique : Relator.RightUnique (Function.swap (Supplies regulators)) := by
    intro child parent parent' link link'
    have same := Option.some.inj (link.2.2.symm.trans link'.2.2)
    exact eq_of_name forest.unique link.1 link'.1 same
  have path := (transGen_swap.mpr below).to_reflTransGen
  have path' := (transGen_swap.mpr below').to_reflTransGen
  rcases ReflTransGen.total_of_right_unique unique path path' with up | up
  · rcases reflTransGen_iff_eq_or_transGen.mp up with same | up
    · exact .inl same.symm
    · exact .inr (.inl (transGen_swap.mp up))
  · rcases reflTransGen_iff_eq_or_transGen.mp up with same | up
    · exact .inl same
    · exact .inr (.inr (transGen_swap.mp up))

theorem May.fresh (forest : Forest regulators) {l : Lock} {held : List Lock}
    (may : May regulators rank op l held) : l ∉ held := by
  rcases may with ⟨under, -⟩ | ⟨node, child, -, rfl, rfl, below⟩
  · exact fun holds => lt_irrefl _ (under l holds)
  · intro holds
    cases List.mem_singleton.mp holds
    exact forest.acyclic node below

/-- A lock is taken upwards, or from a regulator that everybody else who may take it holds. -/
theorem May.apart (forest : Forest regulators) {op' : Operation} {l : Lock}
    {held held' : List Lock} (avoids : op.Avoids regulators op' ∧ op'.Avoids regulators op)
    (may : May regulators rank op l held) (may' : May regulators rank op' l held') :
    (∀ l' ∈ held, rankOf regulators rank l' < rankOf regulators rank l) ∨
      ∃ l' ∈ held, l' ∈ held' := by
  rcases may with ⟨under, -⟩ | ⟨node, child, rfl, rfl, rfl, below⟩
  · exact .inl under
  rcases may' with ⟨-, covers⟩ | ⟨node', child', rfl, same, rfl, below'⟩
  · -- an operation that goes up from below the regulator
    obtain ⟨-, target, targeted, path⟩ := covers child rfl
    exact absurd (TransGen.trans_left below path) (avoids.1 node target rfl targeted)
  · cases same
    rcases forest.comparable below below' with rfl | up | up
    · exact .inr ⟨.node node, List.mem_singleton_self _, List.mem_singleton_self _⟩
    · exact absurd up (avoids.2 node' node rfl rfl)
    · exact absurd up (avoids.1 node node' rfl rfl)

/-- The discipline that the operations on a tree follow. -/
def discipline (forest : Forest regulators) (ranked : Ranked regulators rank) :
    Discipline RegulatorManager Lock Operation Procedure.Result body where
  inv := Linked regulators
  may := May regulators rank
  pre := Pre regulators rank
  rank := rankOf regulators rank
  Safe op op' := op.Avoids regulators op' ∧ op'.Avoids regulators op
  bodies _ p _ allowed := obeys_body ranked p allowed
  fresh _ _ _ may := may.fresh forest
  apart _ _ _ _ _ safe may may' := May.apart forest safe may may'

theorem Forest.exists_rank (forest : Forest regulators) :
    ∃ rank : RegulatorNode → ℕ, Ranked regulators rank := by
  obtain ⟨rank, up, below⟩ := exists_rank_of_acyclic
    (fun _ _ link => link.2.1 : ∀ parent child, Supplies regulators parent child →
      child ∈ regulators) forest.acyclic
  exact ⟨rank, up, below⟩

/-- Operations that keep out of each other's way do not deadlock. -/
theorem deadlockFree_of_orderly {actions : List (Action Operation)} {s : State}
    (forest : Forest regulators) (linked : Linked regulators manager)
    (orderly : Meets step (Orderly regulators) ⟨manager, []⟩ actions)
    (ran : runs step ⟨manager, []⟩ actions = some s) : DeadlockFree s := by
  obtain ⟨rank, ranked⟩ := forest.exists_rank
  refine deadlockFree_of_runs (d := discipline forest ranked) linked
    (orderly.mono fun action s fits => ?_) ran
  cases action with
  | start op =>
    refine ⟨obeys_code forest ranked fits.1, fun thread member runs => ?_⟩
    obtain ⟨avoids, avoids'⟩ := fits.2 thread member runs
    exact ⟨⟨avoids, avoids'⟩, avoids', avoids⟩
  | advance i outcome => trivial

theorem meets_replicate {s : State} {i : ℕ} {outcome : Bool} (n : ℕ) :
    Meets step (Orderly regulators) s (List.replicate n (.advance i outcome)) := by
  induction n generalizing s with
  | zero => trivial
  | succ n ih => exact ⟨trivial, fun t _ => ih⟩

end

/-! ### Two regulators -/

/-- A regulator and its parent, both of them off. -/
def row : RegulatorManager where
  regulatorHead := [source, between]
  treeMgrHead := [⟨between.name, some source, []⟩, ⟨source.name, none, [between]⟩]
  on _ := false
  calls := 0

theorem supplies_row : Supplies row.regulatorHead source between :=
  ⟨List.mem_cons_self, List.mem_cons_of_mem _ List.mem_cons_self, rfl⟩

theorem forest_row : Forest row.regulatorHead where
  unique := by decide
  acyclic := by
    refine acyclic_of_rank (fun node => if node = source then 0 else 1) ?_
    rintro parent child ⟨above, below, named⟩
    rcases List.mem_cons.mp below with rfl | below
    · cases named
    · cases List.mem_singleton.mp below
      rcases List.mem_cons.mp above with rfl | above
      · decide
      · cases List.mem_singleton.mp above
        exact absurd named (by decide)

theorem linked_row : Linked row.regulatorHead row where
  parents name parent found child member named := by
    subst named
    rcases List.mem_cons.mp member with rfl | member
    · cases found
    · cases List.mem_singleton.mp member
      cases found
      exact supplies_row
  children name child listed parent member named := by
    subst named
    rcases List.mem_cons.mp member with rfl | member
    · cases List.mem_singleton.mp listed
      exact supplies_row
    · cases List.mem_singleton.mp member
      cases listed

/-- Two threads, one of which goes all the way. -/
def meeting : List (Action Operation) :=
  .start (.enable between) :: .start (.disable between) :: List.replicate 13 (.advance 0 true)

theorem deadlockFree_meeting : ∃ s, runs step ⟨row, []⟩ meeting = some s ∧ DeadlockFree s ∧
    s.shared.on source.name = true := by
  refine ⟨_, rfl, @deadlockFree_of_orderly _ _ meeting _ forest_row linked_row ?_ rfl, rfl⟩
  refine ⟨⟨supplies_row.2.1, by simp⟩, fun _ began =>
    ⟨⟨supplies_row.2.1, ?_⟩, fun _ _ => meets_replicate 13⟩⟩
  cases began
  intro thread member _
  cases List.mem_singleton.mp member
  exact ⟨fun _ _ same => (nomatch same), fun _ _ same => (nomatch same)⟩

/-- The parent is forced off while its child, which is on, is disabled. -/
def crossing : List (Action Operation) :=
  .start (.enable between) :: List.replicate 13 (.advance 0 true) ++
    .start (.forceDisable source) :: .start (.disable between) ::
      List.replicate 10 (.advance 1 true) ++ List.replicate 13 (.advance 2 true)

/-- Forcing a regulator off waits for the thread that disables its child, which waits for it; and
a link that cannot be set leaves the lock of the tree manager taken. -/
theorem force_meets_disable : Forest row.regulatorHead ∧ Linked row.regulatorHead row ∧
    (∃ s, runs step ⟨row, []⟩ crossing = some s ∧ Waits s 1 2 ∧ Waits s 2 1) ∧
    ∃ s, runs step ⟨{ row with treeMgrHead := [] }, []⟩
        [.start (.treeSet between source false true), .advance 0 true, .advance 0 true] =
        some s ∧
      ∃ thread ∈ s.threads, thread.rest = .done () ∧ thread.held = [.tree] := by
  refine ⟨forest_row, linked_row, ⟨_, rfl, ⟨.node between, ⟨_, rfl, rfl⟩, _, rfl, .head _⟩,
    ⟨.node source, ⟨_, rfl, rfl⟩, _, rfl, .head _⟩⟩, _, rfl, _, .head _, rfl, rfl⟩

end Hdf.Platform.Regulator.Locking
