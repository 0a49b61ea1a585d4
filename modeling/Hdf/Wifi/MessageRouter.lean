import Mathlib.Data.Set.Basic
import Mathlib.Logic.Function.Basic

/-!
# The registry of the message router

The router keeps its nodes and, for every service id, the service that is bound to
it. Registering a local service tells the other nodes about it before the id is
looked at; when the id turns out to be taken, they are told that it is gone.

Callbacks and what can fail outside the router are given by their outcomes. A
callback that fails has no effect. For every node there is the set of service ids
that it has been told about.

## Main definitions

* `Router`, `Callbacks`: the state of the router and the outcomes of a call
* `Call`, `perform`: the functions that change the registry
* `Transactional`: a call succeeds exactly if it takes effect, and else leaves no trace

## Main results

* `transactional_iff`: when a call is transactional
* `taken_id_withdrawn`: a refused registration hides the service that has the id
-/

namespace Hdf.Wifi.MessageRouter

/-- `ErrorCode`. -/
abbrev ErrorCode := Int32

def meSuccess : ErrorCode := 0
def meErrorNullPtr : ErrorCode := -1
def meErrorNotSupported : ErrorCode := -5
def meErrorOperMutexFailed : ErrorCode := -7
def meErrorMutiInitNotAllowed : ErrorCode := 2
def meErrorWrongStatus : ErrorCode := 4
def meErrorServiceidConflict : ErrorCode := 5
def meErrorParaWrong : ErrorCode := 6
def meErrorNoSuchService : ErrorCode := 8
def meErrorNoSuchNode : ErrorCode := 27

abbrev NodeId := UInt8
abbrev ServiceId := UInt8
abbrev DispatcherId := UInt8

def localNodeIndex : NodeId := 0
def remoteNodeIndex : NodeId := 1
def noSuchNodeIndex : NodeId := 255
def badDispatcherId : DispatcherId := 255

/-- `MESSAGE_ENGINE_MAX_SERVICE`. -/
def messageEngineMaxService : ServiceId := 15

/-- `MAX_NODE_COUNT`. -/
def maxNodeCount : NodeId := 2

/-- The indices of the loops over `g_messageNodes`. -/
def nodeIndexes : List NodeId := [0, 1]

/-- `MessageEngineStatus`. -/
inductive MessageEngineStatus where
  | stopped | startting | running | stopping | todestroy
  deriving DecidableEq, Repr

/-- `MessageNode`: which one it is, and which of its callbacks there are. -/
structure MessageNode where
  object : ℕ
  ref : Bool
  init : Bool
  createRemoteService : Bool
  notifyServiceAdd : Bool
  notifyServiceDel : Bool
  deriving DecidableEq, Repr

/-- `ServiceInfo`. -/
structure ServiceInfo where
  nodeIndex : NodeId
  dispatcherId : DispatcherId
  remoteService : Option ℕ
  deriving DecidableEq, Repr

/-- The globals of the router, and the service ids that each node has been told about. -/
structure Router where
  servicesIndex : ServiceId → ServiceInfo
  messageNodes : NodeId → Option MessageNode
  routerStatus : MessageEngineStatus
  told : NodeId → ServiceId → Bool

/-- The outcomes of what a call calls. -/
structure Callbacks where
  lock : Bool
  createLocalNode : Option MessageNode
  init : NodeId → ErrorCode
  ref : Bool
  createRemoteService : Option ℕ
  notifyServiceAdd : NodeId → ErrorCode
  notifyServiceDel : NodeId → ErrorCode

/-- A node has been told about a service, or that it is gone. -/
def Router.tell (router : Router) (nodeId : NodeId) (serviceId : ServiceId) (known : Bool) :
    Router :=
  { router with told :=
      Function.update router.told nodeId (Function.update (router.told nodeId) serviceId known) }

/-- A slot of `g_servicesIndex` gets new contents. -/
def Router.bind (router : Router) (serviceId : ServiceId) (info : ServiceInfo) : Router :=
  { router with servicesIndex := Function.update router.servicesIndex serviceId info }

/-- A slot without a service. -/
def noService : ServiceInfo := ⟨noSuchNodeIndex, badDispatcherId, none⟩

/-! ### Notifications -/

/-- One round of `NotifyAllNodesServiceDel`. A failure is only logged. -/
def notifyNodeServiceDel (callbacks : Callbacks) (nodeId : NodeId) (serviceId : ServiceId)
    (router : Router) (i : NodeId) : Router :=
  if i = nodeId then router
  else
    match router.messageNodes i with
    | none => router
    | some node =>
      if node.notifyServiceDel && callbacks.notifyServiceDel i = meSuccess then
        router.tell i serviceId false
      else router

/-- `NotifyAllNodesServiceDel`. -/
def notifyAllNodesServiceDel (callbacks : Callbacks) (nodeId : NodeId) (serviceId : ServiceId)
    (router : Router) : Router :=
  nodeIndexes.foldl (notifyNodeServiceDel callbacks nodeId serviceId) router

/-- One round of the first loop of `NotifyAllNodesServiceAdd`. -/
def notifyNodeServiceAdd (callbacks : Callbacks) (nodeId : NodeId) (serviceId : ServiceId)
    (router : Router) (i : NodeId) : ErrorCode × Router :=
  if i = nodeId then (meSuccess, router)
  else
    match router.messageNodes i with
    | none => (meSuccess, router)
    | some node =>
      if !node.notifyServiceAdd then (meSuccess, router)
      else if callbacks.notifyServiceAdd i = meSuccess then
        (meSuccess, router.tell i serviceId true)
      else (callbacks.notifyServiceAdd i, router)

/-- The loops of `NotifyAllNodesServiceAdd`: after a failure, the nodes that have been told
are told that the service is gone. -/
def notifyServiceAddFrom (callbacks : Callbacks) (nodeId : NodeId) (serviceId : ServiceId) :
    List NodeId → List NodeId → Router → ErrorCode × Router
  | _, [], router => (meSuccess, router)
  | notified, i :: rest, router =>
    let (errCode, router) := notifyNodeServiceAdd callbacks nodeId serviceId router i
    if errCode = meSuccess then
      notifyServiceAddFrom callbacks nodeId serviceId (notified ++ [i]) rest router
    else (errCode, notified.foldl (notifyNodeServiceDel callbacks nodeId serviceId) router)

/-- `NotifyAllNodesServiceAdd`. -/
def notifyAllNodesServiceAdd (callbacks : Callbacks) (nodeId : NodeId) (serviceId : ServiceId)
    (router : Router) : ErrorCode × Router :=
  notifyServiceAddFrom callbacks nodeId serviceId [] nodeIndexes router

/-! ### Registration -/

/-- `DoRegistService`. -/
def doRegistService (nodeId : NodeId) (dispatcherId : DispatcherId) (remoteService : ℕ)
    (serviceId : ServiceId) (router : Router) : ErrorCode × Router :=
  if messageEngineMaxService ≤ serviceId then (meErrorParaWrong, router)
  else if router.routerStatus ≠ .running then (meErrorWrongStatus, router)
  else if (router.servicesIndex serviceId).remoteService.isSome then
    (meErrorServiceidConflict, router)
  else (meSuccess, router.bind serviceId ⟨nodeId, dispatcherId, some remoteService⟩)

/-- `RefMessageNode` under the lock. -/
def refMessageNode (callbacks : Callbacks) (nodeId : NodeId) (router : Router) :
    Option MessageNode :=
  if maxNodeCount ≤ nodeId then none
  else (router.messageNodes nodeId).filter fun node => node.ref && callbacks.ref

/-- `RegistServiceInner`. A service that is created has the id of the mapper. -/
def registServiceInner (callbacks : Callbacks) (nodeId : NodeId) (dispatcherId : DispatcherId)
    (mapper : Option ServiceId) (router : Router) : ErrorCode × Router :=
  match mapper with
  | none => (meErrorNullPtr, router)
  | some serviceId =>
    if messageEngineMaxService ≤ serviceId then (meErrorParaWrong, router)
    else if !callbacks.lock then (meErrorOperMutexFailed, router)
    else
      match refMessageNode callbacks nodeId router with
      | none => (meErrorNoSuchNode, router)
      | some node =>
        if !node.createRemoteService then (meErrorNotSupported, router)
        else
          match callbacks.createRemoteService with
          | none => (meErrorNullPtr, router)
          | some remoteService =>
            let (errCode, router) := notifyAllNodesServiceAdd callbacks nodeId serviceId router
            if errCode ≠ meSuccess then (errCode, router)
            else
              let (errCode, router) :=
                doRegistService nodeId dispatcherId remoteService serviceId router
              if errCode ≠ meSuccess then
                (errCode, notifyAllNodesServiceDel callbacks nodeId serviceId router)
              else (meSuccess, router)

/-- `RegistLocalService`. -/
def registLocalService (callbacks : Callbacks) (dispatcherId : DispatcherId)
    (mapper : Option ServiceId) (router : Router) : ErrorCode × Router :=
  registServiceInner callbacks localNodeIndex dispatcherId mapper router

/-- `RegistRemoteService`, of a service with its id. -/
def registRemoteService (callbacks : Callbacks) (nodeId : NodeId) (service : Option (ℕ × ServiceId))
    (router : Router) : ErrorCode × Router :=
  match service with
  | none => (meErrorNullPtr, router)
  | some (remoteService, serviceId) =>
    if messageEngineMaxService ≤ serviceId then (meErrorParaWrong, router)
    else if maxNodeCount ≤ nodeId then (meErrorParaWrong, router)
    else if !callbacks.lock then (meErrorOperMutexFailed, router)
    else doRegistService nodeId badDispatcherId remoteService serviceId router

/-- `UnregistServiceInner`. -/
def unregistServiceInner (callbacks : Callbacks) (nodeId : NodeId) (dispatcherId : DispatcherId)
    (serviceId : ServiceId) (router : Router) : ErrorCode × Router :=
  if messageEngineMaxService ≤ serviceId then (meErrorParaWrong, router)
  else if !callbacks.lock then (meErrorOperMutexFailed, router)
  else
    let info := router.servicesIndex serviceId
    if info.nodeIndex ≠ nodeId || info.dispatcherId ≠ dispatcherId then
      (meErrorNoSuchService, router)
    else if info.remoteService.isNone then (meErrorNoSuchService, router)
    else (meSuccess,
      notifyAllNodesServiceDel callbacks nodeId serviceId (router.bind serviceId noService))

/-- `UnregistLocalService`. -/
def unregistLocalService (callbacks : Callbacks) (dispatcherId : DispatcherId)
    (serviceId : ServiceId) (router : Router) : ErrorCode × Router :=
  unregistServiceInner callbacks localNodeIndex dispatcherId serviceId router

/-- `UnregistRemoteService`, which does not look at the node id. -/
def unregistRemoteService (callbacks : Callbacks) (_nodeId : NodeId) (serviceId : ServiceId)
    (router : Router) : ErrorCode × Router :=
  unregistServiceInner callbacks remoteNodeIndex badDispatcherId serviceId router

/-! ### Start -/

/-- `InitNodes`. -/
def initNodes (callbacks : Callbacks) (router : Router) : List NodeId → ErrorCode
  | [] => meSuccess
  | i :: rest =>
    match router.messageNodes i with
    | none => initNodes callbacks router rest
    | some node =>
      if !node.init || callbacks.init i = meSuccess then initNodes callbacks router rest
      else callbacks.init i

/-- `ReleaseNodes`. -/
def releaseNodes (router : Router) : Router :=
  { router with
    messageNodes := fun i => if i ∈ nodeIndexes then none else router.messageNodes i
    told := fun i => if i ∈ nodeIndexes then fun _ => false else router.told i }

/-- `DoStartMessageRouter`. No remote node is created. -/
def doStartMessageRouter (callbacks : Callbacks) (router : Router) : ErrorCode × Router :=
  if router.routerStatus ≠ .stopped then (meErrorMutiInitNotAllowed, router)
  else
    let router := { router with servicesIndex := fun i =>
      if i < messageEngineMaxService then noService else router.servicesIndex i }
    match callbacks.createLocalNode with
    | none => (meSuccess, releaseNodes router)
    | some node =>
      let router := { router with
        messageNodes := Function.update router.messageNodes localNodeIndex (some node)
        told := Function.update router.told localNodeIndex fun _ => false }
      if initNodes callbacks router nodeIndexes = meSuccess then
        (meSuccess, { router with routerStatus := .running })
      else (meSuccess, releaseNodes router)

/-- `StartMessageRouter`. -/
def startMessageRouter (callbacks : Callbacks) (router : Router) : ErrorCode × Router :=
  if !callbacks.lock then (meErrorOperMutexFailed, router)
  else doStartMessageRouter callbacks router

/-- The calls that change the registry. -/
inductive Call where
  | startMessageRouter
  | registLocalService (dispatcherId : DispatcherId) (mapper : Option ServiceId)
  | registRemoteService (nodeId : NodeId) (service : Option (ℕ × ServiceId))
  | unregistLocalService (dispatcherId : DispatcherId) (serviceId : ServiceId)
  | unregistRemoteService (nodeId : NodeId) (serviceId : ServiceId)
  deriving DecidableEq, Repr

/-- What a call returns and leaves behind. -/
def perform (callbacks : Callbacks) (router : Router) : Call → ErrorCode × Router
  | .startMessageRouter => startMessageRouter callbacks router
  | .registLocalService dispatcherId mapper =>
    registLocalService callbacks dispatcherId mapper router
  | .registRemoteService nodeId service => registRemoteService callbacks nodeId service router
  | .unregistLocalService dispatcherId serviceId =>
    unregistLocalService callbacks dispatcherId serviceId router
  | .unregistRemoteService nodeId serviceId =>
    unregistRemoteService callbacks nodeId serviceId router

/-! ### Transactions -/

/-- A call has taken effect. -/
def Effect (callbacks : Callbacks) (before after : Router) : Call → Prop
  | .startMessageRouter => before.routerStatus = .stopped ∧ after.routerStatus = .running ∧
      ∃ node, callbacks.createLocalNode = some node ∧
        after.messageNodes = Function.update before.messageNodes localNodeIndex (some node)
  | .registLocalService dispatcherId mapper => ∃ serviceId remoteService,
      mapper = some serviceId ∧ callbacks.createRemoteService = some remoteService ∧
        (before.servicesIndex serviceId).remoteService = none ∧
        after.servicesIndex serviceId = ⟨localNodeIndex, dispatcherId, some remoteService⟩
  | .registRemoteService nodeId service => ∃ remoteService serviceId,
      service = some (remoteService, serviceId) ∧
        (before.servicesIndex serviceId).remoteService = none ∧
        after.servicesIndex serviceId = ⟨nodeId, badDispatcherId, some remoteService⟩
  | .unregistLocalService _ serviceId | .unregistRemoteService _ serviceId =>
      (before.servicesIndex serviceId).remoteService ≠ none ∧
        (after.servicesIndex serviceId).remoteService = none

/-- The registry and what the nodes have been told are the same. -/
structure Unchanged (before after : Router) : Prop where
  servicesIndex : after.servicesIndex = before.servicesIndex
  messageNodes : after.messageNodes = before.messageNodes
  routerStatus : after.routerStatus = before.routerStatus
  told : after.told = before.told

/-- A call succeeds exactly if it takes effect, and otherwise changes nothing. -/
structure Transactional (callbacks : Callbacks) (router : Router) (call : Call) : Prop where
  effect : (perform callbacks router call).1 = meSuccess ↔
    Effect callbacks router (perform callbacks router call).2 call
  rollback : (perform callbacks router call).1 ≠ meSuccess →
    Unchanged router (perform callbacks router call).2

/-- The local node is created and no node fails to start. -/
def Starts (callbacks : Callbacks) (router : Router) : Prop :=
  ∃ created, callbacks.createLocalNode = some created ∧ ∀ i ∈ nodeIndexes,
    ∀ node ∈ Function.update router.messageNodes localNodeIndex (some created) i,
      node.init = true → callbacks.init i = meSuccess

/-- A local registration gets as far as the index and is refused there. -/
def Refused (callbacks : Callbacks) (router : Router) (serviceId : ServiceId) : Prop :=
  serviceId < messageEngineMaxService ∧ callbacks.lock = true ∧
    (∃ node, router.messageNodes localNodeIndex = some node ∧ node.ref = true ∧
      node.createRemoteService = true) ∧
    callbacks.ref = true ∧ callbacks.createRemoteService ≠ none ∧
    (∀ node ∈ router.messageNodes remoteNodeIndex, node.notifyServiceAdd = true →
      callbacks.notifyServiceAdd remoteNodeIndex = meSuccess) ∧
    (router.routerStatus ≠ .running ∨ (router.servicesIndex serviceId).remoteService ≠ none)

/-- Telling the other node about a service and then that it is gone does not leave it as it was:
it knew about the service and has forgotten it, or it did not and has not. -/
def Misled (callbacks : Callbacks) (router : Router) (serviceId : ServiceId) : Prop :=
  ∃ node, router.messageNodes remoteNodeIndex = some node ∧
    if router.told remoteNodeIndex serviceId then
      node.notifyServiceDel = true ∧ callbacks.notifyServiceDel remoteNodeIndex = meSuccess
    else node.notifyServiceAdd = true ∧
      ¬ (node.notifyServiceDel = true ∧ callbacks.notifyServiceDel remoteNodeIndex = meSuccess)

/-- When a call is a transaction. -/
def Safe (callbacks : Callbacks) (router : Router) : Call → Prop
  | .startMessageRouter =>
    callbacks.lock = true → router.routerStatus = .stopped → Starts callbacks router
  | .registLocalService _ mapper => ∀ serviceId ∈ mapper,
    ¬ (Refused callbacks router serviceId ∧ Misled callbacks router serviceId)
  | .registRemoteService _ _ | .unregistLocalService _ _ | .unregistRemoteService _ _ => True

section

variable {callbacks : Callbacks} {router after : Router} {call : Call} {errCode : ErrorCode}
  {serviceId : ServiceId} {nodeId : NodeId} {dispatcherId : DispatcherId}

theorem Unchanged.refl : Unchanged router router := ⟨rfl, rfl, rfl, rfl⟩

theorem not_effect_of_unchanged (unchanged : Unchanged router after) :
    ¬ Effect callbacks router after call := by
  cases call with
  | startMessageRouter =>
    rintro ⟨stopped, running, -⟩
    rw [unchanged.routerStatus, stopped] at running
    cases running
  | registLocalService dispatcherId mapper =>
    rintro ⟨serviceId, remoteService, -, -, free, bound⟩
    rw [unchanged.servicesIndex] at bound
    rw [bound] at free
    cases free
  | registRemoteService nodeId service =>
    rintro ⟨remoteService, serviceId, -, free, bound⟩
    rw [unchanged.servicesIndex] at bound
    rw [bound] at free
    cases free
  | unregistLocalService dispatcherId serviceId | unregistRemoteService nodeId serviceId =>
    rintro ⟨bound, free⟩
    rw [unchanged.servicesIndex] at free
    exact bound free

/-- A call that fails and changes nothing. -/
theorem Transactional.of_failure (performed : perform callbacks router call = (errCode, after))
    (failed : errCode ≠ meSuccess) (unchanged : Unchanged router after) :
    Transactional callbacks router call := by
  constructor
  · rw [performed]
    exact iff_of_false failed (not_effect_of_unchanged unchanged)
  · rw [performed]
    exact fun _ => unchanged

theorem Transactional.of_success (performed : perform callbacks router call = (meSuccess, after))
    (effect : Effect callbacks router after call) : Transactional callbacks router call := by
  constructor
  · rw [performed]
    exact iff_of_true rfl effect
  · rw [performed]
    exact fun failed => absurd rfl failed

/-! ### The calls on remote services and those that unregister -/

theorem notifyNodeServiceDel_index (i : NodeId) :
    (notifyNodeServiceDel callbacks nodeId serviceId router i).servicesIndex =
      router.servicesIndex := by
  rw [notifyNodeServiceDel]
  split
  · rfl
  · split
    · rfl
    · split <;> rfl

theorem notifyAllNodesServiceDel_index :
    (notifyAllNodesServiceDel callbacks nodeId serviceId router).servicesIndex =
      router.servicesIndex :=
  (notifyNodeServiceDel_index _).trans (notifyNodeServiceDel_index _)

theorem doRegistService_cases (nodeId : NodeId) (dispatcherId : DispatcherId) (remoteService : ℕ)
    (serviceId : ServiceId) (router : Router) (inside : serviceId < messageEngineMaxService) :
    (router.routerStatus = .running ∧ (router.servicesIndex serviceId).remoteService = none ∧
      doRegistService nodeId dispatcherId remoteService serviceId router =
        (meSuccess, router.bind serviceId ⟨nodeId, dispatcherId, some remoteService⟩)) ∨
    (router.routerStatus ≠ .running ∨ (router.servicesIndex serviceId).remoteService ≠ none) ∧
      ∃ errCode ≠ meSuccess,
        doRegistService nodeId dispatcherId remoteService serviceId router =
          (errCode, router) := by
  rw [doRegistService, if_neg (UInt8.not_le.mpr inside)]
  split
  · rename_i stopped
    exact .inr ⟨.inl stopped, _, by decide, rfl⟩
  · rename_i running
    split
    · rename_i taken
      exact .inr ⟨.inr (Option.isSome_iff_ne_none.mp taken), _, by decide, rfl⟩
    · rename_i free
      exact .inl ⟨not_not.mp running, Option.not_isSome_iff_eq_none.mp free, rfl⟩

theorem bind_self (info : ServiceInfo) :
    (router.bind serviceId info).servicesIndex serviceId = info := by
  simp [Router.bind]

theorem transactional_registRemoteService (service : Option (ℕ × ServiceId)) :
    Transactional callbacks router (.registRemoteService nodeId service) := by
  cases service with
  | none => exact .of_failure rfl (by decide) .refl
  | some pair =>
    obtain ⟨remoteService, serviceId⟩ := pair
    have performed : perform callbacks router
        (.registRemoteService nodeId (some (remoteService, serviceId))) =
      registRemoteService callbacks nodeId (some (remoteService, serviceId)) router := rfl
    rw [registRemoteService] at performed
    split at performed
    · exact .of_failure performed (by decide) .refl
    · rename_i inside
      split at performed
      · exact .of_failure performed (by decide) .refl
      · split at performed
        · exact .of_failure performed (by decide) .refl
        · rcases doRegistService_cases nodeId badDispatcherId remoteService serviceId router
            (UInt8.not_le.mp inside) with ⟨-, free, bound⟩ | ⟨-, errCode, failed, refused⟩
          · exact .of_success (performed.trans bound)
              ⟨remoteService, serviceId, rfl, free, bind_self _⟩
          · exact .of_failure (performed.trans refused) failed .refl

/-- What unregistering comes to. -/
theorem unregistServiceInner_cases :
    (∃ errCode ≠ meSuccess, unregistServiceInner callbacks nodeId dispatcherId serviceId router =
      (errCode, router)) ∨
    ∃ after, unregistServiceInner callbacks nodeId dispatcherId serviceId router =
        (meSuccess, after) ∧ (router.servicesIndex serviceId).remoteService ≠ none ∧
      (after.servicesIndex serviceId).remoteService = none := by
  rw [unregistServiceInner]
  split
  · exact .inl ⟨_, by decide, rfl⟩
  · split
    · exact .inl ⟨_, by decide, rfl⟩
    · dsimp only
      split
      · exact .inl ⟨_, by decide, rfl⟩
      · split
        · exact .inl ⟨_, by decide, rfl⟩
        · rename_i there
          refine .inr ⟨_, rfl, fun none => there (Option.isNone_iff_eq_none.mpr none), ?_⟩
          rw [notifyAllNodesServiceDel_index, bind_self]
          rfl

/-! ### The start -/

theorem initNodes_eq_success_iff (nodes : List NodeId) :
    initNodes callbacks router nodes = meSuccess ↔ ∀ i ∈ nodes, ∀ node ∈ router.messageNodes i,
      node.init = true → callbacks.init i = meSuccess := by
  induction nodes with
  | nil => simp [initNodes]
  | cons i rest ih =>
    rw [List.forall_mem_cons, initNodes]
    cases router.messageNodes i with
    | none => simp [ih]
    | some node =>
      by_cases good : node.init = true → callbacks.init i = meSuccess
      · have goes : (!node.init || callbacks.init i = meSuccess) = true := by
          cases present : node.init <;> simp [present] at good ⊢
          exact good
        simp only [goes, if_true, ih]
        exact ⟨fun others => ⟨by rintro _ ⟨⟩; exact good, others⟩, And.right⟩
      · obtain ⟨present, failed⟩ := Classical.not_imp.mp good
        have stops : (!node.init || callbacks.init i = meSuccess) = false := by
          simp [present, failed]
        simp only [stops, Bool.false_eq_true, if_false]
        exact iff_of_false failed fun both => failed (both.1 node rfl present)

theorem transactional_startMessageRouter :
    Transactional callbacks router .startMessageRouter ↔
      Safe callbacks router .startMessageRouter := by
  have performed : perform callbacks router .startMessageRouter =
    startMessageRouter callbacks router := rfl
  rw [startMessageRouter] at performed
  split at performed
  · rename_i unlocked
    refine iff_of_true (.of_failure performed (by decide) .refl) fun locked => ?_
    rw [locked] at unlocked
    cases unlocked
  · rename_i locked
    rw [Bool.not_eq_true, Bool.not_eq_false'] at locked
    rw [doStartMessageRouter] at performed
    split at performed
    · rename_i started
      exact iff_of_true (.of_failure performed (by decide) .refl) fun _ stopped =>
        absurd stopped started
    · rename_i stopped
      replace stopped : router.routerStatus = .stopped := not_not.mp stopped
      -- a start that has failed reports success all the same
      have lost {after : Router} (performed : perform callbacks router .startMessageRouter =
          (meSuccess, after)) (halted : after.routerStatus = .stopped) :
          ¬ Transactional callbacks router .startMessageRouter := by
        intro transactional
        have effect := transactional.effect
        rw [performed] at effect
        obtain ⟨-, running, -⟩ := effect.mp rfl
        cases halted.symm.trans running
      split at performed
      · rename_i failed
        refine iff_of_false (lost performed stopped) fun safe => ?_
        obtain ⟨created, succeeded, -⟩ := safe locked stopped
        cases failed.symm.trans succeeded
      · rename_i node created
        dsimp only at performed
        split at performed
        · rename_i initialised
          rw [initNodes_eq_success_iff] at initialised
          exact iff_of_true (.of_success performed ⟨stopped, rfl, node, created, rfl⟩)
            fun _ _ => ⟨node, created, initialised⟩
        · rename_i failed
          refine iff_of_false (lost performed stopped) fun safe => failed ?_
          obtain ⟨node', created', initialised⟩ := safe locked stopped
          cases created.symm.trans created'
          exact (initNodes_eq_success_iff _).mpr initialised

/-! ### The registration of a local service -/

theorem notifyAllNodesServiceDel_local :
    notifyAllNodesServiceDel callbacks localNodeIndex serviceId router =
      notifyNodeServiceDel callbacks localNodeIndex serviceId router remoteNodeIndex := rfl

/-- The only node that a local registration notifies is the remote one. -/
theorem notifyAllNodesServiceAdd_local :
    notifyAllNodesServiceAdd callbacks localNodeIndex serviceId router =
      notifyNodeServiceAdd callbacks localNodeIndex serviceId router remoteNodeIndex := by
  have own : notifyNodeServiceAdd callbacks localNodeIndex serviceId router localNodeIndex =
    (meSuccess, router) := rfl
  change notifyServiceAddFrom callbacks localNodeIndex serviceId []
    [localNodeIndex, remoteNodeIndex]
    router = _
  rw [notifyServiceAddFrom, own]
  dsimp only
  rw [if_pos rfl, notifyServiceAddFrom]
  generalize notifyNodeServiceAdd callbacks localNodeIndex serviceId router remoteNodeIndex = result
  obtain ⟨errCode, after⟩ := result
  dsimp only
  split
  · rename_i succeeded
    rw [succeeded]
    rfl
  · rfl

theorem tell_tell (i : NodeId) (known known' : Bool) :
    (router.tell i serviceId known).tell i serviceId known' = router.tell i serviceId known' := by
  simp [Router.tell]

theorem unchanged_tell_iff (i : NodeId) (known : Bool) :
    Unchanged router (router.tell i serviceId known) ↔ router.told i serviceId = known := by
  constructor
  · intro unchanged
    have same := congrFun (congrFun unchanged.told i) serviceId
    rw [← same]
    simp [Router.tell]
  · rintro rfl
    refine ⟨rfl, rfl, rfl, ?_⟩
    rw [Router.tell, Function.update_eq_self, Function.update_eq_self]

theorem notifyDel_of_node {node : MessageNode}
    (there : router.messageNodes remoteNodeIndex = some node) :
    notifyAllNodesServiceDel callbacks localNodeIndex serviceId router =
      if node.notifyServiceDel = true ∧ callbacks.notifyServiceDel remoteNodeIndex = meSuccess then
        router.tell remoteNodeIndex serviceId false
      else router := by
  rw [notifyAllNodesServiceDel_local, notifyNodeServiceDel, if_neg (by decide), there]
  simp only [Bool.and_eq_true, decide_eq_true_iff]

theorem misled_iff {node : MessageNode}
    (there : router.messageNodes remoteNodeIndex = some node) :
    Misled callbacks router serviceId ↔ if router.told remoteNodeIndex serviceId then
      node.notifyServiceDel = true ∧ callbacks.notifyServiceDel remoteNodeIndex = meSuccess
    else node.notifyServiceAdd = true ∧
      ¬ (node.notifyServiceDel = true ∧
        callbacks.notifyServiceDel remoteNodeIndex = meSuccess) := by
  rw [Misled, there]
  simp only [Option.some.injEq, exists_eq_left']

/-- What notifying the remote node and withdrawing that come to. -/
theorem notify_cases (callbacks : Callbacks) (serviceId : ServiceId) (router : Router) :
    (∃ node, router.messageNodes remoteNodeIndex = some node ∧ node.notifyServiceAdd = true ∧
      callbacks.notifyServiceAdd remoteNodeIndex ≠ meSuccess ∧
      notifyAllNodesServiceAdd callbacks localNodeIndex serviceId router =
        (callbacks.notifyServiceAdd remoteNodeIndex, router)) ∨
    (∀ node ∈ router.messageNodes remoteNodeIndex, node.notifyServiceAdd = true →
      callbacks.notifyServiceAdd remoteNodeIndex = meSuccess) ∧
      ∃ after, notifyAllNodesServiceAdd callbacks localNodeIndex serviceId router =
          (meSuccess, after) ∧
        after.servicesIndex = router.servicesIndex ∧ after.routerStatus = router.routerStatus ∧
        (Unchanged router (notifyAllNodesServiceDel callbacks localNodeIndex serviceId after) ↔
          ¬ Misled callbacks router serviceId) := by
  rw [notifyAllNodesServiceAdd_local, notifyNodeServiceAdd, if_neg (by decide)]
  cases there : router.messageNodes remoteNodeIndex with
  | none =>
    refine .inr ⟨fun _ none => (by cases none), router, rfl, rfl, rfl, ?_⟩
    rw [notifyAllNodesServiceDel_local, notifyNodeServiceDel, if_neg (by decide), there]
    refine iff_of_true .refl ?_
    rintro ⟨node, found, -⟩
    cases there.symm.trans found
  | some node =>
    dsimp only
    cases asked : node.notifyServiceAdd with
    | false =>
      refine .inr ⟨?_, router, rfl, rfl, rfl, ?_⟩
      · rintro _ ⟨⟩ present
        cases asked.symm.trans present
      · rw [notifyDel_of_node there, misled_iff there, asked]
        split
        · rw [unchanged_tell_iff]
          cases router.told remoteNodeIndex serviceId <;> simp [*]
        · rename_i stays
          refine iff_of_true .refl ?_
          split <;> simp [stays]
    | true =>
      by_cases succeeded : callbacks.notifyServiceAdd remoteNodeIndex = meSuccess
      · rw [if_neg (by decide), if_pos succeeded]
        refine .inr ⟨fun _ _ _ => succeeded, _, rfl, rfl, rfl, ?_⟩
        rw [notifyDel_of_node (by exact there), misled_iff there, asked, tell_tell]
        split
        · rw [unchanged_tell_iff]
          cases router.told remoteNodeIndex serviceId <;> simp [*]
        · rw [unchanged_tell_iff]
          cases router.told remoteNodeIndex serviceId <;> simp [*]
      · rw [if_neg (by decide), if_neg succeeded]
        exact .inl ⟨node, rfl, asked, succeeded, rfl⟩

/-- A local registration fails before the other nodes are notified, or goes on to that. -/
theorem registServiceInner_cases (callbacks : Callbacks) (dispatcherId : DispatcherId)
    (serviceId : ServiceId) (router : Router) :
    (∃ errCode ≠ meSuccess, registServiceInner callbacks localNodeIndex dispatcherId
        (some serviceId) router = (errCode, router) ∧ ¬ Refused callbacks router serviceId) ∨
    ∃ remoteService, callbacks.createRemoteService = some remoteService ∧
      serviceId < messageEngineMaxService ∧
      (Refused callbacks router serviceId ↔
        (∀ node ∈ router.messageNodes remoteNodeIndex, node.notifyServiceAdd = true →
          callbacks.notifyServiceAdd remoteNodeIndex = meSuccess) ∧
        (router.routerStatus ≠ .running ∨
          (router.servicesIndex serviceId).remoteService ≠ none)) ∧
      registServiceInner callbacks localNodeIndex dispatcherId (some serviceId) router =
        let (errCode, router) := notifyAllNodesServiceAdd callbacks localNodeIndex serviceId router
        if errCode ≠ meSuccess then (errCode, router)
        else
          let (errCode, router) :=
            doRegistService localNodeIndex dispatcherId remoteService serviceId router
          if errCode ≠ meSuccess then
            (errCode, notifyAllNodesServiceDel callbacks localNodeIndex serviceId router)
          else (meSuccess, router) := by
  rw [registServiceInner]
  dsimp only
  split
  · rename_i outside
    exact .inl ⟨_, by decide, rfl, fun refused => UInt8.not_le.mpr refused.1 outside⟩
  · rename_i inside
    replace inside := UInt8.not_le.mp inside
    split
    · rename_i unlocked
      refine .inl ⟨_, by decide, rfl, fun refused => ?_⟩
      rw [refused.2.1] at unlocked
      cases unlocked
    · rename_i locked
      rw [Bool.not_eq_true, Bool.not_eq_false'] at locked
      split
      · rename_i missing
        refine .inl ⟨_, by decide, rfl, fun refused => ?_⟩
        obtain ⟨-, -, ⟨node, there, ref, -⟩, referenced, -⟩ := refused
        rw [refMessageNode, if_neg (by decide), there] at missing
        simp [ref, referenced] at missing
      · rename_i node there
        rw [refMessageNode, if_neg (by decide), Option.filter_eq_some_iff,
          Bool.and_eq_true] at there
        obtain ⟨there, ref, referenced⟩ := there
        split
        · rename_i unsupported
          refine .inl ⟨_, by decide, rfl, fun refused => ?_⟩
          obtain ⟨-, -, ⟨node', there', -, supported⟩, -⟩ := refused
          cases there.symm.trans there'
          rw [supported] at unsupported
          cases unsupported
        · rename_i supported
          rw [Bool.not_eq_true, Bool.not_eq_false'] at supported
          split
          · rename_i uncreated
            exact .inl ⟨_, by decide, rfl, fun refused => refused.2.2.2.2.1 uncreated⟩
          · rename_i remoteService created
            refine .inr ⟨remoteService, created, inside, ⟨fun refused => refused.2.2.2.2.2, ?_⟩,
              rfl⟩
            exact fun late => ⟨inside, locked, ⟨node, there, ref, supported⟩, referenced,
              by rw [created]; exact Option.some_ne_none _, late⟩

theorem transactional_registLocalService (mapper : Option ServiceId) :
    Transactional callbacks router (.registLocalService dispatcherId mapper) ↔
      Safe callbacks router (.registLocalService dispatcherId mapper) := by
  cases mapper with
  | none => exact iff_of_true (.of_failure rfl (by decide) .refl) fun _ none => by cases none
  | some serviceId =>
    have safe_iff : Safe callbacks router (.registLocalService dispatcherId (some serviceId)) ↔
        ¬ (Refused callbacks router serviceId ∧ Misled callbacks router serviceId) := by
      simp [Safe]
    have performed : perform callbacks router (.registLocalService dispatcherId (some serviceId)) =
      registServiceInner callbacks localNodeIndex dispatcherId (some serviceId) router := rfl
    rw [safe_iff]
    rcases registServiceInner_cases callbacks dispatcherId serviceId router with
      ⟨errCode, failed, early, unrefused⟩ | ⟨remoteService, created, inside, refused_iff, late⟩
    · exact iff_of_true (.of_failure (performed.trans early) failed .refl)
        fun both => unrefused both.1
    · rw [late] at performed
      rcases notify_cases callbacks serviceId router with
        ⟨node, there, asked, failed, notified⟩ | ⟨answered, after, notified, index, status, exact⟩
      · rw [notified] at performed
        dsimp only at performed
        rw [if_pos failed] at performed
        refine iff_of_true (.of_failure performed failed .refl) fun both => failed ?_
        exact (refused_iff.mp both.1).1 node there asked
      · rw [notified] at performed
        dsimp only at performed
        rw [if_neg (not_not.mpr rfl)] at performed
        rcases doRegistService_cases localNodeIndex dispatcherId remoteService serviceId
          after inside
          with ⟨running, free, bound⟩ | ⟨reason, errCode, failed, refused⟩
        · rw [bound] at performed
          rw [index] at free
          rw [status] at running
          refine iff_of_true (.of_success performed ⟨serviceId, remoteService, rfl, created, free,
            bind_self _⟩) fun both => ?_
          exact (refused_iff.mp both.1).2.elim (fun stopped => stopped running)
            fun taken => taken free
        · rw [refused] at performed
          dsimp only at performed
          rw [if_pos failed] at performed
          rw [index, status] at reason
          have isRefused := refused_iff.mpr ⟨answered, reason⟩
          rw [not_and, forall_prop_of_true isRefused, ← exact]
          refine ⟨fun transactional => ?_, .of_failure performed failed⟩
          have rollback := transactional.rollback
          rw [performed] at rollback
          exact rollback failed

/-- A call is a transaction unless it starts a router whose nodes fail, or registers a local
service that is refused after the other node has been misled about its id. -/
theorem transactional_iff (callbacks : Callbacks) (router : Router) (call : Call) :
    Transactional callbacks router call ↔ Safe callbacks router call := by
  cases call with
  | startMessageRouter => exact transactional_startMessageRouter
  | registLocalService dispatcherId mapper => exact transactional_registLocalService mapper
  | registRemoteService nodeId service =>
    exact iff_of_true (transactional_registRemoteService service) trivial
  | unregistLocalService dispatcherId serviceId =>
    refine iff_of_true ?_ trivial
    rcases unregistServiceInner_cases with ⟨errCode, failed, result⟩ | ⟨after, result, effect⟩
    · exact .of_failure result failed .refl
    · exact .of_success result effect
  | unregistRemoteService nodeId serviceId =>
    refine iff_of_true ?_ trivial
    rcases unregistServiceInner_cases with ⟨errCode, failed, result⟩ | ⟨after, result, effect⟩
    · exact .of_failure result failed .refl
    · exact .of_success result effect

end

/-! ### A refused registration -/

/-- A node with all callbacks. -/
def fullNode (object : ℕ) : MessageNode := ⟨object, true, true, true, true, true⟩

/-- All callbacks succeed, except that no local node is created. -/
def willing : Callbacks where
  lock := true
  createLocalNode := none
  init _ := meSuccess
  ref := true
  createRemoteService := some 8
  notifyServiceAdd _ := meSuccess
  notifyServiceDel _ := meSuccess

/-- A router on which a service has the id 3, which the remote node knows about. -/
def serving : Router where
  servicesIndex i := if i = 3 then ⟨localNodeIndex, 0, some 7⟩ else noService
  messageNodes i := if i = localNodeIndex then some (fullNode 1)
    else if i = remoteNodeIndex then some (fullNode 2) else none
  routerStatus := .running
  told i serviceId := i = remoteNodeIndex && serviceId = 3

/-- Registering another service with a taken id fails and hides the service that has the id;
starting a router without a local node succeeds and starts nothing. -/
theorem taken_id_withdrawn :
    (perform willing serving (.registLocalService 0 (some 3))).1 = meErrorServiceidConflict ∧
      serving.told remoteNodeIndex 3 = true ∧
      (perform willing serving (.registLocalService 0 (some 3))).2.told remoteNodeIndex 3 = false ∧
      (perform willing { serving with routerStatus := .stopped } .startMessageRouter).1 =
        meSuccess ∧
      (perform willing { serving with routerStatus := .stopped }
        .startMessageRouter).2.routerStatus = .stopped :=
  ⟨rfl, rfl, rfl, rfl, rfl⟩

end Hdf.Wifi.MessageRouter
