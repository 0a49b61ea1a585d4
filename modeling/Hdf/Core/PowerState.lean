import Hdf.Core.DevHostService

/-!
# Power states

The device manager tells every host of a new power state, a host tells its devices
and a device its nodes. A node with a power token in system mode answers through
the callback that its driver has registered for that state, if there is one.

The nodes of a host are named by the place of the client in memory and by the number
of the call that has made the node.

## Main results

* `called_eq`: the callbacks that a power state runs
* `suspend_mirrors_resume`: suspending goes the way of resuming backwards
-/

namespace Hdf.Core.PowerState

open DevHost
open Device (HdfDevice)

/-- `enum HdfPowerState`. -/
inductive HdfPowerState where
  | dozeResume | dozeSuspend | resume | suspend | max
  deriving DecidableEq, Repr

/-- `IsPowerWakeState`. -/
def isPowerWakeState (state : HdfPowerState) : Bool :=
  state = .dozeResume || state = .resume

/-- `IsValidPowerState`. -/
def isValidPowerState (state : HdfPowerState) : Bool := state ≠ .max

/-- `enum PowerManagementMode`. -/
inductive PowerManagementMode where
  | sysCtrl | dynamicCtrl | modeMax
  deriving DecidableEq, Repr

/-- `struct IPowerEventListener`: which of the callbacks are not null. -/
structure IPowerEventListener where
  dozeResume : Bool
  dozeSuspend : Bool
  resume : Bool
  suspend : Bool
  deriving DecidableEq, Repr

/-- `struct PowerStateToken`. -/
structure PowerStateToken where
  listener : Option IPowerEventListener
  mode : PowerManagementMode
  deriving DecidableEq, Repr

/-- The callback for a state is not null. -/
def IPowerEventListener.handles (listener : IPowerEventListener) : HdfPowerState → Bool
  | .suspend => listener.suspend
  | .resume => listener.resume
  | .dozeSuspend => listener.dozeSuspend
  | .dozeResume => listener.dozeResume
  | .max => false

/-- The answer to a power state and the nodes whose callbacks have been run, in order. -/
abbrev Answer (ν : Type*) := HdfStatus × List ν

section

variable {ν : Type*}

/-- `PowerStateChange` for the token of a node, with what its callback returns. -/
def powerStateChange (node : ν) (stateToken : Option PowerStateToken) (pEvent : HdfPowerState)
    (answer : HdfStatus) : Answer ν :=
  match stateToken with
  | none => (.success, [])
  | some token =>
    match token.listener with
    | none => (.success, [])
    | some listener =>
      if token.mode ≠ .sysCtrl then (.success, [])
      else if listener.handles pEvent then (answer, [node])
      else (.success, [])

/-- `ApplyDevicesPowerState`. What the nodes answer is logged only. -/
def applyDevicesPowerState (device : HdfDevice) (state : HdfPowerState)
    (powerToken : ℕ → Option PowerStateToken) (answers : ℕ → HdfStatus) : Answer ℕ :=
  let devNodes := if isPowerWakeState state then device.devNodes else device.devNodes.reverse
  (.success, devNodes.flatMap fun deviceNode =>
    (powerStateChange deviceNode (powerToken deviceNode) state (answers deviceNode)).2)

/-- The answers of several parties, told one after the other. -/
def collect {α μ : Type*} (tell : α → Answer μ) : List α → Answer μ
  | [] => (.success, [])
  | first :: rest =>
    let (ret, called) := tell first
    let (result, later) := collect tell rest
    (if ret ≠ .success then .failure else result, called ++ later)

/-- `DevHostServicePmNotify`. -/
def devHostServicePmNotify (hostService : DevHostService) (state : HdfPowerState)
    (powerToken : ℕ → Option PowerStateToken) (answers : ℕ → HdfStatus) : Answer ℕ :=
  let devices :=
    if isPowerWakeState state then hostService.devices.reverse else hostService.devices
  collect (fun device => applyDevicesPowerState device state powerToken answers) devices

end

/-- A host after calls that have added and taken away devices. -/
structure Host where
  history : History
  reached : ∃ hostId calls, runs DevHost.step (start hostId) calls = some history

/-- `struct DevHostServiceClnt` at its place in memory. A host that has not been started has
no service. -/
structure DevHostServiceClnt where
  place : ℕ
  hostService : Option Host

/-- `struct DevmgrService`: the clients on the list are different ones. -/
structure DevmgrService where
  hosts : List DevHostServiceClnt
  apart : hosts.Pairwise fun a b => a.place ≠ b.place

/-- A node: the place of the client of its host, and the call that has made it. -/
abbrev Node := ℕ × ℕ

/-- Tells a client of a state, if it has a service. -/
def notifyHost (state : HdfPowerState) (powerToken : Node → Option PowerStateToken)
    (answers : Node → HdfStatus) (hostClient : DevHostServiceClnt) : Answer Node :=
  match hostClient.hostService with
  | none => (.success, [])
  | some host =>
    let (ret, called) := devHostServicePmNotify host.history.service state
      (fun node => powerToken (hostClient.place, node))
      (fun node => answers (hostClient.place, node))
    (ret, called.map fun node => (hostClient.place, node))

/-- `DevmgrServicePowerStateChange`. -/
def devmgrServicePowerStateChange (devmgr : DevmgrService) (powerState : HdfPowerState)
    (powerToken : Node → Option PowerStateToken) (answers : Node → HdfStatus) : Answer Node :=
  if !isValidPowerState powerState then (.invalidParam, [])
  else
    let hosts := if isPowerWakeState powerState then devmgr.hosts else devmgr.hosts.reverse
    collect (notifyHost powerState powerToken answers) hosts

/-! ### The order of the nodes -/

/-- The nodes of the devices of a host, the device that came first in front. -/
def hostOrder (hostService : DevHostService) : List ℕ :=
  hostService.devices.reverse.flatMap (·.devNodes)

/-- The nodes of the host of a client. -/
def clientOrder (hostClient : DevHostServiceClnt) : List Node :=
  match hostClient.hostService with
  | none => []
  | some host => (hostOrder host.history.service).map fun node => (hostClient.place, node)

/-- The nodes of all hosts. -/
def attachOrder (devmgr : DevmgrService) : List Node := devmgr.hosts.flatMap clientOrder

/-- The node has a power token in system mode with a callback for a state. -/
def callable (state : HdfPowerState) (token : Option PowerStateToken) : Bool :=
  match token with
  | none => false
  | some token =>
    match token.listener with
    | none => false
    | some listener => token.mode = .sysCtrl && listener.handles state

/-- The first node is on a device that was added before, or was attached before on the same
device. -/
def EarlierOn (h : History) (a b : ℕ) : Prop :=
  ∃ first ∈ h.service.devices, ∃ second ∈ h.service.devices,
    a ∈ first.devNodes ∧ b ∈ second.devNodes ∧
      (h.addedAt (deviceNumber first) < h.addedAt (deviceNumber second) ∨
        first = second ∧ a < b)

/-- Of two nodes of one host, the first has come before the second. -/
def Earlier (devmgr : DevmgrService) (a b : Node) : Prop :=
  a.1 = b.1 → ∃ hostClient ∈ devmgr.hosts, hostClient.place = a.1 ∧
    ∃ host ∈ hostClient.hostService, EarlierOn host.history a.2 b.2

/-- The callbacks that a power state runs. -/
def called (devmgr : DevmgrService) (state : HdfPowerState)
    (powerToken : Node → Option PowerStateToken) (answers : Node → HdfStatus) : List Node :=
  (devmgrServicePowerStateChange devmgr state powerToken answers).2

section

variable {state : HdfPowerState} {powerToken : Node → Option PowerStateToken}
  {answers : Node → HdfStatus}

theorem powerStateChange_snd {ν : Type*} (node : ν) (token : Option PowerStateToken)
    (answer : HdfStatus) :
    (powerStateChange node token state answer).2 = if callable state token then [node] else [] := by
  unfold powerStateChange callable
  rcases token with _ | ⟨_ | listener, mode⟩
  · rfl
  · rfl
  · by_cases system : mode = .sysCtrl <;> simp [system]
    cases listener.handles state <;> rfl

theorem flatMap_ite_singleton {α : Type*} (p : α → Bool) (l : List α) :
    (l.flatMap fun a => if p a then [a] else []) = l.filter p := by
  induction l with
  | nil => rfl
  | cons first rest ih =>
    rw [List.flatMap_cons, ih, List.filter_cons]
    split <;> rfl

/-- A list as it is or turned round. -/
def directed {α : Type*} (forward : Bool) (l : List α) : List α :=
  if forward then l else l.reverse

theorem directed_flatMap {α β : Type*} (forward : Bool) (f : α → List β) (l : List α) :
    ((directed forward l).flatMap fun a => directed forward (f a)) =
      directed forward (l.flatMap f) := by
  cases forward with
  | true => rfl
  | false => exact List.reverse_flatMap.symm

theorem directed_map {α β : Type*} (forward : Bool) (f : α → β) (l : List α) :
    (directed forward l).map f = directed forward (l.map f) := by
  cases forward with
  | true => rfl
  | false => exact List.map_reverse

theorem directed_filter {α : Type*} (forward : Bool) (p : α → Bool) (l : List α) :
    (directed forward l).filter p = directed forward (l.filter p) := by
  cases forward with
  | true => rfl
  | false => exact List.filter_reverse

theorem collect_snd {α μ : Type*} (tell : α → Answer μ) (l : List α) :
    (collect tell l).2 = l.flatMap fun a => (tell a).2 := by
  induction l with
  | nil => rfl
  | cons first rest ih => rw [List.flatMap_cons, ← ih, collect]

theorem applyDevicesPowerState_snd (device : HdfDevice)
    (powerToken : ℕ → Option PowerStateToken) (answers : ℕ → HdfStatus) :
    (applyDevicesPowerState device state powerToken answers).2 =
      directed (isPowerWakeState state)
        (device.devNodes.filter fun node => callable state (powerToken node)) := by
  rw [← directed_filter, ← flatMap_ite_singleton]
  unfold applyDevicesPowerState
  simp only [powerStateChange_snd]
  rfl

theorem devHostServicePmNotify_snd (hostService : DevHostService)
    (powerToken : ℕ → Option PowerStateToken) (answers : ℕ → HdfStatus) :
    (devHostServicePmNotify hostService state powerToken answers).2 =
      directed (isPowerWakeState state)
        ((hostOrder hostService).filter fun node => callable state (powerToken node)) := by
  have walked : (if isPowerWakeState state then hostService.devices.reverse
      else hostService.devices) =
      directed (isPowerWakeState state) hostService.devices.reverse := by
    cases wake : isPowerWakeState state <;> simp [directed]
  unfold devHostServicePmNotify
  rw [collect_snd, walked]
  simp only [applyDevicesPowerState_snd]
  rw [directed_flatMap, hostOrder, List.filter_flatMap]

theorem notifyHost_snd (hostClient : DevHostServiceClnt) :
    (notifyHost state powerToken answers hostClient).2 =
      directed (isPowerWakeState state)
        ((clientOrder hostClient).filter fun node => callable state (powerToken node)) := by
  unfold notifyHost clientOrder
  cases hostClient.hostService with
  | none => cases wake : isPowerWakeState state <;> rfl
  | some host =>
    dsimp only
    rw [devHostServicePmNotify_snd, directed_map, List.filter_map]
    rfl

/-- The callbacks that are run: all of the state in the order of the nodes, or backwards. -/
theorem called_eq (devmgr : DevmgrService) (valid : isValidPowerState state) :
    called devmgr state powerToken answers =
      directed (isPowerWakeState state)
        ((attachOrder devmgr).filter fun node => callable state (powerToken node)) := by
  unfold called devmgrServicePowerStateChange
  rw [valid, Bool.not_true, if_neg Bool.false_ne_true, collect_snd]
  simp only [notifyHost_snd]
  exact (directed_flatMap _ _ _).trans (congrArg _ List.filter_flatMap.symm)

theorem pairwise_hostOrder {h : History} (ordered : Ordered h) :
    (hostOrder h.service).Pairwise (EarlierOn h) := by
  unfold hostOrder
  rw [List.pairwise_flatMap, List.pairwise_reverse]
  constructor
  · intro device member
    rw [List.mem_reverse] at member
    exact (ordered.nodes device member).imp_of_mem fun here there earlier =>
      ⟨device, member, device, member, here, there, .inr ⟨rfl, earlier⟩⟩
  · exact ordered.devices.imp_of_mem fun last first earlier a here b there =>
      ⟨_, first, _, last, here, there, .inl earlier⟩

theorem nodup_hostOrder {h : History} (ordered : Ordered h) : (hostOrder h.service).Nodup :=
  ((List.reverse_perm h.service.devices).flatMap_right _).nodup_iff.mpr ordered.distinct

theorem Host.ordered (host : Host) : Ordered host.history := by
  obtain ⟨hostId, calls, ran⟩ := host.reached
  exact ordered_of_runs ran

theorem fst_of_mem_clientOrder {hostClient : DevHostServiceClnt} {node : Node}
    (member : node ∈ clientOrder hostClient) : node.1 = hostClient.place := by
  unfold clientOrder at member
  split at member
  · exact absurd member List.not_mem_nil
  · obtain ⟨_, _, rfl⟩ := List.mem_map.mp member
    rfl

theorem pairwise_attachOrder (devmgr : DevmgrService) :
    (attachOrder devmgr).Pairwise (Earlier devmgr) := by
  unfold attachOrder
  rw [List.pairwise_flatMap]
  constructor
  · intro hostClient member
    unfold clientOrder
    split
    · exact List.Pairwise.nil
    · rename_i host started
      rw [List.pairwise_map]
      exact (pairwise_hostOrder host.ordered).imp fun earlier _ =>
        ⟨hostClient, member, rfl, host, started, earlier⟩
  · refine devmgr.apart.imp fun differ a here b there same => ?_
    rw [fst_of_mem_clientOrder here, fst_of_mem_clientOrder there] at same
    exact absurd same differ

theorem nodup_attachOrder (devmgr : DevmgrService) : (attachOrder devmgr).Nodup := by
  unfold attachOrder
  rw [List.nodup_flatMap]
  constructor
  · intro hostClient _
    unfold clientOrder
    split
    · exact List.nodup_nil
    · rename_i host _
      exact (nodup_hostOrder host.ordered).map (Prod.mk_right_injective _)
  · refine devmgr.apart.imp fun differ node here there => ?_
    exact differ ((fst_of_mem_clientOrder here).symm.trans (fst_of_mem_clientOrder there))

/-- Suspending goes the way of resuming backwards, as far as the nodes have both callbacks.
Every callback that is there runs once, and those for resuming in the order in which the
nodes have come. -/
theorem suspend_mirrors_resume (devmgr : DevmgrService)
    (powerToken : Node → Option PowerStateToken) (answers answers' : Node → HdfStatus) :
    ((called devmgr .suspend powerToken answers').filter
        fun node => callable .resume (powerToken node)) =
      ((called devmgr .resume powerToken answers).filter
        fun node => callable .suspend (powerToken node)).reverse ∧
    (called devmgr .resume powerToken answers).Nodup ∧
    (called devmgr .suspend powerToken answers').Nodup ∧
    (∀ node, node ∈ called devmgr .resume powerToken answers ↔
      node ∈ attachOrder devmgr ∧ callable .resume (powerToken node)) ∧
    (∀ node, node ∈ called devmgr .suspend powerToken answers' ↔
      node ∈ attachOrder devmgr ∧ callable .suspend (powerToken node)) ∧
    (called devmgr .resume powerToken answers).Pairwise (Earlier devmgr) := by
  have resumed : called devmgr .resume powerToken answers =
      (attachOrder devmgr).filter fun node => callable .resume (powerToken node) :=
    called_eq devmgr rfl
  have suspended : called devmgr .suspend powerToken answers' =
      ((attachOrder devmgr).filter fun node => callable .suspend (powerToken node)).reverse :=
    called_eq devmgr rfl
  have once := nodup_attachOrder devmgr
  rw [resumed, suspended]
  refine ⟨?_, once.filter _, List.nodup_reverse.mpr (once.filter _), fun node => ?_,
    fun node => ?_, (pairwise_attachOrder devmgr).filter _⟩
  · rw [List.filter_reverse, List.filter_filter, List.filter_filter]
    simp only [Bool.and_comm]
  · exact List.mem_filter
  · rw [List.mem_reverse]
    exact List.mem_filter

end

/-! ### A node that can only be resumed -/

/-- A host with one node. -/
private def singleNode : List Call :=
  [.add 0 { deviceAlloc := true, driver := true, nodeAlloc := true, launch := .success }]

private theorem exists_singleNode :
    ∃ h, runs DevHost.step (start 0) singleNode = some h ∧ hostOrder h.service = [0] :=
  ⟨_, rfl, rfl⟩

/-- A driver may have a callback for resuming and none for suspending. -/
theorem resume_without_suspend :
    ¬ ∀ (devmgr : DevmgrService) (powerToken : Node → Option PowerStateToken)
        (answers : Node → HdfStatus),
      called devmgr .suspend powerToken answers =
        (called devmgr .resume powerToken answers).reverse := by
  intro mirrors
  obtain ⟨h, ran, order⟩ := exists_singleNode
  let host : Host := ⟨h, 0, singleNode, ran⟩
  let devmgr : DevmgrService := ⟨[⟨0, some host⟩], List.pairwise_singleton _ _⟩
  let listener : IPowerEventListener :=
    { dozeResume := false, dozeSuspend := false, resume := true, suspend := false }
  have nodes : attachOrder devmgr = [(0, 0)] := by
    show [_].flatMap clientOrder = _
    rw [List.flatMap_singleton, clientOrder]
    exact congrArg (List.map _) order
  have mirror := mirrors devmgr (fun _ => some ⟨some listener, .sysCtrl⟩) fun _ => .success
  rw [called_eq devmgr rfl, called_eq devmgr rfl, nodes] at mirror
  cases mirror

end Hdf.Core.PowerState
