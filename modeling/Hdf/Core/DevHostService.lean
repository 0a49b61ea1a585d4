import Mathlib.Data.List.Flatten
import Hdf.Core.HdfDevice
import Hdf.Lib.KeyedList

/-!
# The devices of a host

A device host makes a device when the first of its nodes is added, and gives it up
when its last node is gone. A new device goes to the head of the list of devices, a
new node to the tail of the nodes of its device.

The outcomes of allocations, of looking for a driver and of launching a node are
arguments. A new node has the number of the call that makes it as its address.

## Main results

* `ordered_of_runs`: the devices are in the reverse order of their addition, the
  nodes of a device in the order of their attachment
-/

namespace Hdf.Core.DevHost

open KeyedList Device

/-- `struct DevHostService`. -/
structure DevHostService where
  hostId : UInt16
  devices : List HdfDevice
  deriving DecidableEq, Repr

/-- The number by which a device is found. -/
def deviceNumber (device : HdfDevice) : UInt32 := deviceIdOf device.deviceId

/-- `DevHostServiceFindDevice`. -/
def findDevice (hostService : DevHostService) (deviceId : UInt32) : Option HdfDevice :=
  search deviceNumber deviceId hostService.devices

/-- `DevHostServiceFreeDevice`. -/
def freeDevice (hostService : DevHostService) (device : HdfDevice) : DevHostService :=
  { hostService with devices := remove deviceNumber (deviceNumber device) hostService.devices }

/-- `HdfDeviceNewInstance` and the id that the host gives to the device. -/
def newDevice (inst : DevHostService) (deviceId : UInt32) : HdfDevice where
  deviceId := mkDevid inst.hostId.toUInt32 deviceId 0
  devidIndex := 0
  devNodes := []

/-- `DevHostServiceQueryOrAddDevice`, with the outcome of the allocation. -/
def queryOrAddDevice (inst : DevHostService) (deviceId : UInt32) (alloc : Bool) :
    Option (HdfDevice × DevHostService) :=
  match findDevice inst deviceId with
  | some device => some (device, inst)
  | none =>
    if alloc then
      let device := newDevice inst deviceId
      some (device, { inst with devices := device :: inst.devices })
    else none

/-- `HdfDeviceGetDeviceNode`. -/
def getDeviceNode (device : HdfDevice) (devIds : ℕ → UInt32) (devid : UInt32) : Option ℕ :=
  device.devNodes.find? fun devNode => devIds devNode = devid

/-- The host with a device in its new state. -/
def DevHostService.put (hostService : DevHostService) (device : HdfDevice) : DevHostService :=
  { hostService with
    devices := update deviceNumber (deviceNumber device) (fun _ => device) hostService.devices }

/-- Gives up a device without nodes. -/
def dropEmpty (hostService : DevHostService) (device : HdfDevice) : DevHostService :=
  if device.devNodes = [] then freeDevice hostService device else hostService

/-- The outcomes of what `DevHostServiceAddDevice` calls. -/
structure Outcomes where
  deviceAlloc : Bool
  driver : Bool
  nodeAlloc : Bool
  launch : HdfStatus
  deriving DecidableEq, Repr

/-- `DevHostServiceAddDevice`, for a node at an address. -/
def devHostServiceAddDevice (deviceId : UInt32) (outcomes : Outcomes) (address : ℕ)
    (hostService : DevHostService) (devIds : ℕ → UInt32) :
    Option (HdfStatus × DevHostService × (ℕ → UInt32)) :=
  match queryOrAddDevice hostService (deviceIdOf deviceId) outcomes.deviceAlloc with
  | none => some (.noDevice, hostService, devIds)
  | some (device, hostService) =>
    if (getDeviceNode device devIds deviceId).isSome then
      some (.deviceBusy, hostService, devIds)
    else if !outcomes.driver then some (.noData, dropEmpty hostService device, devIds)
    else if !outcomes.nodeAlloc then some (.noMemory, hostService, devIds)
    else
      (hdfDeviceAttach address (some outcomes.launch) device
        (Function.update devIds address deviceId)).map fun (ret, device, devIds) =>
          let hostService := hostService.put device
          if ret ≠ .success then (ret, dropEmpty hostService device, devIds)
          else (.success, hostService, devIds)

/-- `DevHostServiceDelDevice`. -/
def devHostServiceDelDevice (devId : UInt32) (hostService : DevHostService)
    (devIds : ℕ → UInt32) : HdfStatus × DevHostService :=
  match findDevice hostService (deviceIdOf devId) with
  | none => (.success, hostService)
  | some device =>
    match getDeviceNode device devIds devId with
    | none => (.noDevice, hostService)
    | some devNode =>
      let (ret, device) := hdfDeviceDetach devNode device devIds
      if ret ≠ .success then (.failure, hostService)
      else (.success, dropEmpty (hostService.put device) device)

/-- A call on a host. -/
inductive Call where
  | add (deviceId : UInt32) (outcomes : Outcomes)
  | del (devId : UInt32)
  deriving DecidableEq

/-- A host, the ids in the nodes, the number of calls so far and for every device number the
call that has made the device. -/
structure History where
  service : DevHostService
  devIds : ℕ → UInt32
  now : ℕ
  addedAt : UInt32 → ℕ

/-- A call, and its time. -/
def step (call : Call) (h : History) : Option History :=
  match call with
  | .add deviceId outcomes =>
    (devHostServiceAddDevice deviceId outcomes h.now h.service h.devIds).map
      fun (_, service, devIds) => {
        service := service
        devIds := devIds
        now := h.now + 1
        addedAt :=
          if (findDevice h.service (deviceIdOf deviceId)).isSome then h.addedAt
          else Function.update h.addedAt (deviceIdOf deviceId) h.now }
  | .del devId =>
    some { h with
      service := (devHostServiceDelDevice devId h.service h.devIds).2
      now := h.now + 1 }

/-- A host without devices. -/
def start (hostId : UInt16) : History where
  service := { hostId, devices := [] }
  devIds := fun _ => 0
  now := 0
  addedAt := fun _ => 0

/-- The devices are in the reverse order of their addition, the nodes of each device are in the
order of their attachment, and no node is there twice. -/
structure Ordered (h : History) : Prop where
  devices : h.service.devices.Pairwise fun a b =>
    h.addedAt (deviceNumber b) < h.addedAt (deviceNumber a)
  nodes : ∀ device ∈ h.service.devices, device.devNodes.Pairwise (· < ·)
  distinct : (h.service.devices.flatMap (·.devNodes)).Nodup

/-! ### Lists of devices -/

/-- The devices are in order. Bounds on the times of devices and of nodes. -/
structure Kept (addedAt : UInt32 → ℕ) (devBound nodeBound : ℕ) (devices : List HdfDevice) :
    Prop where
  order : (devices.map deviceNumber).Pairwise fun a b => addedAt b < addedAt a
  devEarly : ∀ number ∈ devices.map deviceNumber, addedAt number < devBound
  nodes : ∀ device ∈ devices, device.devNodes.Pairwise (· < ·)
  nodeEarly : ∀ node ∈ devices.flatMap (·.devNodes), node < nodeBound
  distinct : (devices.flatMap (·.devNodes)).Nodup

section

variable {addedAt : UInt32 → ℕ} {devBound nodeBound : ℕ} {devices devices' : List HdfDevice}
  {device old : HdfDevice} {number : UInt32} {node : ℕ}

theorem Kept.mono {devBound' nodeBound' : ℕ} (kept : Kept addedAt devBound nodeBound devices)
    (dev : devBound ≤ devBound') (node : nodeBound ≤ nodeBound') :
    Kept addedAt devBound' nodeBound' devices :=
  { kept with
    devEarly := fun number member => (kept.devEarly number member).trans_le dev
    nodeEarly := fun n member => (kept.nodeEarly n member).trans_le node }

theorem Kept.sublist (kept : Kept addedAt devBound nodeBound devices)
    (fewer : devices'.Sublist devices) : Kept addedAt devBound nodeBound devices' where
  order := kept.order.sublist (fewer.map _)
  devEarly number member := kept.devEarly number ((fewer.map _).mem member)
  nodes device member := kept.nodes device (fewer.mem member)
  nodeEarly node member := by
    obtain ⟨device, there, own⟩ := List.mem_flatMap.mp member
    exact kept.nodeEarly node (List.mem_flatMap.mpr ⟨device, fewer.mem there, own⟩)
  distinct := by
    exact kept.distinct.sublist (fewer.flatMap _)

/-- The time of a device that is not there. -/
theorem Kept.stamp (kept : Kept addedAt devBound nodeBound devices)
    (absent : number ∉ devices.map deviceNumber) :
    Kept (Function.update addedAt number devBound) (devBound + 1) nodeBound devices := by
  have same {other : UInt32} (member : other ∈ devices.map deviceNumber) :
      Function.update addedAt number devBound other = addedAt other :=
    Function.update_of_ne (fun equal : other = number => absent (equal ▸ member)) _ _
  exact { kept with
    order := kept.order.imp_of_mem fun first second later => by rwa [same first, same second]
    devEarly := fun other member => by
      rw [same member]
      exact Nat.lt_succ_of_lt (kept.devEarly other member) }

/-- A new device at the head. -/
theorem Kept.insert (kept : Kept addedAt devBound nodeBound devices)
    (empty : device.devNodes = []) (absent : deviceNumber device ∉ devices.map deviceNumber) :
    Kept (Function.update addedAt (deviceNumber device) devBound) (devBound + 1) nodeBound
      (device :: devices) := by
  have stamped := kept.stamp absent
  have flat : (device :: devices).flatMap (·.devNodes) = devices.flatMap (·.devNodes) := by
    rw [List.flatMap_cons, empty, List.nil_append]
  constructor
  · rw [List.map_cons, List.pairwise_cons, Function.update_self]
    refine ⟨fun number member => ?_, stamped.order⟩
    have differs : number ≠ deviceNumber device := fun equal => absent (equal ▸ member)
    rw [Function.update_of_ne differs]
    exact kept.devEarly number member
  · rw [List.map_cons, List.forall_mem_cons, Function.update_self]
    exact ⟨Nat.lt_succ_self _, stamped.devEarly⟩
  · rw [List.forall_mem_cons, empty]
    exact ⟨List.Pairwise.nil, kept.nodes⟩
  · exact flat ▸ kept.nodeEarly
  · exact flat ▸ kept.distinct

theorem map_deviceNumber_put (hostService : DevHostService) (device : HdfDevice) :
    (hostService.put device).devices.map deviceNumber = hostService.devices.map deviceNumber :=
  map_key_update fun _ _ => rfl

theorem flatMap_update_sublist (found : search deviceNumber number devices = some old)
    (fewer : device.devNodes.Sublist old.devNodes) :
    ((update deviceNumber number (fun _ => device) devices).flatMap (·.devNodes)).Sublist
      (devices.flatMap (·.devNodes)) := by
  induction devices with
  | nil => cases found
  | cons first rest ih =>
    rw [search_cons] at found
    rw [update]
    split
    case isTrue same =>
      obtain rfl := Option.some.inj ((if_pos same).symm.trans found)
      exact fewer.append (.refl _)
    case isFalse differs =>
      rw [if_neg differs] at found
      exact (List.Sublist.refl _).append (ih found)

theorem flatMap_update_perm (found : search deviceNumber number devices = some old)
    (more : device.devNodes = old.devNodes ++ [node]) :
    ((update deviceNumber number (fun _ => device) devices).flatMap (·.devNodes)).Perm
      (node :: devices.flatMap (·.devNodes)) := by
  induction devices with
  | nil => cases found
  | cons first rest ih =>
    rw [search_cons] at found
    rw [update]
    split
    case isTrue same =>
      obtain rfl := Option.some.inj ((if_pos same).symm.trans found)
      rw [List.flatMap_cons, more, List.append_assoc]
      exact List.perm_middle
    case isFalse differs =>
      rw [if_neg differs] at found
      exact ((ih found).append_left _).trans List.perm_middle

/-- A device that keeps some of its nodes. -/
theorem Kept.fewer {hostService : DevHostService}
    (kept : Kept addedAt devBound nodeBound hostService.devices)
    (found : findDevice hostService (deviceNumber device) = some old)
    (fewer : device.devNodes.Sublist old.devNodes) :
    Kept addedAt devBound nodeBound (hostService.put device).devices where
  order := map_deviceNumber_put hostService device ▸ kept.order
  devEarly := map_deviceNumber_put hostService device ▸ kept.devEarly
  nodes other member := by
    rcases mem_update member with member | ⟨_, _, rfl⟩
    · exact kept.nodes other member
    · exact (kept.nodes old (mem_of_search found)).sublist fewer
  nodeEarly node member := kept.nodeEarly node ((flatMap_update_sublist found fewer).mem member)
  distinct := kept.distinct.sublist (flatMap_update_sublist found fewer)

/-- A device that gets a new node. -/
theorem Kept.more {hostService : DevHostService}
    (kept : Kept addedAt devBound nodeBound hostService.devices)
    (found : findDevice hostService (deviceNumber device) = some old)
    (more : device.devNodes = old.devNodes ++ [nodeBound]) :
    Kept addedAt devBound (nodeBound + 1) (hostService.put device).devices := by
  have flat := flatMap_update_perm found more
  constructor
  · exact map_deviceNumber_put hostService device ▸ kept.order
  · exact map_deviceNumber_put hostService device ▸ kept.devEarly
  · intro other member
    rcases mem_update member with member | ⟨_, _, rfl⟩
    · exact kept.nodes other member
    · have own := mem_of_search found
      rw [more, List.pairwise_append]
      refine ⟨kept.nodes old own, List.pairwise_singleton _ _, fun node there last new => ?_⟩
      rw [List.mem_singleton.mp new]
      exact kept.nodeEarly node (List.mem_flatMap.mpr ⟨old, own, there⟩)
  · intro node member
    rcases List.mem_cons.mp (flat.mem_iff.mp member) with rfl | before
    · exact Nat.lt_succ_self _
    · exact Nat.lt_succ_of_lt (kept.nodeEarly node before)
  · refine flat.nodup_iff.mpr (List.nodup_cons.mpr ?_)
    exact ⟨fun member => lt_irrefl _ (kept.nodeEarly _ member), kept.distinct⟩

theorem dropEmpty_sublist {hostService : DevHostService} :
    (dropEmpty hostService device).devices.Sublist hostService.devices := by
  unfold dropEmpty
  split
  · exact List.eraseP_sublist
  · exact .refl _

end

/-! ### Calls -/

section

variable {device device' : HdfDevice} {devIds devIds' : ℕ → UInt32} {node : ℕ} {h t : History}
  {ret status : HdfStatus} {hostService : DevHostService}

theorem devNodes_of_hdfDeviceAttach
    (attached : hdfDeviceAttach node (some ret) device devIds = some (status, device', devIds')) :
    device'.deviceId = device.deviceId ∧
      (device'.devNodes = device.devNodes ∨ device'.devNodes = device.devNodes ++ [node]) := by
  unfold hdfDeviceAttach at attached
  dsimp only at attached
  split at attached
  · cases attached
    exact ⟨rfl, .inl rfl⟩
  · rename_i acquired devIds acquisition
    have same : acquired.deviceId = device.deviceId ∧ acquired.devNodes = device.devNodes := by
      split at acquisition
      · obtain ⟨⟨device, devid⟩, acquires, same⟩ := Option.map_eq_some_iff.mp acquisition
        cases same
        unfold acquireNodeDeivceId at acquires
        split at acquires
        · cases acquires
        · cases acquires
          exact ⟨rfl, rfl⟩
      · cases acquisition
        exact ⟨rfl, rfl⟩
    split at attached
    · split at attached
      · cases attached
      · cases attached
        rw [deviceId_updateDeivceNodeIdIndex, devNodes_updateDeivceNodeIdIndex]
        exact ⟨same.1, .inr (by rw [same.2])⟩
    · cases attached
      exact ⟨same.1, .inl same.2⟩

theorem hdfDeviceDetach_snd (node : ℕ) (device : HdfDevice) (devIds : ℕ → UInt32) :
    (hdfDeviceDetach node device devIds).2.deviceId = device.deviceId ∧
      (hdfDeviceDetach node device devIds).2.devNodes.Sublist device.devNodes := by
  unfold hdfDeviceDetach
  split
  · exact ⟨rfl, .refl _⟩
  · exact ⟨rfl, List.erase_sublist⟩

theorem deviceNumber_newDevice (hostService : DevHostService) (deviceId : UInt32) :
    deviceNumber (newDevice hostService (deviceIdOf deviceId)) = deviceIdOf deviceId := by
  apply UInt32.toNat_inj.mp
  rw [deviceNumber, newDevice, toNat_deviceIdOf_mkDevid,
    Nat.mod_eq_of_lt (deviceIdOf_lt deviceId)]
  simp

variable {addedAt addedAt' : UInt32 → ℕ} {now : ℕ} {deviceId : UInt32}

/-- The device that is found or made, at the time of a call. -/
theorem Kept.query (kept : Kept addedAt now now hostService.devices) (alloc : Bool)
    (stamped : addedAt' = if (findDevice hostService (deviceIdOf deviceId)).isSome then addedAt
      else Function.update addedAt (deviceIdOf deviceId) now) :
    Kept addedAt' (now + 1) now hostService.devices ∧
    ∀ device hostService', queryOrAddDevice hostService (deviceIdOf deviceId) alloc =
        some (device, hostService') →
      Kept addedAt' (now + 1) now hostService'.devices ∧
        findDevice hostService' (deviceNumber device) = some device := by
  have later := Nat.le_succ now
  unfold queryOrAddDevice
  cases found : findDevice hostService (deviceIdOf deviceId) with
  | some device =>
    rw [found] at stamped
    obtain rfl := stamped
    refine ⟨kept.mono later le_rfl, fun device' hostService' made => ?_⟩
    cases made
    have number : deviceNumber device = deviceIdOf deviceId := key_of_search found
    exact ⟨kept.mono later le_rfl, number ▸ found⟩
  | none =>
    rw [found] at stamped
    obtain rfl := stamped
    have absent := search_eq_none_iff.mp found
    refine ⟨kept.stamp absent, fun device' hostService' made => ?_⟩
    obtain ⟨-, same⟩ := Option.ite_none_right_eq_some.mp made
    cases same
    have number := deviceNumber_newDevice hostService deviceId
    rw [← number] at absent
    have inserted := kept.insert rfl absent
    rw [number] at inserted
    exact ⟨inserted, search_cons.trans (if_pos rfl)⟩

theorem Kept.add {outcomes : Outcomes} {service : DevHostService}
    (kept : Kept addedAt now now hostService.devices)
    (stamped : addedAt' = if (findDevice hostService (deviceIdOf deviceId)).isSome then addedAt
      else Function.update addedAt (deviceIdOf deviceId) now)
    (added : devHostServiceAddDevice deviceId outcomes now hostService devIds =
      some (status, service, devIds')) : Kept addedAt' (now + 1) (now + 1) service.devices := by
  have later := Nat.le_succ now
  obtain ⟨unmade, made⟩ := kept.query outcomes.deviceAlloc stamped
  unfold devHostServiceAddDevice at added
  split at added
  · cases added
    exact unmade.mono le_rfl later
  · rename_i device hostService queried
    obtain ⟨kept, found⟩ := made device hostService queried
    have same := kept.mono le_rfl later
    split at added
    · cases added
      exact same
    · split at added
      · cases added
        exact same.sublist dropEmpty_sublist
      · split at added
        · cases added
          exact same
        · obtain ⟨⟨ret, device', devIds'⟩, attached, result⟩ := Option.map_eq_some_iff.mp added
          obtain ⟨number, nodes⟩ := devNodes_of_hdfDeviceAttach attached
          have own : deviceNumber device' = deviceNumber device := congrArg deviceIdOf number
          rw [← own] at found
          have put : Kept addedAt' (now + 1) (now + 1) (hostService.put device').devices := by
            rcases nodes with unchanged | more
            · exact same.fewer found (unchanged ▸ .refl _)
            · exact kept.more found more
          dsimp only at result
          split at result
          · cases result
            exact put.sublist dropEmpty_sublist
          · cases result
            exact put

theorem Kept.del {devBound nodeBound : ℕ}
    (kept : Kept addedAt devBound nodeBound hostService.devices) :
    Kept addedAt devBound nodeBound
      (devHostServiceDelDevice deviceId hostService devIds).2.devices := by
  unfold devHostServiceDelDevice
  split
  · exact kept
  · rename_i device found
    split
    · exact kept
    · rename_i devNode _
      obtain ⟨number, fewer⟩ := hdfDeviceDetach_snd devNode device devIds
      have key : deviceNumber device = deviceIdOf deviceId := key_of_search found
      have own : deviceNumber (hdfDeviceDetach devNode device devIds).2 = deviceIdOf deviceId :=
        (congrArg deviceIdOf number).trans key
      rw [← own] at found
      dsimp only
      split
      · exact kept
      · exact (kept.fewer found fewer).sublist dropEmpty_sublist

theorem Kept.step {call : Call} (kept : Kept h.addedAt h.now h.now h.service.devices)
    (stepped : step call h = some t) : Kept t.addedAt t.now t.now t.service.devices := by
  cases call with
  | add deviceId outcomes =>
    obtain ⟨⟨status, service, devIds⟩, added, rfl⟩ := Option.map_eq_some_iff.mp stepped
    exact kept.add rfl added
  | del devId =>
    obtain rfl := Option.some.inj stepped
    exact kept.del.mono (Nat.le_succ _) (Nat.le_succ _)

theorem ordered_of_kept (kept : Kept h.addedAt h.now h.now h.service.devices) : Ordered h where
  devices := List.pairwise_map.mp kept.order
  nodes := kept.nodes
  distinct := kept.distinct

/-- In every state of a host, the devices and their nodes are in order. -/
theorem ordered_of_runs {hostId : UInt16} {calls : List Call}
    (ran : runs DevHost.step (start hostId) calls = some h) : Ordered h := by
  have first : Kept (start hostId).addedAt (start hostId).now (start hostId).now
      (start hostId).service.devices :=
    ⟨List.Pairwise.nil, fun _ member => absurd member List.not_mem_nil,
      fun _ member => absurd member List.not_mem_nil,
      fun _ member => absurd member List.not_mem_nil, List.nodup_nil⟩
  have meets : Meets DevHost.step (fun _ _ => True) (start hostId) calls :=
    meets_of_forall (P := fun _ => True) fun _ _ => trivial
  exact ordered_of_kept (runs_invariant (I := fun h => Kept h.addedAt h.now h.now h.service.devices)
    (fun _ _ _ kept _ stepped => kept.step stepped) first meets ran)

end

end Hdf.Core.DevHost
