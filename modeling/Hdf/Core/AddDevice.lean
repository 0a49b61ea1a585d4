import Hdf.Core.DevHostService
import Hdf.Core.ServiceNames
import Hdf.Core.ServiceObserver

/-!
# What a failed addition of a device leaves behind

To add a device is to make a node, to launch its driver, to publish its service in the
service manager and in the observer of the host, and to attach the node to the device
manager. When a step fails, the node is given back, which takes the service out of the
service manager again, and a device without nodes is given up.

Three things are not undone. A device that has been made for a node that cannot be had
stays. A service that was registered under the name already is taken out. The observer
keeps the publisher. And a device that had no nodes before is given up.

A new node has an address of its own. The functions of the driver, the allocations and
the device manager are known by their outcomes.
-/

namespace Hdf.Core.AddDevice

open KeyedList Device DevHost ServiceManager ServiceObserver

variable {Service : Type*}

/-- The policies of `ServicePolicy` that the code looks for. -/
def servicePolicyNone : UInt16 := 0
def servicePolicyPublic : UInt16 := 1
def servicePolicyCapacity : UInt16 := 2

/-- `DEVICE_CLASS_MAX`. -/
def deviceClassMax : UInt16 := 0x100

/-- `struct HdfDeviceInfo`. -/
structure HdfDeviceInfo where
  deviceId : UInt32
  policy : UInt16
  svcName : Option CString
  deriving DecidableEq

/-- `struct HdfDriverEntry`: what `Bind` and `Init` return, if they are there. -/
structure HdfDriverEntry where
  bind : Option HdfStatus
  init : Option HdfStatus
  deriving DecidableEq, Repr

/-- `enum DevNodeStaus`. -/
inductive DevNodeStaus where
  | none | inited | launched
  deriving DecidableEq, Repr

/-- `struct HdfDeviceNode`, with its address. -/
structure HdfDeviceNode where
  address : ℕ
  devId : UInt32
  policy : UInt16
  servName : CString
  devStatus : DevNodeStaus
  servStatus : Bool
  deriving DecidableEq

/-- The outcomes of what the call depends on. `service`, `deviceClass` and `servInfo` are those
of the device object after `Bind` and `Init`. -/
structure Outcomes (Service : Type*) where
  driverLoader : Bool := true
  deviceAlloc : Bool := true
  driver : Option (Option HdfDriverEntry)
  nodeAlloc : Bool := true
  tokenAlloc : Bool := true
  nameAlloc : Bool := true
  service : Option Service
  deviceClass : UInt16 := 1
  servInfo : Option CString := none
  ioService : Bool := true
  serviceManager : Bool := true
  allocs : Allocs := ⟨true, true, true⟩
  failing : List ℕ := []
  failingStop : List ℕ := []
  recordAlloc : Bool := true
  attachDevice : HdfStatus := .success
  deriving DecidableEq

/-- A host with its devices, the ids in their nodes and its observer, and the service manager. -/
structure Host (Service : Type*) where
  hostService : DevHostService
  devIds : ℕ → UInt32
  observer : Observer Service
  svcManager : DevSvcManager ℕ

variable (charSigned : Bool)

/-! ### Nodes -/

/-- `DevSvcManagerClntAddService`. -/
def devSvcManagerClntAddService (o : Outcomes Service) (devNode : HdfDeviceNode)
    (manager : DevSvcManager ℕ) : HdfStatus × DevSvcManager ℕ :=
  if o.deviceClass ≥ deviceClassMax then (.failure, manager)
  else if !o.serviceManager then (.failure, manager)
  else
    let (ret, _, manager) := addService charSigned (some devNode.servName) o.deviceClass
      (some devNode.address) o.servInfo o.allocs o.failing manager
    (ret, manager)

/-- `HdfDeviceNodePublishPublicService`. -/
def publishPublicService (o : Outcomes Service) (devNode : HdfDeviceNode) (host : Host Service) :
    HdfStatus × HdfDeviceNode × Host Service :=
  if o.service.isNone then (.failure, devNode, host)
  else
    let (ret, svcManager) := devSvcManagerClntAddService charSigned o devNode host.svcManager
    let devNode := if ret = .success then { devNode with servStatus := true } else devNode
    (ret, devNode, { host with svcManager })

/-- `DeviceNodeExtPublishService`. -/
def extPublishService (o : Outcomes Service) (devNode : HdfDeviceNode) (host : Host Service) :
    HdfStatus × HdfDeviceNode × Host Service :=
  if o.service.isNone then (.failure, devNode, host)
  else if devNode.policy = servicePolicyCapacity ∧ !o.ioService then
    (.noDeviceService, devNode, host)
  else publishPublicService charSigned o devNode host

/-- `HdfDeviceNodePublishLocalService`. -/
def publishLocalService (o : Outcomes Service) (devNode : HdfDeviceNode) (host : Host Service) :
    HdfStatus × Host Service :=
  let (status, _, observer) := ServiceObserver.publishService charSigned (some devNode.servName)
    devNode.devId devNode.policy o.service o.recordAlloc host.observer
  (status, { host with observer })

/-- The service is told to other hosts. -/
def IsPublic (policy : UInt16) : Prop :=
  policy = servicePolicyPublic ∨ policy = servicePolicyCapacity

instance (policy : UInt16) : Decidable (IsPublic policy) := inferInstanceAs (Decidable (_ ∨ _))

/-- `HdfDeviceNodePublishService`. -/
def publishService (o : Outcomes Service) (devNode : HdfDeviceNode) (host : Host Service) :
    HdfStatus × HdfDeviceNode × Host Service :=
  if devNode.policy = servicePolicyNone ∨ devNode.servName.length = 0 then
    (.success, devNode, host)
  else
    let (status, devNode, host) :=
      if IsPublic devNode.policy then extPublishService charSigned o devNode host
      else (.success, devNode, host)
    if status = .success then
      let (status, host) := publishLocalService charSigned o devNode host
      (status, devNode, host)
    else (status, devNode, host)

/-- `DeviveDriverBind`. -/
def deviveDriverBind (driverEntry : HdfDriverEntry) (devNode : HdfDeviceNode) :
    HdfStatus × HdfDeviceNode :=
  if IsPublic devNode.policy then
    match driverEntry.bind with
    | none => (.invalidObject, { devNode with devStatus := .none })
    | some ret => (if ret ≠ .success then .devInitFail else .success, devNode)
  else (.success, devNode)

/-- `HdfDeviceLaunchNode`, with the entry of the driver. -/
def launchNode (driverEntry : Option HdfDriverEntry) (o : Outcomes Service)
    (devNode : HdfDeviceNode) (host : Host Service) : HdfStatus × HdfDeviceNode × Host Service :=
  match driverEntry with
  | none => (.invalidParam, devNode, host)
  | some driverEntry =>
    match driverEntry.init with
    | none => (.invalidParam, devNode, host)
    | some init =>
      let (ret, devNode) := deviveDriverBind driverEntry { devNode with devStatus := .launched }
      if ret ≠ .success then (ret, devNode, host)
      else if init ≠ .success then (.devInitFail, devNode, host)
      else
        let (ret, devNode, host) := publishService charSigned o devNode host
        if ret ≠ .success then (.publishFail, devNode, host)
        else if o.attachDevice ≠ .success then (.attachDevFail, devNode, host)
        else (.success, devNode, host)

/-- `DeviceNodeExtRemoveService`. -/
def extRemoveService (o : Outcomes Service) (devNode : HdfDeviceNode) (host : Host Service) :
    HdfDeviceNode × Host Service :=
  if devNode.servStatus then
    ({ devNode with servStatus := false }, { host with
      svcManager :=
        (removeService charSigned (some devNode.servName) o.failingStop host.svcManager).2 })
  else (devNode, host)

/-- `HdfDeviceUnlaunchNode`. -/
def unlaunchNode (o : Outcomes Service) (devNode : HdfDeviceNode) (host : Host Service) :
    HdfDeviceNode × Host Service :=
  if devNode.devStatus ≠ .launched then (devNode, host)
  else
    let (devNode, host) :=
      if devNode.servStatus then extRemoveService charSigned o devNode host else (devNode, host)
    ({ devNode with devStatus := .inited }, host)

/-- `HdfDeviceNodeFreeInstance`, with `DeviceNodeExtDestruct` and `HdfDeviceNodeDestruct`. -/
def nodeFreeInstance (o : Outcomes Service) (devNode : HdfDeviceNode) (host : Host Service) :
    Host Service :=
  let (devNode, host) := extRemoveService charSigned o devNode host
  match devNode.devStatus with
  | .launched => (unlaunchNode charSigned o devNode host).2
  | .inited | .none => host

/-- `HdfDeviceNodeNewInstance`. There is no result when the token is missing, since the id is
written to it. -/
def nodeNewInstance (info : HdfDeviceInfo) (o : Outcomes Service) (address : ℕ) :
    Option (Option HdfDeviceNode) :=
  if !o.nodeAlloc then some none
  else if !o.tokenAlloc then none
  else
    match hdfStringCopy info.svcName o.nameAlloc with
    | none => some none
    | some servName =>
      some (some {
        address := address
        devId := info.deviceId
        policy := info.policy
        servName := servName
        devStatus := .inited
        servStatus := false })

/-! ### Devices -/

/-- `HdfDeviceAttach`, for a node that is new. -/
def deviceAttach (driverEntry : Option HdfDriverEntry) (o : Outcomes Service) (device : HdfDevice)
    (devNode : HdfDeviceNode) (host : Host Service) :
    HdfStatus × HdfDevice × HdfDeviceNode × Host Service :=
  let acquired :=
    if devNode.devId = 0 then
      (acquireNodeDeivceId device).map fun (device, devId) => (device, { devNode with devId })
    else some (device, devNode)
  match acquired with
  | none => (.invalidParam, device, devNode, host)
  | some (device, devNode) =>
    let (ret, devNode, host) := launchNode charSigned driverEntry o devNode host
    if ret = .success then
      let device := { device with devNodes := device.devNodes ++ [devNode.address] }
      (ret, updateDeivceNodeIdIndex device devNode.devId, devNode, host)
    else (ret, device, devNode, host)

/-- `DevHostServiceAddDevice`, with the address of the new node. -/
def addDevice (info : HdfDeviceInfo) (o : Outcomes Service) (address : ℕ) (host : Host Service) :
    Option (HdfStatus × Host Service) :=
  if !o.driverLoader then some (.failure, host)
  else
    match queryOrAddDevice host.hostService (deviceIdOf info.deviceId) o.deviceAlloc with
    | none => some (.noDevice, host)
    | some (device, hostService) =>
      let host := { host with hostService }
      if (getDeviceNode device host.devIds info.deviceId).isSome then some (.deviceBusy, host)
      else
        match o.driver with
        | none => some (.noData, { host with hostService := dropEmpty hostService device })
        | some driverEntry =>
          (nodeNewInstance info o address).map fun
          | none => (.noMemory, host)
          | some devNode =>
            let (ret, device, devNode, host) :=
              deviceAttach charSigned driverEntry o device devNode host
            let host := { host with
              hostService := host.hostService.put device
              devIds := Function.update host.devIds address devNode.devId }
            if ret ≠ .success then
              let host := nodeFreeInstance charSigned o devNode host
              (ret, { host with hostService := dropEmpty host.hostService device })
            else (.success, host)

/-! ### Undone calls -/

/-- The devices with their nodes. -/
def deviceList (hostService : DevHostService) : List (UInt32 × List ℕ) :=
  hostService.devices.map fun device => (device.deviceId, device.devNodes)

/-- The names of the registered services. -/
def names (manager : DevSvcManager ℕ) : List CString := manager.services.map (·.servName)

/-- The publisher of a key. -/
def publisher (key : UInt32) (observer : Observer Service) : Option Service :=
  (search (·.serviceKey) key observer).bind (·.publisher)

/-- Devices, nodes, names and publishers are what they were. -/
structure Unchanged (host after : Host Service) : Prop where
  devices : deviceList after.hostService = deviceList host.hostService
  names : names after.svcManager = names host.svcManager
  publishers : ∀ key, publisher key after.observer = publisher key host.observer

/-- If the call returns an error, it has changed nothing. -/
def Undone (info : HdfDeviceInfo) (o : Outcomes Service) (address : ℕ) (host : Host Service) :
    Prop :=
  ∀ status after, addDevice charSigned info o address host = some (status, after) →
    status ≠ .success → Unchanged host after

/-! ### What happens to the inputs -/

/-- `Bind` and `Init` succeed. -/
def Starts (policy : UInt16) (driverEntry : Option HdfDriverEntry) : Prop :=
  ∃ entry ∈ driverEntry, (IsPublic policy → entry.bind = some .success) ∧
    entry.init = some .success

/-- The service has a name and is meant to be found. -/
def Shown (policy : UInt16) (servName : CString) : Prop :=
  policy ≠ servicePolicyNone ∧ servName.length ≠ 0

/-- The service manager has a service under the key of the name. -/
def Known (servName : CString) (manager : DevSvcManager ℕ) : Prop :=
  (searchService (ServiceManager.serviceKey charSigned servName) manager).isSome

/-- The service manager takes the service. -/
structure Taken (policy : UInt16) (servName : CString) (o : Outcomes Service)
    (manager : DevSvcManager ℕ) : Prop where
  service : o.service.isSome
  ioService : policy = servicePolicyCapacity → o.ioService
  deviceClass : o.deviceClass < deviceClassMax
  serviceManager : o.serviceManager
  record : Known charSigned servName manager ∨ o.allocs.record ∧ o.allocs.servName

/-- The observer takes the service. -/
def Recorded (servName : CString) (o : Outcomes Service) (observer : Observer Service) : Prop :=
  (search (·.serviceKey) (ServiceObserver.serviceKey charSigned servName) observer).isSome ∨
    o.recordAlloc

/-- The service gets into the service manager. -/
structure Registers (policy : UInt16) (servName : CString) (driverEntry : Option HdfDriverEntry)
    (o : Outcomes Service) (manager : DevSvcManager ℕ) : Prop where
  starts : Starts policy driverEntry
  shown : Shown policy servName
  isPublic : IsPublic policy
  taken : Taken charSigned policy servName o manager

/-- The service gets into the observer. -/
structure Publishes (policy : UInt16) (servName : CString) (driverEntry : Option HdfDriverEntry)
    (o : Outcomes Service) (manager : DevSvcManager ℕ) (observer : Observer Service) : Prop where
  starts : Starts policy driverEntry
  shown : Shown policy servName
  taken : IsPublic policy → Taken charSigned policy servName o manager
  recorded : Recorded charSigned servName o observer

/-- The service takes the place of one that is registered. -/
def Replaces (policy : UInt16) (servName : CString) (driverEntry : Option HdfDriverEntry)
    (o : Outcomes Service) (manager : DevSvcManager ℕ) : Prop :=
  Registers charSigned policy servName driverEntry o manager ∧ Known charSigned servName manager

/-- The observer gets another publisher. -/
def Announces (policy : UInt16) (servName : CString) (driverEntry : Option HdfDriverEntry)
    (o : Outcomes Service) (manager : DevSvcManager ℕ) (observer : Observer Service) : Prop :=
  Publishes charSigned policy servName driverEntry o manager observer ∧
    publisher (ServiceObserver.serviceKey charSigned servName) observer ≠ o.service

/-- All steps of launching a node succeed. -/
structure Launches (policy : UInt16) (servName : CString) (driverEntry : Option HdfDriverEntry)
    (o : Outcomes Service) (manager : DevSvcManager ℕ) (observer : Observer Service) : Prop where
  starts : Starts policy driverEntry
  publishes : Shown policy servName →
    Publishes charSigned policy servName driverEntry o manager observer
  attaches : o.attachDevice = .success

/-- A node with a name can be had. -/
structure NodeMade (info : HdfDeviceInfo) (o : Outcomes Service) (servName : CString) : Prop where
  node : o.nodeAlloc
  token : o.tokenAlloc
  copied : hdfStringCopy info.svcName o.nameAlloc = some servName

/-- No node can be had. -/
def NodeLost (info : HdfDeviceInfo) (o : Outcomes Service) : Prop :=
  o.nodeAlloc = false ∨ o.tokenAlloc ∧ hdfStringCopy info.svcName o.nameAlloc = none

/-- A device has an id for a node that comes without one. -/
def IdLeft (info : HdfDeviceInfo) (device : HdfDevice) : Prop :=
  info.deviceId = 0 → device.devidIndex.toUInt32 < deviceIdMask

/-- The call gets as far as launching a node of some name. -/
structure Launching (info : HdfDeviceInfo) (o : Outcomes Service) (host : Host Service)
    (servName : CString) (driverEntry : Option HdfDriverEntry) : Prop where
  driverLoader : o.driverLoader
  device : (findDevice host.hostService (deviceIdOf info.deviceId)).isSome ∨ o.deviceAlloc
  free : ∀ device ∈ findDevice host.hostService (deviceIdOf info.deviceId),
    getDeviceNode device host.devIds info.deviceId = none ∧ IdLeft info device
  driver : o.driver = some driverEntry
  node : NodeMade info o servName

/-- The steps that fail are those whose effects are undone. -/
structure Undoable (info : HdfDeviceInfo) (o : Outcomes Service) (host : Host Service) :
    Prop where
  newDevice : o.driverLoader → findDevice host.hostService (deviceIdOf info.deviceId) = none →
    o.deviceAlloc → o.driver.isSome → ¬ NodeLost info o
  emptyDevice : o.driverLoader →
    ∀ device ∈ findDevice host.hostService (deviceIdOf info.deviceId), device.devNodes = [] →
      ∃ driverEntry, o.driver = some driverEntry ∧ ∀ servName, NodeMade info o servName →
        IdLeft info device ∧
          Launches charSigned info.policy servName driverEntry o host.svcManager host.observer
  known : ∀ servName driverEntry, Launching info o host servName driverEntry →
    Replaces charSigned info.policy servName driverEntry o host.svcManager →
      Launches charSigned info.policy servName driverEntry o host.svcManager host.observer
  published : ∀ servName driverEntry, Launching info o host servName driverEntry →
    Announces charSigned info.policy servName driverEntry o host.svcManager host.observer →
      o.attachDevice = .success

end Hdf.Core.AddDevice
