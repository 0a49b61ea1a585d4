import Hdf.Core.Base
import Hdf.Lib.KeyedList
import Hdf.Lib.Runs
import Hdf.Utils.CString

/-!
# The service manager

The device service manager keeps a record of every registered service, found by
the hash key of the service's name, and a list of listeners. A listener is told of
the services whose class has a bit in common with its own: when they start, when
they change and when they stop.

Outcomes of allocations are arguments, and so are the listeners whose `NotifyStatus`
returns `HDF_FAILURE`. A holder is known by its address.
-/

namespace Hdf.Core.ServiceManager

open KeyedList

variable {Object : Type*}

/-- `enum ServiceStatusType`. -/
inductive ServiceStatusType where
  | start | change | stop
  deriving DecidableEq, Repr

/-- `struct ServiceStatus`. -/
structure ServiceStatus where
  serviceName : CString
  deviceClass : UInt16
  status : ServiceStatusType
  info : Option CString
  deriving DecidableEq

/-- `struct DevSvcRecord`. -/
structure DevSvcRecord (Object : Type*) where
  key : UInt32
  value : Object
  servName : CString
  servInfo : Option CString
  devClass : UInt16
  deriving DecidableEq

/-- `struct ServStatListenerHolder`, with its address and whether it has its functions. -/
structure ServStatListenerHolder where
  address : ℕ
  listenClass : UInt16
  notifyStatus : Bool
  recycle : Bool
  deriving DecidableEq, Repr

/-- `struct DevSvcManager`. -/
structure DevSvcManager (Object : Type*) where
  services : List (DevSvcRecord Object)
  svcstatListeners : List ServStatListenerHolder
  deriving DecidableEq

/-- A call of a function of a holder. -/
inductive Event where
  | notifyStatus (holder : ℕ) (status : ServiceStatus)
  | recycle (holder : ℕ)
  deriving DecidableEq

/-- The outcomes of the allocations of an operation. -/
structure Allocs where
  record : Bool
  servName : Bool
  servInfo : Bool
  deriving DecidableEq, Repr

/-- `HdfStringCopy`. -/
def hdfStringCopy (src : Option CString) (alloc : Bool) : Option CString :=
  if alloc then src else none

/-- The holder listens to a class of services. -/
def ServStatListenerHolder.Listens (holder : ServStatListenerHolder) (devClass : UInt16) : Prop :=
  holder.listenClass &&& devClass ≠ 0

instance (holder : ServStatListenerHolder) (devClass : UInt16) :
    Decidable (holder.Listens devClass) :=
  inferInstanceAs (Decidable (_ ≠ _))

/-- The status of a service, as its record has it. -/
def DevSvcRecord.serviceStatus (record : DevSvcRecord Object) (status : ServiceStatusType) :
    ServiceStatus where
  serviceName := record.servName
  deviceClass := record.devClass
  status := status
  info := record.servInfo

/-- One round of the loop of `NotifyServiceStatusLocked`, with what is left of the holder. -/
def notifyHolder (record : DevSvcRecord Object) (status : ServiceStatusType) (failing : List ℕ)
    (holder : ServStatListenerHolder) : List Event × Option ServStatListenerHolder :=
  if holder.Listens record.devClass ∧ holder.notifyStatus then
    let notified := .notifyStatus holder.address (record.serviceStatus status)
    if holder.address ∈ failing then
      (notified :: if holder.recycle then [.recycle holder.address] else [], none)
    else ([notified], some holder)
  else ([], some holder)

/-- `NotifyServiceStatusLocked`. -/
def notifyServiceStatusLocked (record : DevSvcRecord Object) (status : ServiceStatusType)
    (failing : List ℕ) (manager : DevSvcManager Object) : List Event × DevSvcManager Object :=
  let rounds := manager.svcstatListeners.map (notifyHolder record status failing)
  (rounds.flatMap Prod.fst, { manager with svcstatListeners := rounds.filterMap Prod.snd })

/-- `NotifyServiceStatusOnRegisterLocked`. -/
def notifyServiceStatusOnRegisterLocked (listenerHolder : ServStatListenerHolder)
    (manager : DevSvcManager Object) : List Event :=
  manager.services.flatMap fun record =>
    if listenerHolder.Listens record.devClass ∧ listenerHolder.notifyStatus then
      [.notifyStatus listenerHolder.address (record.serviceStatus .start)]
    else []

variable (charSigned : Bool)

/-- The key of the record of a service. -/
def serviceKey (servName : CString) : UInt32 := hdfStringMakeHashKey charSigned servName 0

/-- `DevSvcManagerSearchService`. -/
def searchService (key : UInt32) (manager : DevSvcManager Object) :
    Option (DevSvcRecord Object) :=
  search (·.key) key manager.services

/-- `DevSvcManagerAddService`. -/
def addService (servName : Option CString) (devClass : UInt16) (service : Option Object)
    (servInfo : Option CString) (allocs : Allocs) (failing : List ℕ)
    (manager : DevSvcManager Object) : HdfStatus × List Event × DevSvcManager Object :=
  match service, servName with
  | some service, some servName =>
    let key := serviceKey charSigned servName
    match searchService key manager with
    | some _ =>
      (.success, [], { manager with
        services := update (·.key) key (fun record => { record with value := service })
          manager.services })
    | none =>
      if !allocs.record then (.failure, [], manager)
      else
        let servInfo := hdfStringCopy servInfo allocs.servInfo
        match hdfStringCopy (some servName) allocs.servName with
        | none => (.mallocFail, [], manager)
        | some servName =>
          let record : DevSvcRecord Object :=
            { key, value := service, servName, servInfo, devClass }
          let (events, manager) := notifyServiceStatusLocked record .start failing
            { manager with services := manager.services ++ [record] }
          (.success, events, manager)
  | _, _ => (.failure, [], manager)

/-- `DevSvcManagerUpdateService`. -/
def updateService (servName : Option CString) (devClass : UInt16) (service : Option Object)
    (servInfo : Option CString) (allocs : Allocs) (failing : List ℕ)
    (manager : DevSvcManager Object) : HdfStatus × List Event × DevSvcManager Object :=
  match service, servName with
  | some service, some servName =>
    let key := serviceKey charSigned servName
    match searchService key manager with
    | none => (.noDevice, [], manager)
    | some record =>
      match hdfStringCopy servInfo allocs.servInfo with
      | none => (.mallocFail, [], manager)
      | some servInfo =>
        let record := { record with value := service, devClass, servInfo := some servInfo }
        let (events, manager) := notifyServiceStatusLocked record .change failing
          { manager with services := update (·.key) key (fun _ => record) manager.services }
        (.success, events, manager)
  | _, _ => (.failure, [], manager)

/-- `DevSvcManagerRemoveService`. -/
def removeService (svcName : Option CString) (failing : List ℕ) (manager : DevSvcManager Object) :
    List Event × DevSvcManager Object :=
  match svcName with
  | none => ([], manager)
  | some svcName =>
    let key := serviceKey charSigned svcName
    match searchService key manager with
    | none => ([], manager)
    | some record =>
      let (events, manager) := notifyServiceStatusLocked record .stop failing manager
      (events, { manager with services := remove (·.key) key manager.services })

/-- `DevSvcManagerGetObject`. -/
def getObject (svcName : Option CString) (manager : DevSvcManager Object) : Option Object :=
  svcName.bind fun svcName =>
    (searchService (serviceKey charSigned svcName) manager).map (·.value)

/-- `DevSvcManagerRegsterServListener`. Linking a holder that is linked breaks the list. -/
def regsterServListener (listenerHolder : Option ServStatListenerHolder)
    (manager : DevSvcManager Object) :
    Option (HdfStatus × List Event × DevSvcManager Object) :=
  match listenerHolder with
  | none => some (.invalidParam, [], manager)
  | some listenerHolder =>
    if listenerHolder.address ∈ manager.svcstatListeners.map (·.address) then none
    else
      let manager := { manager with
        svcstatListeners := manager.svcstatListeners ++ [listenerHolder] }
      some (.success, notifyServiceStatusOnRegisterLocked listenerHolder manager, manager)

/-- `DevSvcManagerUnregsterServListener`. A holder that is not linked has no neighbours to
write to. -/
def unregsterServListener (listenerHolder : Option ℕ) (manager : DevSvcManager Object) :
    Option (DevSvcManager Object) :=
  match listenerHolder with
  | none => some manager
  | some address =>
    if address ∉ manager.svcstatListeners.map (·.address) then none
    else some { manager with
      svcstatListeners := remove (·.address) address manager.svcstatListeners }

/-- A call on the manager. -/
inductive Operation (Object : Type*) where
  | add (servName : Option CString) (devClass : UInt16) (service : Option Object)
      (servInfo : Option CString)
  | update (servName : Option CString) (devClass : UInt16) (service : Option Object)
      (servInfo : Option CString)
  | remove (svcName : Option CString)
  | regster (listenerHolder : Option ServStatListenerHolder)
  | unregster (listenerHolder : Option ℕ)
  deriving DecidableEq

/-- A call, with the outcomes of its allocations and the holders that cannot be notified. -/
structure Call (Object : Type*) where
  operation : Operation Object
  allocs : Allocs := ⟨true, true, true⟩
  failing : List ℕ := []
  deriving DecidableEq

/-- What a call returns and what it makes of the manager. -/
def perform (call : Call Object) (manager : DevSvcManager Object) :
    Option (HdfStatus × List Event × DevSvcManager Object) :=
  match call.operation with
  | .add servName devClass service servInfo =>
    some (addService charSigned servName devClass service servInfo call.allocs call.failing manager)
  | .update servName devClass service servInfo =>
    some (updateService charSigned servName devClass service servInfo call.allocs call.failing
      manager)
  | .remove svcName => some (.success, removeService charSigned svcName call.failing manager)
  | .regster listenerHolder => regsterServListener listenerHolder manager
  | .unregster listenerHolder =>
    (unregsterServListener listenerHolder manager).map fun manager => (.success, [], manager)

/-- A manager, the calls on it with what they have returned, and for every holder the events
since its latest registration. -/
structure History (Object : Type*) where
  manager : DevSvcManager Object
  log : List (Operation Object × HdfStatus)
  events : List Event
  deriving DecidableEq

/-- The history of a manager after `DevSvcManagerConstruct`. -/
def start : History Object := { manager := ⟨[], []⟩, log := [], events := [] }

def Event.holder : Event → ℕ
  | notifyStatus holder _ => holder
  | recycle holder => holder

/-- The events that a call leaves to be remembered. -/
def Operation.forget : Operation Object → List Event → List Event
  | regster (some listenerHolder), events =>
    events.filter fun event => event.holder ≠ listenerHolder.address
  | _, events => events

/-- A call, with what it adds to the history. -/
def step (call : Call Object) (h : History Object) : Option (History Object) :=
  (perform charSigned call h.manager).map fun result => {
    manager := result.2.2
    log := h.log ++ [(call.operation, result.1)]
    events := call.operation.forget h.events ++ result.2.1 }

end Hdf.Core.ServiceManager
