import Hdf.Core.Base
import Hdf.Lib.KeyedList
import Hdf.Lib.Runs
import Hdf.Utils.CString

/-!
# The service observer of a device host

Drivers of one host find each other's services through an observer. It keeps a
record for every service name, found by the hash key of the name, with the
subscribers that wait for the service and with its publisher. A record is created
by whichever side comes first. The outcomes of allocations are arguments; a new
subscriber comes with the address it is allocated at.
-/

namespace Hdf.Core.ServiceObserver

open KeyedList

variable {Service : Type*}

/-- `struct SubscriberCallback`: the driver object, and whether there is a function. -/
structure SubscriberCallback where
  deviceObject : ℕ
  onServiceConnected : Bool
  deriving DecidableEq, Repr

/-- The states of a subscriber. -/
inductive SubscriberState where
  | pending | ready
  deriving DecidableEq, Repr

/-- `struct HdfServiceSubscriber`, with its address. -/
structure HdfServiceSubscriber where
  address : ℕ
  state : SubscriberState
  devId : UInt32
  callback : SubscriberCallback
  deriving DecidableEq, Repr

/-- `struct HdfServiceObserverRecord`. -/
structure HdfServiceObserverRecord (Service : Type*) where
  serviceKey : UInt32
  policy : UInt16 := 0
  devId : UInt32 := 0
  subscribers : List HdfServiceSubscriber := []
  publisher : Option Service := none
  deriving DecidableEq

/-- The `services` of a `struct HdfServiceObserver`. -/
abbrev Observer (Service : Type*) := List (HdfServiceObserverRecord Service)

/-- A call of `OnServiceConnected`: the subscriber, its driver object and the service. -/
structure Notice (Service : Type*) where
  subscriber : ℕ
  deviceObject : ℕ
  service : Option Service
  deriving DecidableEq

/-- `HdfServiceSubscriberObtain` at an address. -/
def subscriberObtain (address : ℕ) (callback : SubscriberCallback) (devid : UInt32) :
    HdfServiceSubscriber where
  address := address
  state := .pending
  devId := devid
  callback := callback

/-- The call of a subscriber's callback with a service, if there is a callback. -/
def connect (subscriber : HdfServiceSubscriber) (service : Option Service) :
    List (Notice Service) :=
  if subscriber.callback.onServiceConnected then
    [⟨subscriber.address, subscriber.callback.deviceObject, service⟩]
  else []

variable (charSigned : Bool)

/-- The key of the record of a service. -/
def serviceKey (svcName : CString) : UInt32 := hdfStringMakeHashKey charSigned svcName 0

/-- The end of `HdfServiceObserverSubscribeService`, with the record of the service. -/
def subscribe (record : HdfServiceObserverRecord Service) (subscriber : HdfServiceSubscriber) :
    List (Notice Service) × HdfServiceObserverRecord Service :=
  if record.publisher.isSome ∧ subscriber.callback.onServiceConnected ∧
      (record.policy ≠ servicePolicyPrivate ∨ record.devId = subscriber.devId) then
    (connect subscriber record.publisher,
      { record with subscribers := { subscriber with state := .ready } :: record.subscribers })
  else ([], { record with subscribers := subscriber :: record.subscribers })

/-- `HdfServiceObserverSubscribeService`, with the outcomes of the two allocations. -/
def subscribeService (svcName : Option CString) (devid : UInt32) (callback : SubscriberCallback)
    (recordAlloc : Bool) (subscriberAlloc : Option ℕ) (observer : Observer Service) :
    HdfStatus × List (Notice Service) × Observer Service :=
  match svcName with
  | none => (.failure, [], observer)
  | some svcName =>
    let key := serviceKey charSigned svcName
    match search (·.serviceKey) key observer with
    | none =>
      if !recordAlloc then (.failure, [], observer)
      else match subscriberAlloc with
      | none => (.failure, [], observer)
      | some address =>
        let (notices, record) :=
          subscribe { serviceKey := key } (subscriberObtain address callback devid)
        (.success, notices, record :: observer)
    | some record =>
      match subscriberAlloc with
      | none => (.failure, [], observer)
      | some address =>
        let (notices, changed) := subscribe record (subscriberObtain address callback devid)
        (.success, notices, update (·.serviceKey) key (fun _ => changed) observer)

/-- One round of the loop of `HdfServiceObserverRecordNotifySubscribers`. -/
def notifySubscriber (devId : UInt32) (policy : UInt16) (service : Option Service)
    (subscriber : HdfServiceSubscriber) : List (Notice Service) × HdfServiceSubscriber :=
  if devId = subscriber.devId ∨ policy ≠ servicePolicyPrivate then
    (connect subscriber service, { subscriber with state := .ready })
  else ([], subscriber)

/-- `HdfServiceObserverRecordNotifySubscribers`. -/
def recordNotifySubscribers (record : HdfServiceObserverRecord Service) (devId : UInt32)
    (policy : UInt16) : List (Notice Service) × HdfServiceObserverRecord Service :=
  let notified := record.subscribers.map (notifySubscriber devId policy record.publisher)
  (notified.flatMap Prod.fst, { record with subscribers := notified.map Prod.snd })

/-- `HdfServiceObserverPublishService`, with the outcome of the allocation. -/
def publishService (svcName : Option CString) (devId : UInt32) (policy : UInt16)
    (service : Option Service) (recordAlloc : Bool) (observer : Observer Service) :
    HdfStatus × List (Notice Service) × Observer Service :=
  match svcName with
  | none => (.failure, [], observer)
  | some svcName =>
    let key := serviceKey charSigned svcName
    match search (·.serviceKey) key observer with
    | none =>
      if !recordAlloc then (.failure, [], observer)
      else
        (.success, [],
          { serviceKey := key, publisher := service, devId := devId, policy := policy } ::
            observer)
    | some record =>
      let (notices, changed) :=
        recordNotifySubscribers { record with publisher := service } devId policy
      (.success, notices, update (·.serviceKey) key (fun _ => changed) observer)

end Hdf.Core.ServiceObserver
