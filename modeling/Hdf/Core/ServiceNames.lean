import Hdf.Core.DevSvcManager

/-!
# Services by name

Seen from outside, the service manager is a map from names to service objects. Its
records carry the names, but it finds them by the hash key alone. So it is that map
as long as no call is made with a name that has the key of another registered name.

## Main results

* `Performs.of_perform`: the calls work by name
* `getObject_eq_latest`: the manager is a map from names
* `getObject_confuses_names`: two names that share a key
-/

namespace Hdf.Core.ServiceManager

open KeyedList

variable {Object : Type*} (charSigned : Bool)

/-- The key of a name only finds the record of the name. -/
def Unambiguous (name : CString) (manager : DevSvcManager Object) : Prop :=
  ∀ record ∈ manager.services, record.key = serviceKey charSigned name → record.servName = name

instance (name : CString) (manager : DevSvcManager Object) :
    Decidable (Unambiguous charSigned name manager) :=
  inferInstanceAs (Decidable (∀ record ∈ _, _))

/-- The service that a call is about. -/
def Operation.name : Operation Object → Option CString
  | add servName .. => servName
  | update servName .. => servName
  | remove svcName => svcName
  | regster _ => none
  | unregster _ => none

/-- The name of a call does not have the key of another registered name. -/
def Distinct (call : Call Object) (h : History Object) : Prop :=
  ∀ name ∈ call.operation.name, Unambiguous charSigned name h.manager

instance (call : Call Object) (h : History Object) : Decidable (Distinct charSigned call h) :=
  inferInstanceAs (Decidable (∀ name ∈ call.operation.name, _))

/-- What a call that has returned makes of the object and the class of a name. Adding a name
once more only changes the object. -/
def register (name : CString) (registered : Option (Object × UInt16)) :
    Operation Object × HdfStatus → Option (Object × UInt16)
  | (.add (some servName) devClass (some service) _, .success) =>
    if servName = name then some (service, (registered.map Prod.snd).getD devClass)
    else registered
  | (.update (some servName) devClass (some service) _, .success) =>
    if servName = name then some (service, devClass) else registered
  | (.remove (some svcName), .success) => if svcName = name then none else registered
  | _ => registered

/-- The object of the latest successful add or update of a name since its last removal, and
the class the service is registered with. -/
def registration (name : CString) (log : List (Operation Object × HdfStatus)) :
    Option (Object × UInt16) :=
  log.foldl (register name) none

/-- The record of a name. -/
def recordOf (name : CString) (manager : DevSvcManager Object) : Option (DevSvcRecord Object) :=
  search (·.servName) name manager.services

/-- What a call does, in terms of names: its status, the events and the manager. -/
inductive Performs (allocs : Allocs) (failing : List ℕ) : Operation Object →
    DevSvcManager Object → HdfStatus → List Event → DevSvcManager Object → Prop
  | refused {operation manager status} (failed : status ≠ .success)
      (service : operation.forget = id) :
      Performs allocs failing operation manager status [] manager
  | addedAgain {name devClass service servInfo manager record}
      (found : recordOf name manager = some record) {manager'}
      (made : manager' = { manager with
        services := update (·.servName) name (fun record => { record with value := service })
          manager.services }) :
      Performs allocs failing (.add (some name) devClass (some service) servInfo) manager
        .success [] manager'
  | added {name devClass service servInfo manager record}
      (absent : recordOf name manager = none)
      (made : record.servName = name ∧ record.key = serviceKey charSigned name ∧
        record.value = service ∧ record.devClass = devClass) {events manager'}
      (notified : notifyServiceStatusLocked record .start failing
        { manager with services := manager.services ++ [record] } = (events, manager')) :
      Performs allocs failing (.add (some name) devClass (some service) servInfo) manager
        .success events manager'
  | updated {name devClass service servInfo manager record changed}
      (found : recordOf name manager = some record) (copied : allocs.servInfo)
      (made : changed = { record with value := service, devClass, servInfo := some servInfo })
      {events manager'}
      (notified : notifyServiceStatusLocked changed .change failing { manager with
        services := update (·.servName) name (fun _ => changed) manager.services } =
          (events, manager')) :
      Performs allocs failing (.update (some name) devClass (some service) (some servInfo)) manager
        .success events manager'
  | removedNothing {svcName manager} (absent : ∀ name ∈ svcName, recordOf name manager = none) :
      Performs allocs failing (.remove svcName) manager .success [] manager
  | removed {name manager record} (found : recordOf name manager = some record) {events manager'}
      (notified : notifyServiceStatusLocked record .stop failing manager = (events, manager')) :
      Performs allocs failing (.remove (some name)) manager .success events
        { manager' with services := remove (·.servName) name manager'.services }
  | regstered {listenerHolder manager status events manager'}
      (linked : regsterServListener listenerHolder manager = some (status, events, manager')) :
      Performs allocs failing (.regster listenerHolder) manager status events manager'
  | unregstered {listenerHolder manager manager'}
      (unlinked : unregsterServListener listenerHolder manager = some manager') :
      Performs allocs failing (.unregster listenerHolder) manager .success [] manager'

/-- Every record has the key of its name, and there is one record for a name. -/
structure WellKeyed (manager : DevSvcManager Object) : Prop where
  key : ∀ record ∈ manager.services, record.key = serviceKey charSigned record.servName
  unique : (manager.services.map (·.servName)).Nodup

variable {charSigned} {manager manager' : DevSvcManager Object} {name : CString}
  {call : Call Object} {operation : Operation Object} {allocs : Allocs} {failing : List ℕ}
  {status : HdfStatus} {events : List Event} {record : DevSvcRecord Object}

theorem services_of_notified {status : ServiceStatusType}
    (notified : notifyServiceStatusLocked record status failing manager = (events, manager')) :
    manager'.services = manager.services :=
  (congrArg (·.2.services) notified).symm

/-! ### The calls work by name -/

theorem WellKeyed.same (keyed : WellKeyed charSigned manager)
    (own : Unambiguous charSigned name manager) :
    ∀ record ∈ manager.services, record.key = serviceKey charSigned name ↔ record.servName = name :=
  fun record member => ⟨own record member, fun named => named ▸ keyed.key record member⟩

theorem searchService_eq (keyed : WellKeyed charSigned manager)
    (own : Unambiguous charSigned name manager) :
    searchService (serviceKey charSigned name) manager = recordOf name manager :=
  search_congr (keyed.same own)

theorem Performs.of_add {servName servInfo : Option CString} {devClass : UInt16}
    {service : Option Object} (keyed : WellKeyed charSigned manager)
    (own : ∀ name ∈ servName, Unambiguous charSigned name manager)
    (added : addService charSigned servName devClass service servInfo allocs failing manager =
      (status, events, manager')) :
    Performs charSigned allocs failing (.add servName devClass service servInfo) manager status
      events manager' := by
  unfold addService at added
  split at added
  case h_1 service name =>
    have own := own name rfl
    dsimp only at added
    rw [searchService_eq keyed own] at added
    split at added
    case h_1 record found =>
      cases added
      rw [update_congr (keyed.same own)]
      exact .addedAgain found rfl
    case h_2 absent =>
      split at added
      · cases added
        exact .refused (by decide) rfl
      · split at added
        · cases added
          exact .refused (by decide) rfl
        · rename_i copied
          obtain ⟨-, same⟩ := Option.ite_none_right_eq_some.mp copied
          cases added
          obtain rfl := Option.some.inj same
          refine .added absent ?_ rfl
          exact ⟨rfl, rfl, rfl, rfl⟩
  case h_2 =>
    cases added
    exact .refused (by decide) rfl

theorem Performs.of_update {servName servInfo : Option CString} {devClass : UInt16}
    {service : Option Object} (keyed : WellKeyed charSigned manager)
    (own : ∀ name ∈ servName, Unambiguous charSigned name manager)
    (updated : updateService charSigned servName devClass service servInfo allocs failing manager =
      (status, events, manager')) :
    Performs charSigned allocs failing (.update servName devClass service servInfo) manager status
      events manager' := by
  unfold updateService at updated
  split at updated
  case h_1 service name =>
    have own := own name rfl
    dsimp only at updated
    rw [searchService_eq keyed own] at updated
    split at updated
    case h_1 absent =>
      cases updated
      exact .refused (by decide) rfl
    case h_2 record found =>
      split at updated
      · cases updated
        exact .refused (by decide) rfl
      · rename_i copied
        obtain ⟨allocated, rfl⟩ := Option.ite_none_right_eq_some.mp copied
        cases updated
        rw [update_congr (keyed.same own)]
        exact .updated found allocated rfl rfl
  case h_2 =>
    cases updated
    exact .refused (by decide) rfl

theorem Performs.of_remove {svcName : Option CString} (keyed : WellKeyed charSigned manager)
    (own : ∀ name ∈ svcName, Unambiguous charSigned name manager)
    (removed : removeService charSigned svcName failing manager = (events, manager')) :
    Performs charSigned allocs failing (.remove svcName) manager .success events manager' := by
  unfold removeService at removed
  split at removed
  case h_1 =>
    cases removed
    exact .removedNothing fun _ named => nomatch named
  case h_2 name =>
    have own := own name rfl
    dsimp only at removed
    rw [searchService_eq keyed own] at removed
    split at removed
    case h_1 absent =>
      cases removed
      exact .removedNothing fun _ named => Option.some.inj named ▸ absent
    case h_2 record found =>
      cases removed
      have unchanged : (notifyServiceStatusLocked record .stop failing manager).2.services =
        manager.services := rfl
      rw [unchanged, remove_congr (keyed.same own)]
      exact .removed found rfl

/-- A call whose name agrees with its key works by name. -/
theorem Performs.of_perform (keyed : WellKeyed charSigned manager)
    (own : ∀ name ∈ call.operation.name, Unambiguous charSigned name manager)
    (performed : perform charSigned call manager = some (status, events, manager')) :
    Performs charSigned call.allocs call.failing call.operation manager status events manager' := by
  unfold perform at performed
  split at performed
  case h_1 servName devClass service servInfo operation =>
    rw [operation] at own ⊢
    exact .of_add keyed own (Option.some.inj performed)
  case h_2 servName devClass service servInfo operation =>
    rw [operation] at own ⊢
    exact .of_update keyed own (Option.some.inj performed)
  case h_3 svcName operation =>
    rw [operation] at own ⊢
    obtain ⟨rfl, removed⟩ := Prod.ext_iff.mp (Option.some.inj performed)
    exact .of_remove keyed own removed
  case h_4 listenerHolder operation =>
    rw [operation]
    exact .regstered performed
  case h_5 listenerHolder operation =>
    rw [operation]
    obtain ⟨left, unlinked, same⟩ := Option.map_eq_some_iff.mp performed
    cases same
    exact .unregstered unlinked

/-! ### The registered names -/

theorem mem_services_of_recordOf (found : recordOf name manager = some record) :
    record ∈ manager.services ∧ record.servName = name :=
  ⟨mem_of_search found, key_of_search found⟩

theorem wellKeyed_start : WellKeyed charSigned (start : History Object).manager where
  key _ member := absurd member List.not_mem_nil
  unique := List.nodup_nil

/-- Changing a record without its name and key. -/
theorem WellKeyed.changed (keyed : WellKeyed charSigned manager)
    {change : DevSvcRecord Object → DevSvcRecord Object}
    (services : manager'.services = update (·.servName) name change manager.services)
    (keepsName : ∀ record, record.servName = name → (change record).servName = name)
    (keepsKey : ∀ record ∈ recordOf name manager,
      (change record).key = serviceKey charSigned name) :
    WellKeyed charSigned manager' := by
  constructor
  · rw [services]
    intro record member
    rcases mem_update member with member | ⟨record, found, rfl⟩
    · exact keyed.key record member
    · rw [keepsKey record found, keepsName record (key_of_search found)]
  · rw [services, map_key_update keepsName]
    exact keyed.unique

theorem recordOf_update {change : DevSvcRecord Object → DevSvcRecord Object}
    (services : manager'.services = update (·.servName) name change manager.services)
    (keepsName : ∀ record, record.servName = name → (change record).servName = name)
    (other : CString) : recordOf other manager' =
      if other = name then (recordOf name manager).map change else recordOf other manager := by
  rw [recordOf, services]
  split
  case isTrue same => rw [same, search_update_self keepsName, recordOf]
  case isFalse differs => rw [search_update_ne keepsName differs, recordOf]

theorem recordOf_append (absent : recordOf record.servName manager = none)
    (services : manager'.services = manager.services ++ [record]) (other : CString) :
    recordOf other manager' =
      if other = record.servName then some record else recordOf other manager := by
  rw [recordOf, services, search_append_singleton, ← recordOf]
  by_cases same : other = record.servName
  · rw [if_pos same, if_pos same.symm, same, absent, Option.none_or]
  · rw [if_neg same, if_neg (Ne.symm same), Option.or_none]

theorem recordOf_remove (keyed : WellKeyed charSigned manager)
    (services : manager'.services = remove (·.servName) name manager.services) (other : CString) :
    recordOf other manager' = if other = name then none else recordOf other manager := by
  rw [recordOf, services]
  split
  case isTrue same => rw [same, search_remove_self keyed.unique]
  case isFalse differs => rw [search_remove_ne differs, recordOf]

theorem services_of_regstered {listenerHolder : Option ServStatListenerHolder}
    (linked : regsterServListener listenerHolder manager = some (status, events, manager')) :
    manager'.services = manager.services := by
  unfold regsterServListener at linked
  split at linked
  · cases linked
    rfl
  · split at linked
    · cases linked
    · cases linked
      rfl

theorem services_of_unregstered {listenerHolder : Option ℕ}
    (unlinked : unregsterServListener listenerHolder manager = some manager') :
    manager'.services = manager.services := by
  unfold unregsterServListener at unlinked
  split at unlinked
  · cases unlinked
    rfl
  · split at unlinked
    · cases unlinked
    · cases unlinked
      rfl

theorem WellKeyed.performs (keyed : WellKeyed charSigned manager)
    (performed : Performs charSigned allocs failing operation manager status events manager') :
    WellKeyed charSigned manager' := by
  cases performed with
  | refused failed _ => exact keyed
  | @addedAgain name _ service _ _ _ found _ made =>
    have services : manager'.services = update (·.servName) name
      (fun record => { record with value := service }) manager.services := by rw [made]
    refine keyed.changed services (fun _ named => named) fun record member => ?_
    obtain ⟨member, named⟩ := mem_services_of_recordOf member
    exact named ▸ keyed.key record member
  | added absent made notified =>
    have services := services_of_notified notified
    constructor
    · rw [services]
      intro record member
      rcases List.mem_append.mp member with member | last
      · exact keyed.key record member
      · obtain rfl := List.mem_singleton.mp last
        rw [made.1, made.2.1]
    · rw [services, List.map_append, List.map_singleton, made.1]
      rw [← List.concat_eq_append, List.nodup_concat]
      exact ⟨search_eq_none_iff.mp absent, keyed.unique⟩
  | updated found _ made notified =>
    obtain ⟨member, named⟩ := mem_services_of_recordOf found
    have key := keyed.key _ member
    subst made
    exact keyed.changed (services_of_notified notified) (fun _ _ => named) fun _ _ => named ▸ key
  | removedNothing absent => exact keyed
  | removed found notified =>
    constructor
    · rw [services_of_notified notified]
      exact fun record member => keyed.key record (List.mem_of_mem_eraseP member)
    · rw [services_of_notified notified]
      exact keyed.unique.sublist map_key_remove_sublist
  | regstered linked =>
    have services := services_of_regstered linked
    exact ⟨services ▸ keyed.key, services ▸ keyed.unique⟩
  | unregstered unlinked =>
    have services := services_of_unregstered unlinked
    exact ⟨services ▸ keyed.key, services ▸ keyed.unique⟩

/-- What is registered under a name: the object and the class of its record. -/
def entryOf (name : CString) (manager : DevSvcManager Object) : Option (Object × UInt16) :=
  (recordOf name manager).map fun record => (record.value, record.devClass)

theorem entryOf_of_services (services : manager'.services = manager.services) :
    entryOf name manager' = entryOf name manager := by
  rw [entryOf, recordOf, services, entryOf, recordOf]

theorem register_failed (failed : status ≠ .success) (registered : Option (Object × UInt16)) :
    register name registered (operation, status) = registered := by
  unfold register
  split <;> simp_all

theorem register_ne (other : operation.name ≠ some name)
    (registered : Option (Object × UInt16)) :
    register name registered (operation, status) = registered := by
  unfold register
  split <;> simp_all [Operation.name]

/-- A call changes what is registered under the names as its operation and status tell. -/
theorem Performs.entryOf (keyed : WellKeyed charSigned manager)
    (performed : Performs charSigned allocs failing operation manager status events manager') :
    entryOf name manager' = register name (entryOf name manager) (operation, status) := by
  cases performed with
  | refused failed _ => rw [register_failed failed]
  | @addedAgain added _ service _ _ _ found _ made =>
    have services : manager'.services = update (·.servName) added
      (fun record => { record with value := service }) manager.services := by rw [made]
    rw [ServiceManager.entryOf, recordOf_update services fun _ named => named, register]
    split
    case isTrue same =>
      subst same
      rw [if_pos rfl, ServiceManager.entryOf, found]
      rfl
    case isFalse differs => rw [if_neg (Ne.symm differs), ServiceManager.entryOf]
  | added absent made notified =>
    obtain ⟨rfl, -, rfl, rfl⟩ := made
    rw [ServiceManager.entryOf, recordOf_append absent (services_of_notified notified), register]
    split
    case isTrue same =>
      subst same
      rw [if_pos rfl, ServiceManager.entryOf, absent]
      rfl
    case isFalse differs => rw [if_neg (Ne.symm differs), ServiceManager.entryOf]
  | updated found _ made notified =>
    have named := key_of_search found
    subst made
    rw [ServiceManager.entryOf,
      recordOf_update (services_of_notified notified) fun _ _ => named, register]
    split
    case isTrue same =>
      subst same
      rw [if_pos rfl, found]
      rfl
    case isFalse differs => rw [if_neg (Ne.symm differs), ServiceManager.entryOf]
  | @removedNothing svcName _ absent =>
    cases svcName with
    | none => rfl
    | some svcName =>
      rw [register]
      split
      case isTrue same => rw [← same, ServiceManager.entryOf, absent svcName rfl, Option.map_none]
      case isFalse => rfl
  | removed found notified =>
    have services := services_of_notified notified
    rw [ServiceManager.entryOf, recordOf_remove keyed (by rw [services]), register]
    split
    case isTrue same => rw [if_pos same.symm, Option.map_none]
    case isFalse differs => rw [if_neg (Ne.symm differs), ServiceManager.entryOf]
  | regstered linked => exact entryOf_of_services (services_of_regstered linked)
  | unregstered unlinked => exact entryOf_of_services (services_of_unregstered unlinked)

/-! ### Runs -/

variable {h t : History Object} {calls : List (Call Object)}

/-- The records are what the calls have registered. -/
structure Records (charSigned : Bool) (h : History Object) : Prop where
  keyed : WellKeyed charSigned h.manager
  registered : ∀ name, entryOf name h.manager = registration name h.log

theorem records_start : Records charSigned (start : History Object) where
  keyed := wellKeyed_start
  registered _ := rfl

/-- A step is what its call does, in terms of names. -/
theorem performs_of_step (keyed : WellKeyed charSigned h.manager)
    (distinct : Distinct charSigned call h) (stepped : step charSigned call h = some t) :
    ∃ status events,
      Performs charSigned call.allocs call.failing call.operation h.manager status events
        t.manager ∧
        t.log = h.log ++ [(call.operation, status)] ∧
        t.events = call.operation.forget h.events ++ events := by
  obtain ⟨⟨status, events, manager⟩, performed, rfl⟩ := Option.map_eq_some_iff.mp stepped
  exact ⟨status, events, .of_perform keyed distinct performed, rfl, rfl⟩

theorem Records.stepped (records : Records charSigned h) (distinct : Distinct charSigned call h)
    (stepped : step charSigned call h = some t) : Records charSigned t := by
  obtain ⟨status, events, performed, log, -⟩ := performs_of_step records.keyed distinct stepped
  constructor
  · exact records.keyed.performs performed
  · intro name
    rw [performed.entryOf records.keyed, records.registered, log, registration, registration,
      List.foldl_append]
    rfl

theorem Records.of_runs (distinct : Meets (step charSigned) (Distinct charSigned) start calls)
    (ran : runs (step charSigned) start calls = some h) : Records charSigned h :=
  runs_invariant (fun _ _ _ records distinct stepped => records.stepped distinct stepped)
    records_start distinct ran

theorem Records.getObject_eq (records : Records charSigned h)
    (own : Unambiguous charSigned name h.manager) :
    getObject charSigned (some name) h.manager = (registration name h.log).map Prod.fst := by
  rw [ServiceManager.getObject, Option.bind_some, searchService_eq records.keyed own,
    ← records.registered, entryOf, Option.map_map]
  rfl

/-- As long as names do not share keys, the manager is a map from names: a name has the object
of its latest successful add or update since its last removal, and a call for one name does
not change what another name has. -/
theorem getObject_eq_latest
    (distinct : Meets (step charSigned) (Distinct charSigned) start calls)
    (ran : runs (step charSigned) start calls = some h)
    (own : Unambiguous charSigned name h.manager) :
    getObject charSigned (some name) h.manager = (registration name h.log).map Prod.fst ∧
      ∀ call t, Distinct charSigned call h → step charSigned call h = some t →
        Unambiguous charSigned name t.manager → call.operation.name ≠ some name →
          getObject charSigned (some name) t.manager =
            getObject charSigned (some name) h.manager := by
  have records := Records.of_runs distinct ran
  refine ⟨records.getObject_eq own, ?_⟩
  intro call t distinct stepped own' other
  obtain ⟨status, events, -, log, -⟩ := performs_of_step records.keyed distinct stepped
  rw [(records.stepped distinct stepped).getObject_eq own', records.getObject_eq own, log,
    registration, List.foldl_append, List.foldl_cons, List.foldl_nil, register_ne other,
    registration]

/-- A driver registers two services, updates one and removes the other. -/
def turnover : List (Call ℕ) := [
  ⟨.add (some (.ofAscii "camera")) 1 (some 10) none, ⟨true, true, true⟩, []⟩,
  ⟨.add (some (.ofAscii "sensor")) 2 (some 20) none, ⟨true, true, true⟩, []⟩,
  ⟨.update (some (.ofAscii "camera")) 1 (some 11) (some (.ofAscii "info")), ⟨true, true, true⟩, []⟩,
  ⟨.remove (some (.ofAscii "sensor")), ⟨true, true, true⟩, []⟩]

theorem getObject_turnover : ∃ h ∈ runs (step true) start turnover,
    getObject true (some (.ofAscii "camera")) h.manager = some 11 ∧
      getObject true (some (.ofAscii "camera")) h.manager =
        (registration (.ofAscii "camera") h.log).map Prod.fst := by
  have distinct : Meets (step true) (Distinct true) start turnover := by
    refine ⟨by decide, fun _ first => ?_⟩
    cases first
    refine ⟨by decide, fun _ second => ?_⟩
    cases second
    refine ⟨by decide, fun _ third => ?_⟩
    cases third
    exact ⟨by decide, fun _ _ => trivial⟩
  exact ⟨_, rfl, by decide, (getObject_eq_latest distinct rfl (by decide)).1⟩

/-- Two services whose names have the same key. -/
def collision : List (Call ℕ) := [
  ⟨.add (some (.ofAscii "fdgmghi")) 1 (some 10) none, ⟨true, true, true⟩, []⟩,
  ⟨.add (some (.ofAscii "lwwnkix")) 1 (some 20) none, ⟨true, true, true⟩, []⟩]

theorem getObject_confuses_names : ∃ calls : List (Call ℕ),
    ∃ h ∈ runs (step true) start calls, ∃ name,
      getObject true (some name) h.manager ≠ (registration name h.log).map Prod.fst :=
  ⟨collision, _, rfl, .ofAscii "fdgmghi", by decide⟩

end Hdf.Core.ServiceManager
