import Hdf.Core.AddDevice

/-!
# Launching a node

What is left of the registered names and of the publishers when a node has been launched
and then given back.

## Main results

* `addService_spec`, `publishLocalService_spec`: the two places a service is published in
* `launchNode_spec`: all steps of launching
-/

namespace Hdf.Core.AddDevice

open KeyedList Device DevHost ServiceManager ServiceObserver

variable {Service : Type*} {charSigned : Bool} {o : Outcomes Service} {host after : Host Service}
  {devNode : HdfDeviceNode} {manager manager' : DevSvcManager ℕ}
  {driverEntry : Option HdfDriverEntry} {status : HdfStatus} {address : ℕ} {servName : CString}

/-! ### Publication -/

/-- Whether the service manager has a service under the key of a name. -/
theorem known_iff : Known charSigned servName manager ↔
    ServiceManager.serviceKey charSigned servName ∈ manager.services.map (·.key) :=
  search_isSome_iff

/-- Taking out a service that is there leaves fewer names. -/
theorem length_names_removeService {failing : List ℕ}
    (there : ServiceManager.serviceKey charSigned servName ∈ manager.services.map (·.key)) :
    (names (removeService charSigned (some servName) failing manager).2).length <
      (names manager).length := by
  obtain ⟨record, found⟩ := Option.isSome_iff_exists.mp (search_isSome_iff.mpr there)
  rw [removeService, searchService]
  simp only [found]
  have smaller := length_remove there
  rw [names, names, List.length_map, List.length_map, ← smaller]
  exact Nat.lt_succ_self _

/-- Taking out the service that was added last. -/
theorem names_removeService {failing : List ℕ} {services : List (DevSvcRecord ℕ)}
    {record : DevSvcRecord ℕ} (key : record.key = ServiceManager.serviceKey charSigned servName)
    (added : manager.services = services ++ [record])
    (absent : ServiceManager.serviceKey charSigned servName ∉ services.map (·.key)) :
    names (removeService charSigned (some servName) failing manager).2 =
      services.map (·.servName) := by
  have found : search (·.key) (ServiceManager.serviceKey charSigned servName) manager.services =
      some record := by
    rw [added, search_append_singleton, search_eq_none_iff.mpr absent, if_pos key]
    rfl
  rw [removeService, searchService]
  simp only [found]
  change (remove (·.key) _ manager.services).map _ = _
  rw [added, remove_append absent, remove_cons, if_pos key, List.append_nil]

/-- What `AddService` does to the names, when the service is taken out again. -/
theorem addService_spec {devClass : UInt16} {servInfo : Option CString} {allocs : Allocs}
    {failing failing' : List ℕ} {events : List Event}
    (added : addService charSigned (some servName) devClass (some address) servInfo allocs failing
      manager = (status, events, manager')) :
    (status = .success ↔
      ServiceManager.serviceKey charSigned servName ∈ manager.services.map (·.key) ∨
        allocs.record ∧ allocs.servName) ∧
    (status ≠ .success → manager' = manager) ∧
    (status = .success →
      (names (removeService charSigned (some servName) failing' manager').2 = names manager ↔
        ServiceManager.serviceKey charSigned servName ∉ manager.services.map (·.key))) := by
  rw [addService] at added
  by_cases known : ServiceManager.serviceKey charSigned servName ∈ manager.services.map (·.key)
  · obtain ⟨record, found⟩ := Option.isSome_iff_exists.mp (search_isSome_iff.mpr known)
    simp only [searchService, found] at added
    cases added
    refine ⟨iff_of_true rfl (.inl known), fun failed => absurd rfl failed,
      fun _ => iff_of_false (fun same => ?_) (not_not.mpr known)⟩
    let again : DevSvcRecord ℕ → DevSvcRecord ℕ := fun record => { record with value := address }
    have keys : (update (·.key) (ServiceManager.serviceKey charSigned servName) again
        manager.services).map (·.key) = manager.services.map (·.key) := map_update fun _ => rfl
    have servNames : (update (·.key) (ServiceManager.serviceKey charSigned servName) again
        manager.services).map (·.servName) = names manager := map_update fun _ => rfl
    -- undoing would take the record away that was there before
    have fewer := @length_names_removeService charSigned { manager with
      services := update (·.key) (ServiceManager.serviceKey charSigned servName) again
        manager.services } servName failing' (keys.symm ▸ known)
    exact fewer.ne (congrArg List.length (same.trans servNames.symm))
  · simp only [searchService, search_eq_none_iff.mpr known] at added
    by_cases record : allocs.record
    · by_cases copied : allocs.servName
      · simp only [record, copied, hdfStringCopy, Bool.not_true, Bool.false_eq_true, if_false,
          if_true] at added
        obtain ⟨rfl, -, rfl⟩ : _ ∧ _ ∧ _ := by simpa only [Prod.mk.injEq] using added
        refine ⟨iff_of_true rfl (.inr ⟨record, copied⟩), fun failed => absurd rfl failed,
          fun _ => iff_of_true (names_removeService rfl rfl known) known⟩
      · simp only [record, copied, hdfStringCopy, Bool.not_true, Bool.false_eq_true, if_false]
          at added
        cases added
        simp [known, copied]
    · simp only [record, Bool.not_false, if_true] at added
      cases added
      simp [known, record]

theorem devSvcManagerClntAddService_spec {failing : List ℕ}
    (added : devSvcManagerClntAddService charSigned o devNode manager = (status, manager')) :
    (status = .success ↔ o.deviceClass < deviceClassMax ∧ o.serviceManager ∧
      (ServiceManager.serviceKey charSigned devNode.servName ∈ manager.services.map (·.key) ∨
        o.allocs.record ∧ o.allocs.servName)) ∧
    (status ≠ .success → manager' = manager) ∧
    (status = .success →
      (names (removeService charSigned (some devNode.servName) failing manager').2 =
          names manager ↔
        ServiceManager.serviceKey charSigned devNode.servName ∉
          manager.services.map (·.key))) := by
  rw [devSvcManagerClntAddService] at added
  by_cases inClass : o.deviceClass < deviceClassMax
  · rw [if_neg (show ¬ o.deviceClass ≥ deviceClassMax from UInt16.not_le.mpr inClass)] at added
    by_cases there : o.serviceManager
    · rw [if_neg (by simp [there])] at added
      obtain ⟨rfl, rfl⟩ := Prod.mk.inj added
      simpa only [inClass, there, true_and] using addService_spec rfl
    · rw [if_pos (by simp [there])] at added
      cases added
      simp [there]
  · rw [if_pos (show o.deviceClass ≥ deviceClassMax from UInt16.not_lt.mp inClass)] at added
    cases added
    simp [inClass]

/-- Publishing a service for other hosts. -/
theorem extPublishService_spec {devNode' : HdfDeviceNode}
    (published : extPublishService charSigned o devNode host = (status, devNode', after)) :
    (status = .success ↔ Taken charSigned devNode.policy devNode.servName o host.svcManager) ∧
    (status ≠ .success → devNode' = devNode ∧ after = host) ∧
    (status = .success → devNode' = { devNode with servStatus := true } ∧
      ∃ svcManager, after = { host with svcManager } ∧
        ∀ failing, names (removeService charSigned (some devNode.servName) failing svcManager).2 =
            names host.svcManager ↔ ¬ Known charSigned devNode.servName host.svcManager) := by
  rw [extPublishService] at published
  by_cases service : o.service.isSome
  · have given : ¬ o.service.isNone = true := by simpa [Option.isSome_iff_ne_none] using service
    rw [if_neg given] at published
    by_cases io : devNode.policy = servicePolicyCapacity ∧ !o.ioService
    · rw [if_pos io] at published
      cases published
      refine ⟨iff_of_false (by simp) fun taken => ?_, fun _ => ⟨rfl, rfl⟩, by simp⟩
      simpa [taken.ioService io.1] using io.2
    · rw [if_neg io, publishPublicService, if_neg given] at published
      cases added : devSvcManagerClntAddService charSigned o devNode host.svcManager with
      | mk ret svcManager =>
        simp only [added, Prod.mk.injEq] at published
        obtain ⟨rfl, rfl, rfl⟩ := published
        have spec {failing : List ℕ} := @devSvcManagerClntAddService_spec _ charSigned o devNode
          host.svcManager svcManager ret failing added
        refine ⟨(@spec []).1.trans ?_, fun failed => ?_, fun success => ?_⟩
        · rw [← known_iff]
          refine ⟨fun ⟨inClass, there, record⟩ =>
            ⟨service, fun capacity => ?_, inClass, there, record⟩,
            fun taken => ⟨taken.deviceClass, taken.serviceManager, taken.record⟩⟩
          simpa [capacity] using io
        · rw [if_neg failed, (@spec []).2.1 failed]
          exact ⟨rfl, rfl⟩
        · rw [if_pos success, known_iff]
          exact ⟨rfl, svcManager, rfl, fun failing => (@spec failing).2.2 success⟩
  · rw [if_pos (by simpa using service)] at published
    cases published
    exact ⟨iff_of_false (by simp) fun taken => service taken.service, fun _ => ⟨rfl, rfl⟩, by simp⟩

theorem publisher_update {record : HdfServiceObserverRecord Service}
    {observer : Observer Service} {key key' : UInt32} {changed : HdfServiceObserverRecord Service}
    (found : search (·.serviceKey) key observer = some record) (keeps : changed.serviceKey = key) :
    publisher key' (update (·.serviceKey) key (fun _ => changed) observer) =
      if key' = key then changed.publisher else publisher key' observer := by
  rw [publisher, search_update_const keeps found]
  split
  · rfl
  · rfl

/-- One publisher more, or another one. -/
theorem forall_publisher_iff {observer : Observer Service} {key : UInt32} {service : Option Service}
    (changed : ∀ key', publisher key' observer =
      if key' = key then service else publisher key' host.observer) :
    (∀ key', publisher key' observer = publisher key' host.observer) ↔
      publisher key host.observer = service := by
  simp only [changed]
  refine ⟨fun same => ?_, fun same key' => ?_⟩
  · simpa using (same key).symm
  · split
    · rename_i equal
      rw [equal, same]
    · rfl

/-- Publishing a service for the drivers of the host. -/
theorem publishLocalService_spec
    (published : publishLocalService charSigned o devNode host = (status, after)) :
    (status = .success ↔ Recorded charSigned devNode.servName o host.observer) ∧
    (status ≠ .success → after = host) ∧
    (status = .success → ∃ observer, after = { host with observer } ∧
      ((∀ key, publisher key observer = publisher key host.observer) ↔
        publisher (ServiceObserver.serviceKey charSigned devNode.servName) host.observer =
          o.service)) := by
  rw [publishLocalService, ServiceObserver.publishService] at published
  cases found : search (·.serviceKey) (ServiceObserver.serviceKey charSigned devNode.servName)
      host.observer with
  | none =>
    simp only [found] at published
    by_cases record : o.recordAlloc
    · simp only [record, Bool.not_true, Bool.false_eq_true, if_false, Prod.mk.injEq] at published
      obtain ⟨rfl, rfl⟩ := published
      refine ⟨iff_of_true rfl (.inr record), fun failed => absurd rfl failed,
        fun _ => ⟨_, rfl, forall_publisher_iff fun key => ?_⟩⟩
      rw [publisher, search_cons]
      simp only [@eq_comm _ key]
      split
      · rfl
      · rfl
    · simp only [record, Bool.not_false, if_true, Prod.mk.injEq] at published
      obtain ⟨rfl, rfl⟩ := published
      simp [Recorded, found, record]
  | some record =>
    simp only [found, Prod.mk.injEq] at published
    obtain ⟨rfl, rfl⟩ := published
    refine ⟨iff_of_true rfl (.inl (by rw [found]; rfl)), fun failed => absurd rfl failed,
      fun _ => ⟨_, rfl, forall_publisher_iff fun key => ?_⟩⟩
    have keyed : record.serviceKey = _ := key_of_search found
    exact publisher_update found keyed

/-! ### Launching -/

/-- The service manager when a node has been given back. -/
def freed (charSigned : Bool) (o : Outcomes Service) (devNode : HdfDeviceNode)
    (manager : DevSvcManager ℕ) : DevSvcManager ℕ :=
  if devNode.servStatus then
    (removeService charSigned (some devNode.servName) o.failingStop manager).2
  else manager

theorem nodeFreeInstance_eq : nodeFreeInstance charSigned o devNode host =
    { host with svcManager := freed charSigned o devNode host.svcManager } := by
  rw [nodeFreeInstance, extRemoveService, freed]
  cases served : devNode.servStatus with
  | true => cases status : devNode.devStatus <;> simp [unlaunchNode]
  | false => cases status : devNode.devStatus <;> simp [unlaunchNode, status, served]

theorem freed_fresh (fresh : devNode.servStatus = false) :
    freed charSigned o devNode manager = manager := by
  rw [freed, if_neg (by simp [fresh])]

/-- The first half of publishing a service, for other hosts if it is public. -/
theorem extPublish_spec (fresh : devNode.servStatus = false) {devNode' : HdfDeviceNode}
    (published : (if IsPublic devNode.policy then extPublishService charSigned o devNode host
      else (.success, devNode, host)) = (status, devNode', after)) :
    (status = .success ↔
      (IsPublic devNode.policy →
        Taken charSigned devNode.policy devNode.servName o host.svcManager)) ∧
    (∃ servStatus, devNode' = { devNode with servStatus }) ∧
    (∃ svcManager, after = { host with svcManager }) ∧
    (names (freed charSigned o devNode' after.svcManager) = names host.svcManager ↔
      ¬ (IsPublic devNode.policy ∧
        Taken charSigned devNode.policy devNode.servName o host.svcManager ∧
        Known charSigned devNode.servName host.svcManager)) := by
  by_cases isPublic : IsPublic devNode.policy
  · rw [if_pos isPublic] at published
    simp only [isPublic, true_and, forall_const]
    obtain ⟨taken, refused, accepted⟩ := extPublishService_spec published
    refine ⟨taken, ?_⟩
    by_cases success : status = .success
    · obtain ⟨rfl, svcManager, rfl, removed⟩ := accepted success
      refine ⟨⟨_, rfl⟩, ⟨_, rfl⟩, ?_⟩
      simp only [taken.mp success, true_and]
      exact removed o.failingStop
    · obtain ⟨rfl, rfl⟩ := refused success
      refine ⟨⟨_, rfl⟩, ⟨_, rfl⟩, ?_⟩
      rw [freed_fresh fresh]
      exact iff_of_true rfl fun all => success (taken.mpr all.1)
  · rw [if_neg isPublic] at published
    cases published
    refine ⟨iff_of_true rfl fun is => absurd is isPublic, ⟨_, rfl⟩, ⟨_, rfl⟩, ?_⟩
    rw [freed_fresh fresh]
    exact iff_of_true rfl fun all => isPublic all.1

/-- What is left of a host when a node has been given back: whether a name is lost, and whether
there is a publisher that was not there. -/
structure Leaves (charSigned : Bool) (devNode : HdfDeviceNode) (o : Outcomes Service)
    (host after : Host Service) (lost published : Prop) : Prop where
  hostService : after.hostService = host.hostService
  devIds : after.devIds = host.devIds
  names : names (freed charSigned o devNode after.svcManager) = names host.svcManager ↔ ¬ lost
  publishers : (∀ key, publisher key after.observer = publisher key host.observer) ↔ ¬ published

theorem Leaves.refl (fresh : devNode.servStatus = false) {lost published : Prop} (kept : ¬ lost)
    (unpublished : ¬ published) : Leaves charSigned devNode o host host lost published :=
  ⟨rfl, rfl, by rw [freed_fresh fresh]; exact iff_of_true rfl kept,
    iff_of_true (fun _ => rfl) unpublished⟩

theorem publishService_spec {devNode' : HdfDeviceNode}
    (published : publishService charSigned o devNode host = (status, devNode', after))
    (fresh : devNode.servStatus = false) :
    (status = .success ↔ (Shown devNode.policy devNode.servName →
      (IsPublic devNode.policy →
        Taken charSigned devNode.policy devNode.servName o host.svcManager) ∧
        Recorded charSigned devNode.servName o host.observer)) ∧
    Leaves charSigned devNode' o host after
      (Shown devNode.policy devNode.servName ∧ IsPublic devNode.policy ∧
        Taken charSigned devNode.policy devNode.servName o host.svcManager ∧
          Known charSigned devNode.servName host.svcManager)
      (Shown devNode.policy devNode.servName ∧
        (IsPublic devNode.policy →
          Taken charSigned devNode.policy devNode.servName o host.svcManager) ∧
          Recorded charSigned devNode.servName o host.observer ∧
          publisher (ServiceObserver.serviceKey charSigned devNode.servName) host.observer ≠
            o.service) := by
  rw [publishService] at published
  by_cases shown : Shown devNode.policy devNode.servName
  · rw [if_neg (not_or.mpr shown)] at published
    simp only [shown, true_and, forall_const]
    -- a public service is registered first, and announced only if that succeeds
    generalize first : (if IsPublic devNode.policy then extPublishService charSigned o devNode host
      else (.success, devNode, host)) = ext at published
    obtain ⟨ret, devNode₁, host₁⟩ := ext
    obtain ⟨taken, ⟨servStatus, rfl⟩, ⟨svcManager, rfl⟩, removed⟩ := extPublish_spec fresh first
    rw [← taken]
    dsimp only at published removed
    by_cases success : ret = .success
    · rw [if_pos success] at published
      cases localized : publishLocalService charSigned o { devNode with servStatus }
          { host with svcManager } with
      | mk ret' host₂ =>
        obtain ⟨recorded, refused, accepted⟩ := publishLocalService_spec localized
        simp only [localized, Prod.mk.injEq] at published
        obtain ⟨rfl, rfl, rfl⟩ := published
        simp only [success, true_and]
        refine ⟨recorded, ?_⟩
        -- what observers are told stays the same exactly when it was told before
        by_cases found : ret' = .success
        · obtain ⟨observer, rfl, same⟩ := accepted found
          refine ⟨rfl, rfl, removed, same.trans ⟨fun equal all => all.2 equal, fun none => ?_⟩⟩
          exact by_contra fun differs => none ⟨recorded.mp found, differs⟩
        · cases refused found
          refine ⟨rfl, rfl, removed, iff_of_true (fun _ => rfl) fun all => ?_⟩
          exact found (recorded.mpr all.1)
    · rw [if_neg success] at published
      cases published
      refine ⟨iff_of_false success fun all => success all.1, rfl, rfl, removed, ?_⟩
      exact iff_of_true (fun _ => rfl) fun all => success all.1
  · rw [if_pos (by_contra fun neither => shown (not_or.mp neither))] at published
    cases published
    exact ⟨iff_of_true rfl fun is => absurd is shown,
      .refl fresh (fun all => shown all.1) fun all => shown all.1⟩

theorem deviveDriverBind_spec {entry : HdfDriverEntry} {devNode' : HdfDeviceNode}
    (bound : deviveDriverBind entry devNode = (status, devNode')) :
    (status = .success ↔ (IsPublic devNode.policy → entry.bind = some .success)) ∧
      (status = .success → devNode' = devNode) ∧ devNode'.servStatus = devNode.servStatus := by
  rw [deviveDriverBind] at bound
  by_cases isPublic : IsPublic devNode.policy
  · rw [if_pos isPublic] at bound
    cases bind : entry.bind with
    | none =>
      simp only [bind] at bound
      cases bound
      simp [isPublic]
    | some ret =>
      simp only [bind] at bound
      cases bound
      by_cases success : ret = .success
      · simp [success]
      · simp [success, isPublic]
  · rw [if_neg isPublic] at bound
    cases bound
    simp [isPublic]

/-- What launching a node whose driver has started, and giving it back, leaves behind. -/
theorem launched_spec {ret : HdfStatus} {node devNode' : HdfDeviceNode} {host' : Host Service}
    (published : publishService charSigned o devNode host = (ret, node, host'))
    (launched : (if ret ≠ .success then (.publishFail, node, host')
      else if o.attachDevice ≠ .success then (.attachDevFail, node, host')
      else (.success, node, host')) = (status, devNode', after))
    (fresh : devNode.servStatus = false) (starts : Starts devNode.policy driverEntry) :
    (status = .success ↔ Launches charSigned devNode.policy devNode.servName driverEntry o
      host.svcManager host.observer) ∧
    Leaves charSigned devNode' o host after
      (Replaces charSigned devNode.policy devNode.servName driverEntry o host.svcManager)
      (Announces charSigned devNode.policy devNode.servName driverEntry o host.svcManager
        host.observer) := by
  obtain ⟨shows, leaves⟩ := publishService_spec published fresh
  have left : Leaves charSigned node o host host'
      (Replaces charSigned devNode.policy devNode.servName driverEntry o host.svcManager)
      (Announces charSigned devNode.policy devNode.servName driverEntry o host.svcManager
        host.observer) := by
    refine ⟨leaves.hostService, leaves.devIds, leaves.names.trans ?_,
      leaves.publishers.trans ?_⟩
    · exact not_congr
        ⟨fun ⟨shown, isPublic, taken, known⟩ => ⟨⟨starts, shown, isPublic, taken⟩, known⟩,
          fun ⟨registers, known⟩ =>
            ⟨registers.shown, registers.isPublic, registers.taken, known⟩⟩
    · exact not_congr
        ⟨fun ⟨shown, taken, recorded, differs⟩ => ⟨⟨starts, shown, taken, recorded⟩, differs⟩,
          fun ⟨publishes, differs⟩ =>
            ⟨publishes.shown, publishes.taken, publishes.recorded, differs⟩⟩
  -- the two results that are tested are the two things that a launch needs
  have launches_iff : Launches charSigned devNode.policy devNode.servName driverEntry o
      host.svcManager host.observer ↔ ret = .success ∧ o.attachDevice = .success := by
    rw [shows]
    exact ⟨fun all => ⟨fun shown => ⟨(all.publishes shown).taken,
        (all.publishes shown).recorded⟩, all.attaches⟩,
      fun ⟨shows, attaches⟩ => ⟨starts, fun shown =>
        ⟨starts, shown, (shows shown).1, (shows shown).2⟩, attaches⟩⟩
  rw [launches_iff]
  split at launched
  · rename_i failed
    cases launched
    exact ⟨iff_of_false (by decide) fun all => failed all.1, left⟩
  · split at launched
    · rename_i failed
      cases launched
      exact ⟨iff_of_false (by decide) fun all => failed all.2, left⟩
    · rename_i accepted attached
      cases launched
      exact ⟨iff_of_true rfl ⟨not_not.mp accepted, not_not.mp attached⟩, left⟩

/-- What launching a node, and giving it back, leaves of the names and the publishers. -/
theorem launchNode_spec {devNode' : HdfDeviceNode}
    (launched : launchNode charSigned driverEntry o devNode host = (status, devNode', after))
    (fresh : devNode.servStatus = false) :
    (status = .success ↔ Launches charSigned devNode.policy devNode.servName driverEntry o
      host.svcManager host.observer) ∧
    Leaves charSigned devNode' o host after
      (Replaces charSigned devNode.policy devNode.servName driverEntry o host.svcManager)
      (Announces charSigned devNode.policy devNode.servName driverEntry o host.svcManager
        host.observer) := by
  -- a driver that does not start leaves everything as it was
  have idle {ret : HdfStatus} {node : HdfDeviceNode}
      (stopped : (ret, node, host) = (status, devNode', after)) (failed : ret ≠ .success)
      (starts : ¬ Starts devNode.policy driverEntry) (unserved : node.servStatus = false) :
      (status = .success ↔ Launches charSigned devNode.policy devNode.servName driverEntry o
        host.svcManager host.observer) ∧
      Leaves charSigned devNode' o host after
        (Replaces charSigned devNode.policy devNode.servName driverEntry o host.svcManager)
        (Announces charSigned devNode.policy devNode.servName driverEntry o host.svcManager
          host.observer) := by
    cases stopped
    exact ⟨iff_of_false failed fun all => starts all.starts,
      .refl unserved (fun all => starts all.1.starts) fun all => starts all.1.starts⟩
  unfold launchNode at launched
  cases driverEntry with
  | none => exact idle launched (by decide) (fun ⟨_, found, _⟩ => absurd found (by simp)) fresh
  | some entry =>
    cases init : entry.init with
    | none =>
      simp only [init] at launched
      refine idle launched (by decide) (fun ⟨_, found, _, started⟩ => ?_) fresh
      cases found
      simp [init] at started
    | some initRet =>
      simp only [init] at launched
      cases bound : deviveDriverBind entry { devNode with devStatus := .launched } with
      | mk ret node =>
        obtain ⟨binds, same, unserved⟩ := deviveDriverBind_spec bound
        simp only [bound] at launched
        have starts_iff : Starts devNode.policy (some entry) ↔
            ret = .success ∧ initRet = .success := by
          simp [Starts, init, binds]
        by_cases bind : ret = .success
        · obtain rfl := same bind
          rw [if_neg (not_not.mpr bind)] at launched
          by_cases started : initRet = .success
          · rw [if_neg (not_not.mpr started)] at launched
            cases published : publishService charSigned o { devNode with devStatus := .launched }
                host with
            | mk ret' rest =>
              simp only [published] at launched
              have spec := launched_spec published launched fresh (starts_iff.mpr ⟨bind, started⟩)
              exact spec
          · rw [if_pos started] at launched
            exact idle launched (by decide) (fun starts => started (starts_iff.mp starts).2) fresh
        · rw [if_pos bind] at launched
          exact idle launched bind (fun starts => bind (starts_iff.mp starts).1)
            (unserved.trans fresh)

/-! ### The ids of nodes -/

end Hdf.Core.AddDevice
