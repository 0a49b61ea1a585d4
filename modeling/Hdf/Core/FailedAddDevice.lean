import Hdf.Core.LaunchNode

/-!
# Which failed additions of a device are undone

## Main results

* `deviceAttach_spec`: a device takes a node, or keeps the nodes it has
* `undone_iff`: the calls that are undone when they fail
* `addDevice_leaves_device`: a device that stays without nodes
-/

namespace Hdf.Core.AddDevice

open KeyedList Device DevHost ServiceManager ServiceObserver

variable {Service : Type*} {charSigned : Bool} {o : Outcomes Service} {host after : Host Service}
  {devNode : HdfDeviceNode} {driverEntry : Option HdfDriverEntry} {status : HdfStatus}
  {info : HdfDeviceInfo} {device : HdfDevice} {address : ℕ} {servName : CString}

/-! ### Devices -/

/-- A device takes a node, or keeps the nodes it has. -/
theorem deviceAttach_spec {device' : HdfDevice} {devNode' : HdfDeviceNode}
    (attached : deviceAttach charSigned driverEntry o device devNode host =
      (status, device', devNode', after)) (fresh : devNode.servStatus = false)
    (given : devNode.devId = info.deviceId) :
    (status = .success ↔ IdLeft info device ∧ Launches charSigned devNode.policy
      devNode.servName driverEntry o host.svcManager host.observer) ∧
    (status ≠ .success → device'.deviceId = device.deviceId ∧
      device'.devNodes = device.devNodes) ∧
    Leaves charSigned devNode' o host after
      (IdLeft info device ∧
        Replaces charSigned devNode.policy devNode.servName driverEntry o host.svcManager)
      (IdLeft info device ∧
        Announces charSigned devNode.policy devNode.servName driverEntry o host.svcManager
          host.observer) := by
  rw [deviceAttach] at attached
  generalize acquired : ite (devNode.devId = 0) _ _ = found at attached
  cases found with
  | none =>
    cases attached
    -- an id is only refused when one is asked for and none is left
    have full : ¬ IdLeft info device := fun left => by
      split at acquired
      · rename_i zero
        rw [acquireNodeDeivceId, if_neg (UInt32.not_le.mpr (left (given ▸ zero)))] at acquired
        cases acquired
      · cases acquired
    exact ⟨iff_of_false (by decide) fun all => full all.1, fun _ => ⟨rfl, rfl⟩,
      .refl fresh (fun all => full all.1) fun all => full all.1⟩
  | some found =>
    obtain ⟨device₁, devNode₁⟩ := found
    -- an id that is taken changes neither the number of the device nor its nodes
    have given_id : IdLeft info device ∧ (device₁.deviceId = device.deviceId ∧
        device₁.devNodes = device.devNodes) ∧ ∃ devId, devNode₁ = { devNode with devId } := by
      split at acquired
      · obtain ⟨⟨device₂, devId⟩, room, made⟩ := Option.map_eq_some_iff.mp acquired
        cases made
        rw [acquireNodeDeivceId] at room
        split at room
        · cases room
        · rename_i left
          cases room
          exact ⟨fun _ => UInt32.not_le.mp left, ⟨rfl, rfl⟩, _, rfl⟩
      · rename_i nonzero
        cases acquired
        exact ⟨fun zero => absurd (given.trans zero) nonzero, ⟨rfl, rfl⟩, _, rfl⟩
    obtain ⟨left, ⟨sameId, sameNodes⟩, devId, rfl⟩ := given_id
    cases launched : launchNode charSigned driverEntry o { devNode with devId } host with
    | mk ret rest =>
      obtain ⟨devNode₂, host₁⟩ := rest
      obtain ⟨launches, leaves⟩ := launchNode_spec launched fresh
      simp only [launched] at attached
      simp only [left, true_and]
      split at attached
      · rename_i success
        cases attached
        exact ⟨launches, fun failed => absurd success failed, leaves⟩
      · cases attached
        exact ⟨launches, fun _ => ⟨sameId, sameNodes⟩, leaves⟩

/-- The device that is found or made is in its place. -/
theorem put_query {hostService hostService' : DevHostService} {alloc : Bool} {number : UInt32}
    (query : queryOrAddDevice hostService number alloc = some (device, hostService')) :
    hostService'.put device = hostService' := by
  have search : search deviceNumber (deviceNumber device) hostService'.devices = some device := by
    rw [queryOrAddDevice] at query
    cases found : findDevice hostService number with
    | some old =>
      simp only [found] at query
      cases query
      rw [key_of_search found]
      exact found
    | none =>
      simp only [found] at query
      split at query
      · cases query
        rw [search_cons, if_pos rfl]
      · cases query
  have same := @map_update_const _ _ _ _ _ _ _ _ id device search rfl
  rw [List.map_id, List.map_id] at same
  rw [DevHostService.put, same]

/-- What is left of the devices when a device without nodes is given up. -/
theorem deviceList_dropEmpty {hostService hostService' : DevHostService} {alloc : Bool}
    {number : UInt32} {device' : HdfDevice}
    (query : queryOrAddDevice hostService number alloc = some (device, hostService'))
    (sameId : device'.deviceId = device.deviceId) (sameNodes : device'.devNodes = device.devNodes) :
    deviceList (dropEmpty (hostService'.put device') device') = deviceList hostService ↔
      ¬ (findDevice hostService number = some device ∧ device.devNodes = []) := by
  have own : deviceNumber device' = deviceNumber device := congrArg deviceIdOf sameId
  rw [queryOrAddDevice] at query
  rw [dropEmpty, sameNodes]
  cases found : findDevice hostService number with
  | some old =>
    simp only [found] at query
    cases query
    have search : search deviceNumber (deviceNumber device) hostService.devices = some device := by
      rw [key_of_search found]
      exact found
    by_cases empty : device.devNodes = []
    · rw [if_pos empty]
      refine iff_of_false (fun same => ?_) (not_not.mpr ⟨rfl, empty⟩)
      -- a device that was there already is lost with its last node, and the list gets shorter
      have fewer := @length_remove _ _ _ deviceNumber (deviceNumber device')
        (hostService.put device').devices (by
          rw [map_deviceNumber_put, own]
          exact search_isSome_iff.mp (Option.isSome_iff_exists.mpr ⟨_, search⟩))
      have lengths := congrArg List.length
        (map_deviceNumber_put hostService device')
      have equal := congrArg List.length same
      simp only [deviceList, freeDevice, List.length_map] at fewer lengths equal
      omega
    · rw [if_neg empty]
      refine iff_of_true ?_ fun all => empty all.2
      rw [deviceList, DevHostService.put, own]
      exact map_update_const search (Prod.ext sameId sameNodes)
  | none =>
    simp only [found] at query
    split at query
    · cases query
      rw [if_pos (show (newDevice hostService number).devNodes = [] from rfl)]
      -- a device that was made for the node goes away with it
      refine iff_of_true ?_ (by simp)
      rw [deviceList, freeDevice, DevHostService.put, own]
      dsimp only
      rw [update, if_pos rfl, remove_cons, if_pos own]
      rfl
    · cases query

/-- A device that is there is not added. -/
theorem deviceList_query {hostService hostService' : DevHostService} {alloc : Bool}
    {number : UInt32}
    (query : queryOrAddDevice hostService number alloc = some (device, hostService')) :
    deviceList hostService' = deviceList hostService ↔ findDevice hostService number ≠ none := by
  rw [queryOrAddDevice] at query
  cases found : findDevice hostService number with
  | some old =>
    simp only [found] at query
    cases query
    simp
  | none =>
    simp only [found] at query
    split at query
    · cases query
      refine iff_of_false (fun same => ?_) (by simp)
      have longer := congrArg List.length same
      simp [deviceList] at longer
    · cases query

/-- The device that is found or made. -/
theorem query_cases {hostService' : DevHostService}
    (query : queryOrAddDevice host.hostService (deviceIdOf info.deviceId) o.deviceAlloc =
      some (device, hostService')) :
    (findDevice host.hostService (deviceIdOf info.deviceId) = some device ∧
      hostService' = host.hostService) ∨
    (findDevice host.hostService (deviceIdOf info.deviceId) = none ∧ o.deviceAlloc ∧
      device.devNodes = [] ∧ IdLeft info device) := by
  rw [queryOrAddDevice] at query
  cases found : findDevice host.hostService (deviceIdOf info.deviceId) with
  | some old =>
    simp only [found] at query
    cases query
    exact .inl ⟨rfl, rfl⟩
  | none =>
    simp only [found] at query
    split at query
    · rename_i alloc
      cases query
      exact .inr ⟨rfl, alloc, rfl, fun _ => show (0 : UInt16).toUInt32 < deviceIdMask by decide⟩
    · cases query

/-- A call that has found a device without such a node gets as far as the device has ids. -/
theorem launching_iff {hostService' : DevHostService} (loader : o.driverLoader)
    (query : queryOrAddDevice host.hostService (deviceIdOf info.deviceId) o.deviceAlloc =
      some (device, hostService'))
    (free : getDeviceNode device host.devIds info.deviceId = none)
    (driver : o.driver = some driverEntry) (made : NodeMade info o servName) :
    Launching info o host servName driverEntry ↔ IdLeft info device := by
  rcases query_cases query with ⟨found, -⟩ | ⟨none, alloc, -, left⟩
  · refine ⟨fun launching => (launching.free device found).2, fun left => ⟨loader, .inl ?_, ?_,
      driver, made⟩⟩
    · rw [found]
      rfl
    · rintro device' found'
      cases found.symm.trans found'
      exact ⟨free, left⟩
  · refine iff_of_true ⟨loader, .inr alloc, ?_, driver, made⟩ left
    rintro device' found'
    cases none.symm.trans found'

theorem Unchanged.refl : Unchanged host host := ⟨rfl, rfl, fun _ => rfl⟩

theorem undone_of_eq (called : addDevice charSigned info o address host = some (status, after)) :
    Undone charSigned info o address host ↔ (status ≠ .success → Unchanged host after) := by
  rw [Undone, called]
  refine ⟨fun undone => undone status after rfl, fun unchanged status' after' same => ?_⟩
  cases same
  exact unchanged

theorem undone_of_none (called : addDevice charSigned info o address host = none) :
    Undone charSigned info o address host := by
  rw [Undone, called]
  exact fun status after same => absurd same (by simp)

/-- A call that does not get as far as launching a node. -/
theorem undoable_iff_of_not_launching
    (stops : ∀ servName driverEntry, ¬ Launching info o host servName driverEntry) :
    Undoable charSigned info o host ↔
      (o.driverLoader → findDevice host.hostService (deviceIdOf info.deviceId) = none →
        o.deviceAlloc → o.driver.isSome → ¬ NodeLost info o) ∧
      (o.driverLoader →
        ∀ device ∈ findDevice host.hostService (deviceIdOf info.deviceId), device.devNodes = [] →
          ∃ driverEntry, o.driver = some driverEntry ∧ ∀ servName, NodeMade info o servName →
            IdLeft info device ∧ Launches charSigned info.policy servName driverEntry o
              host.svcManager host.observer) :=
  ⟨fun undoable => ⟨undoable.newDevice, undoable.emptyDevice⟩, fun ⟨newDevice, emptyDevice⟩ =>
    ⟨newDevice, emptyDevice,
      fun servName entry launching => absurd launching (stops servName entry),
      fun servName entry launching => absurd launching (stops servName entry)⟩⟩

theorem NodeMade.servName_eq {servName' : CString} (made : NodeMade info o servName)
    (made' : NodeMade info o servName') : servName' = servName :=
  Option.some.inj (made'.copied.symm.trans made.copied)

/-- What comes of making a node: a fault, no node, or a node with its name. -/
theorem nodeNewInstance_spec (info : HdfDeviceInfo) (o : Outcomes Service) (address : ℕ) :
    match nodeNewInstance info o address with
    | none => ¬ NodeLost info o ∧ ∀ servName, ¬ NodeMade info o servName
    | some none => NodeLost info o ∧ ∀ servName, ¬ NodeMade info o servName
    | some (some devNode) => ¬ NodeLost info o ∧ NodeMade info o devNode.servName ∧
        devNode.devId = info.deviceId ∧ devNode.policy = info.policy ∧
        devNode.servStatus = false ∧ devNode.address = address := by
  rw [nodeNewInstance]
  by_cases node : o.nodeAlloc
  · by_cases token : o.tokenAlloc
    · simp only [node, token, Bool.not_true, Bool.false_eq_true, if_false]
      cases copied : hdfStringCopy info.svcName o.nameAlloc with
      | none =>
        exact ⟨.inr ⟨token, copied⟩, fun servName made => by simpa [copied] using made.copied⟩
      | some servName =>
        exact ⟨by simp [NodeLost, node, copied], ⟨node, token, copied⟩, rfl, rfl, rfl, rfl⟩
    · simp only [node, token, Bool.not_true, Bool.not_false, Bool.false_eq_true, if_false, if_true]
      exact ⟨by simp [NodeLost, node, token], fun servName made => token made.token⟩
  · simp only [node, Bool.not_false, if_true]
    exact ⟨.inl (by simpa using node), fun servName made => node made.node⟩

/-- A call that stops before it launches a node, and leaves services and publishers alone. -/
theorem undone_iff_of_devices {hostService' : DevHostService} (failed : status ≠ .success)
    (called : addDevice charSigned info o address host =
      some (status, { host with hostService := hostService' })) :
    Undone charSigned info o address host ↔
      deviceList hostService' = deviceList host.hostService :=
  (undone_of_eq called).trans
    ⟨fun unchanged => (unchanged failed).devices, fun same _ => ⟨same, rfl, fun _ => rfl⟩⟩

section

variable {hostService' : DevHostService}
  (query : queryOrAddDevice host.hostService (deviceIdOf info.deviceId) o.deviceAlloc =
    some (device, hostService'))
  (loader : o.driverLoader)

include query loader

theorem addDevice_eq : addDevice charSigned info o address host =
    if (getDeviceNode device host.devIds info.deviceId).isSome then
      some (.deviceBusy, { host with hostService := hostService' })
    else
      match o.driver with
      | none => some (.noData, { host with hostService := dropEmpty hostService' device })
      | some driverEntry =>
        (nodeNewInstance info o address).map fun
        | none => (.noMemory, { host with hostService := hostService' })
        | some devNode =>
          let (ret, device, devNode, host) := deviceAttach charSigned driverEntry o device devNode
            { host with hostService := hostService' }
          let host := { host with
            hostService := host.hostService.put device
            devIds := Function.update host.devIds address devNode.devId }
          if ret ≠ .success then
            let host := nodeFreeInstance charSigned o devNode host
            (ret, { host with hostService := dropEmpty host.hostService device })
          else (.success, host) := by
  rw [addDevice, if_neg (by simp [loader])]
  generalize queryOrAddDevice host.hostService (deviceIdOf info.deviceId) o.deviceAlloc = found
    at query ⊢
  subst query
  rfl

/-- There is such a node already. -/
theorem undone_iff_of_busy (busy : getDeviceNode device host.devIds info.deviceId ≠ none) :
    Undone charSigned info o address host ↔ Undoable charSigned info o host := by
  have called : addDevice charSigned info o address host =
      some (.deviceBusy, { host with hostService := hostService' }) := by
    rw [addDevice_eq query loader, if_pos (Option.isSome_iff_ne_none.mpr busy)]
  have nodes : device.devNodes ≠ [] := fun empty => busy (by rw [getDeviceNode, empty]; rfl)
  rcases query_cases query with ⟨found, rfl⟩ | ⟨-, -, empty, -⟩
  · refine iff_of_true ((undone_iff_of_devices (by decide) called).mpr rfl) ?_
    refine (undoable_iff_of_not_launching fun _ _ launching => ?_).mpr
      ⟨fun _ none => absurd (found.symm.trans none) (by simp), fun _ other found' empty => ?_⟩
    · exact busy (launching.free device found).1
    · cases found.symm.trans found'
      exact absurd empty nodes
  · exact absurd empty nodes

/-- There is no driver. -/
theorem undone_iff_of_no_driver (free : getDeviceNode device host.devIds info.deviceId = none)
    (missing : o.driver = none) :
    Undone charSigned info o address host ↔ Undoable charSigned info o host := by
  have called : addDevice charSigned info o address host =
      some (.noData, { host with hostService := dropEmpty hostService' device }) := by
    rw [addDevice_eq query loader, free, missing]
    rfl
  have dropped := deviceList_dropEmpty query rfl rfl
  rw [put_query query] at dropped
  rw [undone_iff_of_devices (by decide) called, dropped,
    undoable_iff_of_not_launching fun _ _ launching => by simpa [missing] using launching.driver]
  simp only [missing, Option.isSome_none, Bool.false_eq_true, false_implies, implies_true, true_and,
    reduceCtorEq, false_and, exists_false, loader, forall_const]
  refine ⟨fun kept other found empty => ?_, fun kept all => kept device all.1 all.2⟩
  rcases query_cases query with ⟨found', -⟩ | ⟨none, -⟩
  · cases found'.symm.trans found
    exact kept ⟨found, empty⟩
  · cases none.symm.trans found

/-- No node can be had. -/
theorem undone_iff_of_lost (free : getDeviceNode device host.devIds info.deviceId = none)
    (driver : o.driver = some driverEntry) (lost : nodeNewInstance info o address = some none) :
    Undone charSigned info o address host ↔ Undoable charSigned info o host := by
  have called : addDevice charSigned info o address host =
      some (.noMemory, { host with hostService := hostService' }) := by
    rw [addDevice_eq query loader, free, driver, lost]
    rfl
  have spec := nodeNewInstance_spec info o address
  simp only [lost] at spec
  rw [undone_iff_of_devices (by decide) called, deviceList_query query,
    undoable_iff_of_not_launching fun _ _ launching => spec.2 _ launching.node]
  refine ⟨fun found => ⟨fun _ none => absurd none found, fun _ _ _ _ => ⟨driverEntry, driver,
    fun servName made => absurd made (spec.2 servName)⟩⟩, fun ⟨newDevice, _⟩ none => ?_⟩
  rcases query_cases query with ⟨found, -⟩ | ⟨-, alloc, -⟩
  · cases none.symm.trans found
  · exact newDevice loader none alloc (by rw [driver]; rfl) spec.1

/-- The node is launched. -/
theorem undone_iff_of_made (free : getDeviceNode device host.devIds info.deviceId = none)
    (driver : o.driver = some driverEntry)
    (made : nodeNewInstance info o address = some (some devNode)) :
    Undone charSigned info o address host ↔ Undoable charSigned info o host := by
  have spec := nodeNewInstance_spec info o address
  simp only [made] at spec
  obtain ⟨notLost, node, given, policy, fresh, -⟩ := spec
  cases attached : deviceAttach charSigned driverEntry o device devNode
      { host with hostService := hostService' } with
  | mk ret rest =>
    obtain ⟨device', devNode', host'⟩ := rest
    obtain ⟨launches, same, leaves⟩ := deviceAttach_spec attached fresh given
    dsimp only at launches leaves
    rw [policy] at launches leaves
    have launching : Launching info o host devNode.servName driverEntry ↔ IdLeft info device :=
      launching_iff loader query free driver node
    by_cases success : ret = .success
    · -- a call that succeeds has nothing to undo
      have called : ∃ after, addDevice charSigned info o address host = some (.success, after) := by
        rw [addDevice_eq query loader, free, driver, made]
        simp only [Option.isSome_none, Bool.false_eq_true, if_false, Option.map_some, attached,
          success, ne_eq, not_true_eq_false]
        exact ⟨_, rfl⟩
      obtain ⟨after, called⟩ := called
      obtain ⟨left, all⟩ := launches.mp success
      refine iff_of_true ((undone_of_eq called).mpr fun failed => absurd rfl failed) ?_
      refine ⟨fun _ _ _ _ => notLost, fun _ other found empty => ⟨driverEntry, driver, ?_⟩, ?_, ?_⟩
      · intro servName named
        rw [node.servName_eq named]
        rcases query_cases query with ⟨found', -⟩ | ⟨none, -⟩
        · cases found'.symm.trans found
          exact ⟨left, all⟩
        · cases none.symm.trans found
      · intro servName entry launched _
        cases driver.symm.trans launched.driver
        rw [node.servName_eq launched.node]
        exact all
      · exact fun _ _ _ _ => all.attaches
    · have called : addDevice charSigned info o address host =
          some (ret, { host' with
            hostService := dropEmpty (host'.hostService.put device') device'
            devIds := Function.update host'.devIds address devNode'.devId
            svcManager := freed charSigned o devNode' host'.svcManager }) := by
        rw [addDevice_eq query loader, free, driver, made]
        simp only [Option.isSome_none, Bool.false_eq_true, if_false, Option.map_some, attached,
          success, ne_eq, not_false_eq_true, if_true, nodeFreeInstance_eq]
      -- after a failure, each part of what is owed is one of the three kinds of traces
      have dropped := deviceList_dropEmpty query (same success).1 (same success).2
      rw [← show host'.hostService = hostService' from leaves.hostService] at dropped
      rw [undone_of_eq called]
      refine ⟨fun unchanged => ?_, fun undoable _ => ⟨dropped.mpr fun ⟨found, empty⟩ => ?_,
        leaves.names.mpr fun ⟨left, replaces⟩ => ?_,
        leaves.publishers.mpr fun ⟨left, announces⟩ => ?_⟩⟩
      · obtain ⟨devices, servNames, publishers⟩ := unchanged success
        refine ⟨fun _ _ _ _ => notLost, fun _ other found empty => ?_,
          fun servName entry launched replaces => ?_,
          fun servName entry launched announces => ?_⟩
        · rcases query_cases query with ⟨found', -⟩ | ⟨none, -⟩
          · cases found'.symm.trans found
            exact absurd ⟨found, empty⟩ (dropped.mp devices)
          · cases none.symm.trans found
        · cases driver.symm.trans launched.driver
          cases node.servName_eq launched.node
          exact absurd ⟨launching.mp launched, replaces⟩ (leaves.names.mp servNames)
        · cases driver.symm.trans launched.driver
          cases node.servName_eq launched.node
          exact absurd ⟨launching.mp launched, announces⟩ (leaves.publishers.mp publishers)
      · obtain ⟨entry, driver', all⟩ := undoable.emptyDevice loader device found empty
        cases driver.symm.trans driver'
        exact success (launches.mpr (all devNode.servName node))
      · exact success (launches.mpr ⟨left, undoable.known _ _ (launching.mpr left) replaces⟩)
      · exact success (launches.mpr ⟨left, announces.1.starts, fun _ => announces.1,
          undoable.published _ _ (launching.mpr left) announces⟩)

end

/-- The calls that change nothing when they fail. -/
theorem undone_iff (info : HdfDeviceInfo) (o : Outcomes Service) (address : ℕ)
    (host : Host Service) :
    Undone charSigned info o address host ↔ Undoable charSigned info o host := by
  by_cases loader : o.driverLoader
  · cases query : queryOrAddDevice host.hostService (deviceIdOf info.deviceId) o.deviceAlloc with
    | none =>
      have called : addDevice charSigned info o address host = some (.noDevice, host) := by
        rw [addDevice, if_neg (by simp [loader]), query]
      have nothing : findDevice host.hostService (deviceIdOf info.deviceId) = none ∧
          o.deviceAlloc = false := by
        rw [queryOrAddDevice] at query
        cases found : findDevice host.hostService (deviceIdOf info.deviceId) with
        | some device => simp [found] at query
        | none => simpa [found] using query
      refine iff_of_true ((undone_of_eq called).mpr fun _ => .refl)
        ((undoable_iff_of_not_launching fun _ _ launching => ?_).mpr
          ⟨fun _ _ alloc => absurd alloc (by simp [nothing.2]), fun _ device found =>
            absurd (nothing.1.symm.trans found) (by simp)⟩)
      simpa [nothing.1, nothing.2] using launching.device
    | some queried =>
      obtain ⟨device, hostService'⟩ := queried
      by_cases free : getDeviceNode device host.devIds info.deviceId = none
      · cases driver : o.driver with
        | none => exact undone_iff_of_no_driver query loader free driver
        | some driverEntry =>
          cases made : nodeNewInstance info o address with
          | none =>
            have spec := nodeNewInstance_spec info o address
            simp only [made] at spec
            have called : addDevice charSigned info o address host = none := by
              rw [addDevice_eq query loader, free, driver, made]
              rfl
            refine iff_of_true (undone_of_none called)
              ((undoable_iff_of_not_launching fun _ _ launching => spec.2 _ launching.node).mpr ?_)
            exact ⟨fun _ _ _ _ => spec.1, fun _ _ _ _ => ⟨driverEntry, driver,
              fun servName named => absurd named (spec.2 servName)⟩⟩
          | some node =>
            cases node with
            | none => exact undone_iff_of_lost query loader free driver made
            | some devNode => exact undone_iff_of_made query loader free driver made
      · exact undone_iff_of_busy query loader free
  · have called : addDevice charSigned info o address host = some (.failure, host) := by
      rw [addDevice, if_pos (by simpa using loader)]
    refine iff_of_true ((undone_of_eq called).mpr fun _ => .refl)
      ((undoable_iff_of_not_launching fun _ _ launching => loader launching.driverLoader).mpr ?_)
    exact ⟨fun there => absurd there loader, fun there => absurd there loader⟩

/-! ### Examples -/

/-- A driver whose node cannot be had. -/
def withoutNode : Outcomes ℕ where
  driver := some (some ⟨some .success, some .success⟩)
  nodeAlloc := false
  service := some 1

/-- A host without devices. -/
def emptyHost : Host ℕ where
  hostService := { hostId := 1, devices := [] }
  devIds := fun _ => 0
  observer := []
  svcManager := ⟨[], []⟩

/-- The device that was made for the node stays. -/
theorem addDevice_leaves_device :
    (∃ after, addDevice false ⟨0x01000100, 1, some (.ofAscii "svc")⟩ withoutNode 7 emptyHost =
        some (.noMemory, after) ∧ deviceList after.hostService = [(0x01000100, [])]) ∧
      ¬ Undone false ⟨0x01000100, 1, some (.ofAscii "svc")⟩ withoutNode 7 emptyHost := by
  refine ⟨⟨_, rfl, rfl⟩, fun undone => ?_⟩
  have devices := (undone _ _ rfl (by decide)).devices
  exact absurd devices (by decide)

end Hdf.Core.AddDevice
