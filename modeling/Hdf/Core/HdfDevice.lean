import Hdf.Core.Base
import Hdf.Lib.Runs

/-!
# Device nodes that are added at run time

A device holds its nodes. A node from the configuration comes with its device id;
one that is added at run time comes with id 0 and gets an id from the device, which
takes the next number of a counter. To stay clear of the configured nodes, the
counter is moved up when a node is attached.

It is moved up to the device number of the node, though, not to its node number, and
it is allowed to grow to 16 bits where a node number has 8. So the new id may be
that of an attached node, or belong to another device.

Nodes are known by their addresses. The outcome of `LaunchNode` is an argument.

## Main results

* `fresh_iff_roomy`: the runs whose assigned ids are fresh
* `dynamic_id_collides`: a run with two nodes of one id
-/

namespace Hdf.Core.Device

/-- `struct HdfDevice`. -/
structure HdfDevice where
  deviceId : UInt32
  devidIndex : UInt16
  devNodes : List ℕ
  deriving DecidableEq, Repr

/-- `UpdateDeivceNodeIdIndex`. -/
def updateDeivceNodeIdIndex (device : HdfDevice) (nodeDevid : UInt32) : HdfDevice :=
  if device.devidIndex.toUInt32 < deviceIdOf nodeDevid then
    { device with devidIndex := (deviceIdOf nodeDevid).toUInt16 }
  else device

/-- The id that `AcquireNodeDeivceId` makes. -/
def nextDevid (device : HdfDevice) : UInt32 :=
  mkDevid (hostIdOf device.deviceId) (deviceIdOf device.deviceId) (device.devidIndex + 1).toUInt32

/-- `AcquireNodeDeivceId`. -/
def acquireNodeDeivceId (device : HdfDevice) : Option (HdfDevice × UInt32) :=
  if device.devidIndex.toUInt32 ≥ deviceIdMask then none
  else some ({ device with devidIndex := device.devidIndex + 1 }, nextDevid device)

/-- `HdfDeviceAttach`, with the ids in the nodes. Linking a node that is linked breaks the
list. -/
def hdfDeviceAttach (devNode : ℕ) (launchNode : Option HdfStatus) (device : HdfDevice)
    (devIds : ℕ → UInt32) : Option (HdfStatus × HdfDevice × (ℕ → UInt32)) :=
  match launchNode with
  | none => some (.invalidParam, device, devIds)
  | some ret =>
    let acquired := if devIds devNode = 0 then
        (acquireNodeDeivceId device).map fun (device, devid) =>
          (device, Function.update devIds devNode devid)
      else some (device, devIds)
    match acquired with
    | none => some (.invalidParam, device, devIds)
    | some (device, devIds) =>
      if ret = .success then
        if devNode ∈ device.devNodes then none
        else
          let device := { device with devNodes := device.devNodes ++ [devNode] }
          some (ret, updateDeivceNodeIdIndex device (devIds devNode), devIds)
      else some (ret, device, devIds)

/-- `HdfDeviceDetach`. -/
def hdfDeviceDetach (devNode : ℕ) (device : HdfDevice) (devIds : ℕ → UInt32) :
    HdfStatus × HdfDevice :=
  if deviceIdOf device.deviceId ≠ deviceIdOf (devIds devNode) then (.noDevice, device)
  else (.success, { device with devNodes := device.devNodes.erase devNode })

/-- A call on a device. -/
inductive Call where
  | attach (devNode : ℕ) (launchNode : Option HdfStatus)
  | detach (devNode : ℕ)
  deriving DecidableEq

/-- An id that has been assigned, and the ids of the nodes that were attached then. -/
structure Assignment where
  devid : UInt32
  others : List UInt32
  deriving DecidableEq

/-- A device, the ids in the nodes, and the ids that the device has assigned. -/
structure History where
  device : HdfDevice
  devIds : ℕ → UInt32
  assignments : List Assignment

/-- A call, with the id that it assigns. -/
def step (call : Call) (h : History) : Option History :=
  match call with
  | .attach devNode launchNode =>
    (hdfDeviceAttach devNode launchNode h.device h.devIds).map fun (_, device, devIds) => {
      device := device
      devIds := devIds
      assignments := h.assignments ++
        if devIds devNode ≠ h.devIds devNode then
          [⟨devIds devNode, h.device.devNodes.map h.devIds⟩]
        else [] }
  | .detach devNode =>
    some { h with device := (hdfDeviceDetach devNode h.device h.devIds).2 }

/-- A device without nodes, and nodes with their ids. -/
def start (deviceId : UInt32) (devIds : ℕ → UInt32) : History where
  device := { deviceId, devidIndex := 0, devNodes := [] }
  devIds := devIds
  assignments := []

/-- An id has the host number and the device number of a device. -/
def BelongsTo (deviceId devid : UInt32) : Prop :=
  hostIdOf devid = hostIdOf deviceId ∧ deviceIdOf devid = deviceIdOf deviceId

instance (deviceId devid : UInt32) : Decidable (BelongsTo deviceId devid) :=
  inferInstanceAs (Decidable (_ ∧ _))

/-- An assigned id is one of the device, and no other attached node has it. -/
def Assignment.Fresh (deviceId : UInt32) (a : Assignment) : Prop :=
  a.devid ∉ a.others ∧ BelongsTo deviceId a.devid

/-- When a node is attached that needs an id, and the counter has not run out: the next
number of the counter adds nothing to the device number, and no attached node has it as its
node number. -/
def Roomy (call : Call) (h : History) : Prop :=
  match call with
  | .attach devNode (some _) =>
    h.devIds devNode = 0 → h.device.devidIndex.toNat < 2 ^ 16 - 1 →
      (deviceIdOf h.device.deviceId).toNat ||| (h.device.devidIndex.toNat + 1) / 2 ^ 8 =
          (deviceIdOf h.device.deviceId).toNat ∧
        ∀ other ∈ h.device.devNodes,
          (devnodeIdOf (h.devIds other)).toNat ≠ (h.device.devidIndex.toNat + 1) % 2 ^ 8
  | _ => True

instance (call : Call) (h : History) : Decidable (Roomy call h) :=
  match call with
  | .attach _ (some _) => inferInstanceAs (Decidable (_ → _ → _ ∧ _))
  | .attach _ none => .isTrue trivial
  | .detach _ => .isTrue trivial

/-! ### Assigned ids -/

section

variable {device : HdfDevice} {devIds devIds' : ℕ → UInt32} {devNode : ℕ} {h t : History}
  {call : Call}

theorem toNat_index (room : device.devidIndex.toNat < 2 ^ 16 - 1) :
    (device.devidIndex + 1).toUInt32.toNat = device.devidIndex.toNat + 1 := by
  rw [UInt16.toNat_toUInt32, UInt16.toNat_add]
  exact Nat.mod_eq_of_lt (by simp at room ⊢; omega)

theorem acquireNodeDeivceId_eq : acquireNodeDeivceId device =
    if device.devidIndex.toNat < 2 ^ 16 - 1 then
      some ({ device with devidIndex := device.devidIndex + 1 }, nextDevid device)
    else none := by
  have full : device.devidIndex.toUInt32 ≥ deviceIdMask ↔
      ¬ device.devidIndex.toNat < 2 ^ 16 - 1 := by
    rw [ge_iff_le, UInt32.le_iff_toNat_le, UInt16.toNat_toUInt32, not_lt]
    rfl
  rw [acquireNodeDeivceId, if_congr full rfl rfl, ite_not]

theorem nextDevid_ne_zero (room : device.devidIndex.toNat < 2 ^ 16 - 1) : nextDevid device ≠ 0 := by
  intro zero
  have bits := congrArg UInt32.toNat zero
  rw [nextDevid, toNat_mkDevid, toNat_index room] at bits
  have some_bit := Nat.right_le_or (n := (hostIdOf device.deviceId).toNat % 256 * 2 ^ 24 |||
    (deviceIdOf device.deviceId).toNat % 2 ^ 24 * 2 ^ 8) (m := device.devidIndex.toNat + 1)
  rw [bits] at some_bit
  exact absurd some_bit (by simp)

theorem hostIdOf_nextDevid (room : device.devidIndex.toNat < 2 ^ 16 - 1) :
    hostIdOf (nextDevid device) = hostIdOf device.deviceId := by
  have host := hostIdOf_lt device.deviceId
  have number := deviceIdOf_lt device.deviceId
  have index : (device.devidIndex.toNat + 1) / 2 ^ 24 = 0 := Nat.div_eq_of_lt (by omega)
  apply UInt32.toNat_inj.mp
  rw [nextDevid, toNat_hostIdOf_mkDevid, toNat_index room, index, Nat.mod_eq_of_lt host,
    Nat.div_eq_of_lt number]
  simp

/-- The next id belongs to the device when its number adds nothing to the device number. -/
theorem belongsTo_nextDevid (room : device.devidIndex.toNat < 2 ^ 16 - 1) :
    BelongsTo device.deviceId (nextDevid device) ↔
      (deviceIdOf device.deviceId).toNat ||| (device.devidIndex.toNat + 1) / 2 ^ 8 =
        (deviceIdOf device.deviceId).toNat := by
  have number := deviceIdOf_lt device.deviceId
  have index : (device.devidIndex.toNat + 1) / 2 ^ 8 < 2 ^ 16 := by omega
  have unpacked : (deviceIdOf (nextDevid device)).toNat =
      (deviceIdOf device.deviceId).toNat ||| (device.devidIndex.toNat + 1) / 2 ^ 8 := by
    rw [nextDevid, toNat_deviceIdOf_mkDevid, toNat_index room, Nat.mod_eq_of_lt number,
      Nat.mod_eq_of_lt index]
  rw [BelongsTo, and_iff_right (hostIdOf_nextDevid room), ← UInt32.toNat_inj, unpacked]

theorem eq_nextDevid_iff {devid : UInt32} (room : device.devidIndex.toNat < 2 ^ 16 - 1)
    (own : BelongsTo device.deviceId (nextDevid device))
    (belongs : BelongsTo device.deviceId devid) :
    devid = nextDevid device ↔
      (devnodeIdOf devid).toNat = (device.devidIndex.toNat + 1) % 2 ^ 8 := by
  have unpacked : (devnodeIdOf (nextDevid device)).toNat =
      (device.devidIndex.toNat + 1) % 2 ^ 8 := by
    rw [nextDevid, toNat_devnodeIdOf_mkDevid, toNat_index room]
  rw [← unpacked, UInt32.toNat_inj]
  constructor
  · rintro rfl
    rfl
  · exact devid_ext (belongs.1.trans own.1.symm) (belongs.2.trans own.2.symm)

/-! ### Steps -/

@[simp] theorem deviceId_updateDeivceNodeIdIndex {nodeDevid : UInt32} :
    (updateDeivceNodeIdIndex device nodeDevid).deviceId = device.deviceId := by
  unfold updateDeivceNodeIdIndex
  split <;> rfl

@[simp] theorem devNodes_updateDeivceNodeIdIndex {nodeDevid : UInt32} :
    (updateDeivceNodeIdIndex device nodeDevid).devNodes = device.devNodes := by
  unfold updateDeivceNodeIdIndex
  split <;> rfl

/-- The ids stay, and a node that is linked has an id or has been linked before. -/
structure Keeps (h t : History) : Prop where
  assignments : t.assignments = h.assignments
  devIds : t.devIds = h.devIds
  deviceId : t.device.deviceId = h.device.deviceId
  linked : ∀ node ∈ t.device.devNodes, node ∈ h.device.devNodes ∨ h.devIds node ≠ 0

/-- A node gets the next id. -/
structure Assigns (devNode : ℕ) (h t : History) : Prop where
  asked : h.devIds devNode = 0
  room : h.device.devidIndex.toNat < 2 ^ 16 - 1
  assignments : t.assignments =
    h.assignments ++ [⟨nextDevid h.device, h.device.devNodes.map h.devIds⟩]
  devIds : t.devIds = Function.update h.devIds devNode (nextDevid h.device)
  deviceId : t.device.deviceId = h.device.deviceId
  linked : ∀ node ∈ t.device.devNodes, node ∈ h.device.devNodes ∨ node = devNode

/-- The end of an attachment. -/
theorem devNodes_of_attached {ret : HdfStatus} {device' : HdfDevice} {result : HdfStatus}
    (attached : (if ret = .success then
        if devNode ∈ device.devNodes then none
        else
          some (ret, updateDeivceNodeIdIndex
            { device with devNodes := device.devNodes ++ [devNode] } (devIds devNode), devIds)
      else some (ret, device, devIds)) = some (result, device', devIds')) :
    devIds' = devIds ∧ device'.deviceId = device.deviceId ∧
      ∀ node ∈ device'.devNodes, node ∈ device.devNodes ∨ node = devNode := by
  split at attached
  · split at attached
    · cases attached
    · cases attached
      refine ⟨rfl, by simp, fun node member => ?_⟩
      simpa using member
  · cases attached
    exact ⟨rfl, rfl, fun _ member => .inl member⟩

theorem step_attach {launchNode : Option HdfStatus}
    (stepped : step (.attach devNode launchNode) h = some t) :
    (Keeps h t ∧ Roomy (.attach devNode launchNode) h) ∨
      (∃ ret, launchNode = some ret) ∧ Assigns devNode h t := by
  obtain ⟨⟨result, device, devIds⟩, attached, rfl⟩ := Option.map_eq_some_iff.mp stepped
  unfold hdfDeviceAttach at attached
  split at attached
  case h_1 =>
    cases attached
    exact .inl ⟨⟨by simp, rfl, rfl, fun _ member => .inl member⟩, trivial⟩
  case h_2 ret =>
    dsimp only at attached
    rw [acquireNodeDeivceId_eq] at attached
    by_cases asked : h.devIds devNode = 0
    · by_cases room : h.device.devidIndex.toNat < 2 ^ 16 - 1
      · rw [if_pos asked, if_pos room] at attached
        obtain ⟨rfl, deviceId, linked⟩ := devNodes_of_attached attached
        have changed : nextDevid h.device ≠ h.devIds devNode := by
          rw [asked]
          exact nextDevid_ne_zero room
        refine .inr ⟨⟨ret, rfl⟩, asked, room, ?_, rfl, deviceId, linked⟩
        simp [changed]
      · rw [if_pos asked, if_neg room] at attached
        cases attached
        exact .inl ⟨⟨by simp, rfl, rfl, fun _ member => .inl member⟩,
          fun _ more => absurd more room⟩
    · rw [if_neg asked] at attached
      obtain ⟨rfl, deviceId, linked⟩ := devNodes_of_attached attached
      refine .inl ⟨⟨by simp, rfl, deviceId, fun node member => ?_⟩, fun id => absurd id asked⟩
      rcases linked node member with before | rfl
      · exact .inl before
      · exact .inr asked

theorem step_detach (stepped : step (.detach devNode) h = some t) : Keeps h t := by
  obtain rfl := Option.some.inj stepped
  refine ⟨rfl, rfl, ?_, fun node member => .inl ?_⟩
  · unfold hdfDeviceDetach
    split <;> rfl
  · unfold hdfDeviceDetach at member
    split at member
    · exact member
    · exact List.mem_of_mem_erase member

/-! ### Runs -/

/-- All nodes that have an id have one of the device. -/
structure Own (deviceId : UInt32) (h : History) : Prop where
  device : h.device.deviceId = deviceId
  given : ∀ node, h.devIds node = 0 ∨ BelongsTo deviceId (h.devIds node)
  attached : ∀ node ∈ h.device.devNodes, BelongsTo deviceId (h.devIds node)

variable {deviceId : UInt32} {calls : List Call}

theorem Own.keeps (own : Own deviceId h) (keeps : Keeps h t) : Own deviceId t := by
  constructor
  · rw [keeps.deviceId, own.device]
  · rw [keeps.devIds]
    exact own.given
  · rw [keeps.devIds]
    intro node member
    rcases keeps.linked node member with before | identified
    · exact own.attached node before
    · exact (own.given node).resolve_left identified

theorem Own.assigns (own : Own deviceId h) (assigns : Assigns devNode h t)
    (belongs : BelongsTo deviceId (nextDevid h.device)) : Own deviceId t := by
  have ids (node : ℕ) (other : node ≠ devNode → BelongsTo deviceId (h.devIds node)) :
      BelongsTo deviceId (t.devIds node) := by
    rw [assigns.devIds, Function.update_apply]
    split
    · exact belongs
    · exact other ‹_›
  constructor
  · rw [assigns.deviceId, own.device]
  · intro node
    by_cases same : node = devNode
    · exact .inr (ids node fun differs => absurd same differs)
    · rw [assigns.devIds, Function.update_of_ne same]
      exact own.given node
  · intro node member
    refine ids node fun differs => ?_
    exact own.attached node ((assigns.linked node member).resolve_right differs)

/-- The id that a node gets is fresh when the attachment is roomy. -/
theorem Own.fresh_iff (own : Own deviceId h) (assigns : Assigns devNode h t) (ret : HdfStatus) :
    (⟨nextDevid h.device, h.device.devNodes.map h.devIds⟩ : Assignment).Fresh deviceId ↔
      Roomy (.attach devNode (some ret)) h := by
  obtain ⟨rfl, -, attached⟩ := own
  have room := assigns.room
  rw [Assignment.Fresh, belongsTo_nextDevid room]
  have free (belongs : BelongsTo h.device.deviceId (nextDevid h.device)) :
      nextDevid h.device ∉ h.device.devNodes.map h.devIds ↔ ∀ other ∈ h.device.devNodes,
        (devnodeIdOf (h.devIds other)).toNat ≠ (h.device.devidIndex.toNat + 1) % 2 ^ 8 := by
    simp only [List.mem_map, not_exists, not_and]
    exact forall₂_congr fun other member =>
      not_congr (eq_nextDevid_iff room belongs (attached other member))
  constructor
  · rintro ⟨absent, number⟩ _ _
    exact ⟨number, (free ((belongsTo_nextDevid room).mpr number)).mp absent⟩
  · intro roomy
    obtain ⟨number, unused⟩ := roomy assigns.asked room
    exact ⟨(free ((belongsTo_nextDevid room).mpr number)).mpr unused, number⟩

/-- The ids that a device assigns are its own and differ from those of the other nodes then
attached, in exactly the runs whose attachments are all roomy. -/
theorem fresh_iff_roomy {devIds : ℕ → UInt32}
    (configured : ∀ node, devIds node = 0 ∨ BelongsTo deviceId (devIds node))
    (ran : runs step (start deviceId devIds) calls = some h) :
    (∀ a ∈ h.assignments, a.Fresh deviceId) ↔ Meets step Roomy (start deviceId devIds) calls := by
  have own : Own deviceId (start deviceId devIds) :=
    ⟨rfl, configured, fun _ member => absurd member List.not_mem_nil⟩
  have new : ∀ a ∈ (start deviceId devIds).assignments, a.Fresh deviceId :=
    fun _ member => absurd member List.not_mem_nil
  -- detaching assigns nothing, and attaching assigns a fresh id exactly when there is room
  refine (runs_iff_meets (I := Own deviceId)
    (P := fun h => ∀ a ∈ h.assignments, a.Fresh deviceId) ?keeps ?breaks ?stays own
    ran).trans (and_iff_right new)
  case keeps =>
    intro call s t own stepped roomy
    cases call with
    | attach devNode launchNode =>
      rcases step_attach stepped with ⟨keeps, -⟩ | ⟨⟨ret, rfl⟩, assigns⟩
      · exact ⟨own.keeps keeps, keeps.assignments ▸ id⟩
      · have fresh := (own.fresh_iff assigns ret).mpr roomy
        refine ⟨own.assigns assigns fresh.2, fun past => ?_⟩
        rw [assigns.assignments]
        exact List.forall_mem_append.mpr ⟨past, List.forall_mem_singleton.mpr fresh⟩
    | detach devNode =>
      have keeps := step_detach stepped
      exact ⟨own.keeps keeps, keeps.assignments ▸ id⟩
  case breaks =>
    intro call s t own stepped cramped fresh
    cases call with
    | attach devNode launchNode =>
      rcases step_attach stepped with ⟨-, roomy⟩ | ⟨⟨ret, rfl⟩, assigns⟩
      · exact cramped roomy
      · rw [assigns.assignments] at fresh
        exact cramped ((own.fresh_iff assigns ret).mp (fresh _ (by simp)))
    | detach devNode => exact cramped trivial
  case stays =>
    intro call s t stepped stale fresh
    refine stale fun a member => fresh a ?_
    cases call with
    | attach devNode launchNode =>
      rcases step_attach stepped with ⟨keeps, -⟩ | ⟨-, assigns⟩
      · rwa [keeps.assignments]
      · rw [assigns.assignments]
        exact List.mem_append_left _ member
    | detach devNode => rwa [(step_detach stepped).assignments]

end

/-- The device with number 1 of host 0, and its configured nodes 2 and 3. -/
def camera : UInt32 := mkDevid 0 1 0

def configuration (node : ℕ) : UInt32 :=
  if node = 2 ∨ node = 3 then mkDevid 0 1 (.ofNat node) else 0

theorem configured (node : ℕ) : configuration node = 0 ∨ BelongsTo camera (configuration node) := by
  unfold configuration
  split
  case isTrue own =>
    rcases own with rfl | rfl
    · exact .inr (by decide)
    · exact .inr (by decide)
  case isFalse => exact .inl rfl

def growth : List Call := [.attach 3 (some .success), .attach 4 (some .success), .detach 4]

theorem fresh_growth : ∃ h ∈ runs step (start camera configuration) growth,
    ∀ a ∈ h.assignments, a.Fresh camera := by
  obtain ⟨h, ran⟩ : ∃ h, runs step (start camera configuration) growth = some h := ⟨_, rfl⟩
  exact ⟨h, ran, (fresh_iff_roomy configured ran).mpr (by decide)⟩

/-- The counter starts at the device number, so the first new node gets the number of node 2. -/
theorem dynamic_id_collides :
    ∃ deviceId devIds calls, (∀ node, devIds node = 0 ∨ BelongsTo deviceId (devIds node)) ∧
      ∃ h ∈ runs step (start deviceId devIds) calls, ∃ a ∈ h.assignments, a.devid ∈ a.others :=
  ⟨camera, configuration, [.attach 2 (some .success), .attach 4 (some .success)], configured,
    _, rfl, _, List.mem_singleton_self _, by decide⟩

end Hdf.Core.Device
