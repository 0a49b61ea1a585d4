import Hdf.Lib.BitFields
import Hdf.Lib.Runs

/-!
# The addresses of an I3C controller

A controller has the status of each of its 128 addresses, two bits each and eight to a
word. Some addresses are reserved. A device takes its address when it is added, and all
devices of all controllers are in one list.

What the lock of the controller answers comes with the calls. The lock may be one of the
driver's own, so that it can fail, or be got again while it is held.

## Main results

* `mirrors_of_runs`: the statuses mirror the list after orderly calls
* `loses_addresses`: addresses that are never free again, and one that is taken twice
-/

namespace Hdf.Platform.I3c

open BitVec

/-- `enum I3cAddrStatus`. -/
inductive I3cAddrStatus where
  | free | reserved | i2cDevice | i3cDevice
  deriving DecidableEq, Repr

/-- The two bits of a status. -/
def I3cAddrStatus.bits : I3cAddrStatus → BitVec 16
  | .free => 0
  | .reserved => 1
  | .i2cDevice => 2
  | .i3cDevice => 3

/-- The status of two bits. -/
def I3cAddrStatus.ofBits (bits : BitVec 16) : I3cAddrStatus :=
  if bits = 0 then .free else if bits = 1 then .reserved else if bits = 2 then .i2cDevice
  else .i3cDevice

/-- `enum I3cDeviceType`. -/
inductive I3cDeviceType where
  | i2cDevice | i2cLegacyDevice | i3cDevice
  deriving DecidableEq, Repr

/-- The status of the address of a device. -/
def I3cDeviceType.status : I3cDeviceType → I3cAddrStatus
  | .i2cDevice | .i2cLegacyDevice => .i2cDevice
  | .i3cDevice => .i3cDevice

/-- `struct I3cDevice`. -/
structure I3cDevice where
  cntlr : ℕ
  type : I3cDeviceType
  pid : UInt64
  addr : UInt16
  deriving DecidableEq, Repr

/-- The words of the statuses of each controller, how often its lock is held between two calls,
and the list of devices. -/
structure State where
  addrSlot : ℕ → ℕ → BitVec 16
  held : ℕ → ℕ
  list : List I3cDevice

/-- What the functions return. -/
inductive Status where
  | success | invalidObject | failed | io
  deriving DecidableEq, Repr

/-- `I3cCheckReservedAddr`. -/
def i3cCheckReservedAddr (addr : ℕ) : Bool :=
  addr ∈ [0x00, 0x01, 0x02, 0x3e, 0x5e, 0x6e, 0x76, 0x78, 0x79, 0x7a, 0x7b, 0x7c, 0x7d, 0x7e, 0x7f]

/-- `I3C_ADDR_MAX`. -/
def i3cAddrMax : ℕ := 127

/-- The status that a controller has for an address. -/
def State.statusOf (s : State) (cntlr addr : ℕ) : I3cAddrStatus :=
  .ofBits (3 &&& (s.addrSlot cntlr (addr / 8) >>> (addr % 8 * 2)))

/-- `GetAddrStatus`, if the address is not too large. -/
def getAddrStatus (cntlr addr : ℕ) (s : State) : Option I3cAddrStatus :=
  if i3cAddrMax < addr then none else some (s.statusOf cntlr addr)

/-- Replaces the status of an address in its word. -/
def setSlot (slots : ℕ → BitVec 16) (addr : ℕ) (status : I3cAddrStatus) : ℕ → BitVec 16 :=
  let statusMask := (3 : BitVec 16) <<< (addr % 8 * 2)
  let temp := slots (addr / 8) &&& ~~~statusMask
  Function.update slots (addr / 8) (temp ||| (status.bits <<< (addr % 8 * 2)))

/-- The status of an address of a controller changes. -/
def State.setStatus (s : State) (cntlr addr : ℕ) (status : I3cAddrStatus) : State :=
  { s with addrSlot := Function.update s.addrSlot cntlr (setSlot (s.addrSlot cntlr) addr status) }

/-- `SetAddrStatus`. -/
def setAddrStatus (cntlr addr : ℕ) (status : I3cAddrStatus) (lock : Bool) (s : State) :
    Bool × State :=
  if i3cAddrMax < addr then (false, s)
  else if ¬lock then (false, s)
  else (true, s.setStatus cntlr addr status)

/-- `I3cInitAddrStatus`. -/
def i3cInitAddrStatus (cntlr : ℕ) (s : State) : State :=
  (List.range (i3cAddrMax + 1)).foldl (fun s addr =>
    if i3cCheckReservedAddr addr then (setAddrStatus cntlr addr .reserved true s).2 else s) s

/-- `GetFreeAddr`. If it finds an address, then it keeps the lock. -/
def getFreeAddr (cntlr : ℕ) (lock : Bool) (s : State) : Option ℕ × State :=
  if ¬lock then (none, s)
  else match (List.range (i3cAddrMax + 1)).find? (fun count => s.statusOf cntlr count = .free) with
    | some count => (some count, { s with held := Function.update s.held cntlr (s.held cntlr + 1) })
    | none => (none, s)

/-- What the lock answers: when the status is set, when a free address is looked for, when the
status of that one is set, and when the status is set after the device has been found in the
list. -/
structure Answer where
  set : Bool
  free : Bool
  again : Bool
  undo : Bool
  deriving DecidableEq, Repr

/-- `I3cDeviceDefineI3cDevices`. -/
def i3cDeviceDefineI3cDevices (device : I3cDevice) (answer : Answer) (s : State) : Bool × State :=
  match setAddrStatus device.cntlr device.addr.toNat .i3cDevice answer.set s with
  | (true, s) => (true, s)
  | (false, s) =>
    match getFreeAddr device.cntlr answer.free s with
    | (none, s) | (some 0, s) => (false, s)
    | (some (addr + 1), s) => setAddrStatus device.cntlr (addr + 1) .i3cDevice answer.again s

/-- The start of `I3cDeviceAdd`, in which the device takes its address. -/
def takeAddr (device : I3cDevice) (answer : Answer) (s : State) : Bool × State :=
  match device.type with
  | .i2cDevice | .i2cLegacyDevice =>
    setAddrStatus device.cntlr device.addr.toNat .i2cDevice answer.set s
  | .i3cDevice => i3cDeviceDefineI3cDevices device answer s

/-- A device of the list has the product id of another one. -/
def SamePid (pos device : I3cDevice) : Prop := pos.pid = device.pid ∧ pos.cntlr = device.cntlr

instance : DecidableRel SamePid := fun pos device =>
  inferInstanceAs (Decidable (pos.pid = device.pid ∧ pos.cntlr = device.cntlr))

/-- `I3cDeviceAdd`. -/
def i3cDeviceAdd (device : I3cDevice) (answer : Answer) (s : State) : Status × State :=
  if getAddrStatus device.cntlr device.addr.toNat s ≠ some .free then (.invalidObject, s)
  else match takeAddr device answer s with
    | (false, s) => (.failed, s)
    | (true, s) =>
      if ∃ pos ∈ s.list, SamePid pos device then
        (.io, (setAddrStatus device.cntlr device.addr.toNat .reserved answer.undo s).2)
      else (.success, { s with list := s.list ++ [device] })

/-- `I3cDeviceRemove`. -/
def i3cDeviceRemove (device : I3cDevice) (lock : Bool) (s : State) : State :=
  match setAddrStatus device.cntlr device.addr.toNat .reserved lock s with
  | (false, s) => s
  | (true, s) => { s with list := s.list.erase device }

/-- The calls. A device is removed that is in the list. -/
inductive Action where
  | add (device : I3cDevice) (answer : Answer)
  | remove (device : I3cDevice) (lock : Bool)
  deriving DecidableEq, Repr

/-- One call. -/
def step (action : Action) (s : State) : Option State :=
  match action with
  | .add device answer => some (i3cDeviceAdd device answer s).2
  | .remove device lock => if device ∈ s.list then some (i3cDeviceRemove device lock s) else none

/-- The controllers before `I3cCntlrAdd`. -/
def zeroed : State where
  addrSlot _ _ := 0
  held _ := 0
  list := []

/-- The controllers after `I3cCntlrAdd`, which initialises the statuses of each of them. -/
def added : State where
  addrSlot cntlr := (i3cInitAddrStatus cntlr zeroed).addrSlot cntlr
  held _ := 0
  list := []

/-- The calls that keep the statuses right: no device is removed, as the lock is not got for it;
no device is added at a free address that has the product id of a device of the same
controller; and no other address is taken for an I3C device after the lock has failed. -/
def Orderly (action : Action) (s : State) : Prop :=
  match action with
  | .add device answer => getAddrStatus device.cntlr device.addr.toNat s = some .free →
      if answer.set then ∀ pos ∈ s.list, ¬SamePid pos device
      else device.type = .i3cDevice → ¬(answer.free ∧ answer.again)
  | .remove _ lock => lock = false

instance (action : Action) (s : State) : Decidable (Orderly action s) :=
  match action with
  | .add device answer => inferInstanceAs (Decidable
      (getAddrStatus device.cntlr device.addr.toNat s = some .free →
        if answer.set then ∀ pos ∈ s.list, ¬SamePid pos device
        else device.type = .i3cDevice → ¬(answer.free ∧ answer.again)))
  | .remove _ lock => inferInstanceAs (Decidable (lock = false))

/-- A device of a controller with a type and an address is in the list. -/
def State.Has (s : State) (cntlr addr : ℕ) (status : I3cAddrStatus) : Prop :=
  ∃ device ∈ s.list, device.cntlr = cntlr ∧ device.addr.toNat = addr ∧ device.type.status = status

/-- The statuses mirror the list. -/
structure Mirrored (s : State) : Prop where
  reserved : ∀ cntlr addr, addr < 128 →
    (s.statusOf cntlr addr = .reserved ↔ i3cCheckReservedAddr addr = true)
  i2cDevice : ∀ cntlr addr, addr < 128 →
    (s.statusOf cntlr addr = .i2cDevice ↔ s.Has cntlr addr .i2cDevice)
  i3cDevice : ∀ cntlr addr, addr < 128 →
    (s.statusOf cntlr addr = .i3cDevice ↔ s.Has cntlr addr .i3cDevice)
  free : ∀ cntlr addr, addr < 128 → (s.statusOf cntlr addr = .free ↔
    i3cCheckReservedAddr addr = false ∧
      ∀ device ∈ s.list, device.cntlr = cntlr → device.addr.toNat ≠ addr)

/-- The statuses mirror the list, and an addition that fails changes none. -/
structure Mirrors (s : State) : Prop extends Mirrored s where
  failed : ∀ device answer, Orderly (.add device answer) s →
    (i3cDeviceAdd device answer s).1 ≠ .success →
      ∀ cntlr addr, addr < 128 → (i3cDeviceAdd device answer s).2.statusOf cntlr addr =
        s.statusOf cntlr addr

/-! ### Statuses -/

/-- Eight statuses of two bits are packed into a word. -/
def addrPacking : Packing 16 where
  perWord := 8
  bits := 2
  mask := 3
  positive := by decide
  fits := by decide
  apart := by decide

variable {s t : State} {cntlr addr : ℕ} {status : I3cAddrStatus} {device : I3cDevice}

theorem ofBits_bits (status : I3cAddrStatus) : .ofBits status.bits = status := by
  cases status <;> decide

theorem bits_and_three (status : I3cAddrStatus) : status.bits &&& 3 = status.bits := by
  cases status <;> decide

theorem statusOf_eq (s : State) (cntlr addr : ℕ) :
    s.statusOf cntlr addr = .ofBits (addrPacking.get (s.addrSlot cntlr) addr) := by
  rw [State.statusOf, BitVec.and_comm]
  rfl

theorem setSlot_eq (slots : ℕ → BitVec 16) (addr : ℕ) (status : I3cAddrStatus) :
    setSlot slots addr status = addrPacking.set slots addr status.bits := by
  have inside : status.bits <<< (addr % 8 * 2) &&& (3 : BitVec 16) <<< (addr % 8 * 2) =
      status.bits <<< (addr % 8 * 2) := by
    rw [← BitVec.shiftLeft_and_distrib, bits_and_three]
  rw [setSlot, Packing.set, setField]
  dsimp only [addrPacking]
  rw [inside]

/-- Setting the status of an address changes no other one. -/
theorem statusOf_setStatus (s : State) (cntlr addr : ℕ) (status : I3cAddrStatus)
    (cntlr' addr' : ℕ) : (s.setStatus cntlr addr status).statusOf cntlr' addr' =
      if cntlr' = cntlr ∧ addr' = addr then status else s.statusOf cntlr' addr' := by
  rw [statusOf_eq, State.setStatus]
  dsimp only
  by_cases same : cntlr' = cntlr
  · rw [same, Function.update_self, setSlot_eq,
      addrPacking.get_set _ (bits_and_three status)]
    by_cases here : addr' = addr
    · rw [if_pos here, if_pos ⟨rfl, here⟩, ofBits_bits]
    · rw [if_neg here, if_neg fun both => here both.2, statusOf_eq]
  · rw [Function.update_of_ne same, if_neg fun both => same both.1, statusOf_eq]

theorem setAddrStatus_of_lock (small : addr ≤ i3cAddrMax) (status : I3cAddrStatus) (s : State) :
    setAddrStatus cntlr addr status true s = (true, s.setStatus cntlr addr status) := by
  rw [setAddrStatus, if_neg (Nat.not_lt.mpr small), if_neg (not_not.mpr rfl)]

theorem setAddrStatus_of_not_lock (cntlr addr : ℕ) (status : I3cAddrStatus) (s : State) :
    setAddrStatus cntlr addr status false s = (false, s) := by
  rw [setAddrStatus]
  split
  · rfl
  · rfl

/-- The statuses after some addresses have been initialised. -/
theorem statusOf_foldl (cntlr : ℕ) (l : List ℕ) (small : ∀ addr ∈ l, addr ≤ i3cAddrMax) (s : State)
    (addr : ℕ) : (l.foldl (fun s addr =>
        if i3cCheckReservedAddr addr then (setAddrStatus cntlr addr .reserved true s).2 else s)
      s).statusOf cntlr addr =
      if addr ∈ l ∧ i3cCheckReservedAddr addr = true then .reserved else s.statusOf cntlr addr := by
  induction l generalizing s with
  | nil => rw [if_neg fun both => List.not_mem_nil both.1, List.foldl_nil]
  | cons first l ih =>
    have one : State.statusOf (if i3cCheckReservedAddr first = true then
          (setAddrStatus cntlr first .reserved true s).2 else s) cntlr addr =
        if addr = first ∧ i3cCheckReservedAddr addr = true then .reserved
        else s.statusOf cntlr addr := by
      rw [setAddrStatus_of_lock (small first List.mem_cons_self)]
      by_cases here : addr = first
      · subst here
        split
        · rename_i reserved
          rw [statusOf_setStatus, if_pos ⟨rfl, rfl⟩, if_pos ⟨rfl, reserved⟩]
        · rename_i unreserved
          rw [if_neg fun both => unreserved both.2]
      · have elsewhere : ¬(addr = first ∧ i3cCheckReservedAddr addr = true) :=
          fun both => here both.1
        rw [if_neg elsewhere]
        split
        · rw [statusOf_setStatus, if_neg fun both => here both.2]
        · rfl
    rw [List.foldl_cons, ih fun addr member => small addr (List.mem_cons_of_mem _ member), one]
    grind

theorem statusOf_added (cntlr : ℕ) {addr : ℕ} (small : addr < 128) :
    added.statusOf cntlr addr = if i3cCheckReservedAddr addr then .reserved else .free := by
  have zero : zeroed.statusOf cntlr addr = .free := by
    rw [statusOf_eq]
    simp [zeroed, Packing.get, field, I3cAddrStatus.ofBits]
  have initialised := statusOf_foldl cntlr (List.range (i3cAddrMax + 1))
    (fun addr member => Nat.le_of_lt_succ (List.mem_range.mp member)) zeroed addr
  rw [zero] at initialised
  rw [State.statusOf]
  refine initialised.trans ?_
  simp only [List.mem_range, i3cAddrMax, small, true_and]

/-! ### What the calls keep -/

theorem mirrored_added : Mirrored added := by
  have nobody (cntlr addr : ℕ) (status : I3cAddrStatus) : ¬added.Has cntlr addr status := by
    rintro ⟨device, member, -⟩
    exact List.not_mem_nil member
  refine ⟨?_, ?_, ?_, ?_⟩
  all_goals
    intro cntlr addr small
    rw [statusOf_added cntlr small]
    cases reserved : i3cCheckReservedAddr addr
  all_goals simp [nobody, show added.list = [] from rfl]

/-- Only the statuses and the list matter. -/
theorem Mirrored.congr (mirrored : Mirrored s)
    (statuses : ∀ cntlr addr, t.statusOf cntlr addr = s.statusOf cntlr addr)
    (list : t.list = s.list) : Mirrored t := by
  have has (cntlr addr : ℕ) (status : I3cAddrStatus) :
      t.Has cntlr addr status ↔ s.Has cntlr addr status := by
    rw [State.Has, State.Has, list]
  refine ⟨?_, ?_, ?_, ?_⟩
  all_goals
    intro cntlr addr small
    rw [statuses]
  · exact mirrored.reserved cntlr addr small
  · rw [has]
    exact mirrored.i2cDevice cntlr addr small
  · rw [has]
    exact mirrored.i3cDevice cntlr addr small
  · rw [list]
    exact mirrored.free cntlr addr small

theorem has_append (s : State) (device : I3cDevice) (cntlr addr : ℕ) (status : I3cAddrStatus)
    (slots : ℕ → ℕ → BitVec 16) :
    State.Has { s with addrSlot := slots, list := s.list ++ [device] } cntlr addr status ↔
      s.Has cntlr addr status ∨
        device.cntlr = cntlr ∧ device.addr.toNat = addr ∧ device.type.status = status := by
  simp only [State.Has, List.mem_append, List.mem_singleton, or_and_right, exists_or,
    exists_eq_left]

theorem status_ne_reserved (type : I3cDeviceType) : type.status ≠ .reserved := by
  cases type <;> decide

theorem status_ne_free (type : I3cDeviceType) : type.status ≠ .free := by
  cases type <;> decide

/-- A device at a free address that enters the list. -/
theorem Mirrored.enter (mirrored : Mirrored s) (small : device.addr.toNat < 128)
    (free : s.statusOf device.cntlr device.addr.toNat = .free) :
    Mirrored { s.setStatus device.cntlr device.addr.toNat device.type.status with
      list := s.list ++ [device] } := by
  have statuses (cntlr addr : ℕ) :
      State.statusOf { s.setStatus device.cntlr device.addr.toNat device.type.status with
        list := s.list ++ [device] } cntlr addr =
      if cntlr = device.cntlr ∧ addr = device.addr.toNat then device.type.status
      else s.statusOf cntlr addr := statusOf_setStatus s _ _ _ cntlr addr
  -- nobody has had the address before
  have nobody (status : I3cAddrStatus) : ¬s.Has device.cntlr device.addr.toNat status := by
    rintro ⟨other, member, same, here, -⟩
    exact ((mirrored.free _ _ small).mp free).2 other member same here
  have has (cntlr addr : ℕ) (status : I3cAddrStatus) :
      State.Has { s.setStatus device.cntlr device.addr.toNat device.type.status with
        list := s.list ++ [device] } cntlr addr status ↔
      if cntlr = device.cntlr ∧ addr = device.addr.toNat then device.type.status = status
      else s.Has cntlr addr status := by
    refine (has_append s device cntlr addr status _).trans ?_
    split
    · rename_i here
      rw [here.1, here.2]
      exact ⟨fun either => (either.resolve_left (nobody status)).2.2,
        fun same => .inr ⟨rfl, rfl, same⟩⟩
    · rename_i elsewhere
      exact ⟨fun either => either.resolve_right fun new => elsewhere ⟨new.1.symm, new.2.1.symm⟩,
        .inl⟩
  refine ⟨?_, ?_, ?_, ?_⟩
  all_goals
    intro cntlr addr below
    rw [statuses]
  · split
    · rename_i here
      have unreserved := ((mirrored.free _ _ small).mp free).1
      rw [here.2, unreserved]
      exact iff_of_false (status_ne_reserved _) Bool.false_ne_true
    · exact mirrored.reserved cntlr addr below
  · rw [has]
    split
    · exact Iff.rfl
    · exact mirrored.i2cDevice cntlr addr below
  · rw [has]
    split
    · exact Iff.rfl
    · exact mirrored.i3cDevice cntlr addr below
  · split
    · rename_i here
      refine iff_of_false (status_ne_free _) fun both => ?_
      exact both.2 device (List.mem_append_right _ List.mem_cons_self) here.1.symm here.2.symm
    · rename_i elsewhere
      rw [mirrored.free cntlr addr below]
      refine and_congr_right fun _ => ⟨fun before other member same there => ?_,
        fun after other member => after other (List.mem_append_left _ member)⟩
      rcases List.mem_append.mp member with old | new
      · exact before other old same there
      · rw [List.mem_singleton.mp new] at same there
        exact elsewhere ⟨same.symm, there.symm⟩

/-- A device takes its address if the lock is got for it. -/
theorem takeAddr_of_set {answer : Answer} (small : device.addr.toNat ≤ i3cAddrMax)
    (set : answer.set = true) (s : State) : takeAddr device answer s =
      (true, s.setStatus device.cntlr device.addr.toNat device.type.status) := by
  rw [takeAddr]
  cases type : device.type with
  | i2cDevice | i2cLegacyDevice =>
    rw [set]
    exact setAddrStatus_of_lock small _ s
  | i3cDevice =>
    dsimp only
    rw [i3cDeviceDefineI3cDevices, set, setAddrStatus_of_lock small]
    rfl

/-- A device that does not get the lock takes no address, if the call is orderly. -/
theorem takeAddr_of_not_set {answer : Answer} (set : answer.set = false)
    (orderly : device.type = .i3cDevice → ¬(answer.free ∧ answer.again)) (s : State) :
    ∃ held, takeAddr device answer s = (false, { s with held := held }) := by
  rw [takeAddr]
  cases type : device.type with
  | i2cDevice | i2cLegacyDevice =>
    rw [set]
    exact ⟨s.held, setAddrStatus_of_not_lock ..⟩
  | i3cDevice =>
    dsimp only
    rw [i3cDeviceDefineI3cDevices, set, setAddrStatus_of_not_lock]
    dsimp only
    cases free : answer.free with
    | false => exact ⟨s.held, rfl⟩
    | true =>
      have again : answer.again = false :=
        Bool.eq_false_iff.mpr fun again => orderly type ⟨free, again⟩
      rw [getFreeAddr, if_neg (not_not.mpr rfl)]
      cases found : (List.range (i3cAddrMax + 1)).find?
          fun count => s.statusOf device.cntlr count = .free with
      | none => exact ⟨s.held, rfl⟩
      | some count =>
        cases count with
        | zero => exact ⟨_, rfl⟩
        | succ addr =>
          refine ⟨Function.update s.held device.cntlr (s.held device.cntlr + 1), ?_⟩
          dsimp only
          rw [again, setAddrStatus_of_not_lock]

/-- What adding a device does. -/
theorem Mirrored.add (mirrored : Mirrored s) {answer : Answer}
    (orderly : Orderly (.add device answer) s) : Mirrored (i3cDeviceAdd device answer s).2 ∧
      ((i3cDeviceAdd device answer s).1 ≠ .success → ∀ cntlr addr,
        (i3cDeviceAdd device answer s).2.statusOf cntlr addr = s.statusOf cntlr addr) := by
  rw [i3cDeviceAdd]
  split
  · exact ⟨mirrored, fun _ _ _ => rfl⟩
  · rename_i free
    replace free := not_not.mp free
    have condition := orderly free
    have small : device.addr.toNat ≤ i3cAddrMax := by
      by_contra large
      rw [getAddrStatus, if_pos (Nat.not_le.mp large)] at free
      cases free
    rw [getAddrStatus, if_neg (Nat.not_lt.mpr small)] at free
    cases set : answer.set with
    | true =>
      rw [set, if_pos rfl] at condition
      have nobody : ¬∃ pos ∈ s.list, SamePid pos device := by simpa using condition
      have nobody' : ¬∃ pos ∈ (s.setStatus device.cntlr device.addr.toNat
          device.type.status).list, SamePid pos device := nobody
      rw [takeAddr_of_set small set]
      dsimp only
      rw [if_neg nobody']
      exact ⟨mirrored.enter (Nat.lt_succ_of_le small) (Option.some.inj free),
        fun no => absurd rfl no⟩
    | false =>
      rw [set, if_neg Bool.false_ne_true] at condition
      obtain ⟨held, taken⟩ := takeAddr_of_not_set set condition s
      rw [taken]
      exact ⟨mirrored.congr (fun _ _ => rfl) rfl, fun _ _ _ => rfl⟩

/-- What a call keeps. -/
theorem Mirrored.step (mirrored : Mirrored s) {action : Action} (orderly : Orderly action s)
    (stepped : I3c.step action s = some t) : Mirrored t := by
  cases action with
  | add device answer =>
    cases stepped
    exact (mirrored.add orderly).1
  | remove device lock =>
    obtain rfl : lock = false := orderly
    rw [I3c.step] at stepped
    split at stepped
    · cases stepped
      rw [i3cDeviceRemove, setAddrStatus_of_not_lock]
      exact mirrored
    · cases stepped

/-- The statuses mirror the list after orderly calls. -/
theorem mirrors_of_runs {actions : List Action} (orderly : Meets I3c.step Orderly added actions)
    (ran : runs I3c.step added actions = some s) : Mirrors s :=
  have mirrored := runs_invariant
    (fun _ _ _ mirrored orderly stepped => mirrored.step orderly stepped)
    mirrored_added orderly ran
  { mirrored with failed := fun _ _ orderly fails cntlr addr _ =>
      (mirrored.add orderly).2 fails cntlr addr }

/-! ### Some runs -/

/-- The lock is got whenever it is asked for. -/
def got : Answer := ⟨true, true, true, true⟩

/-- Two devices are added, and one at the address of the first, and the second one is kept as the
lock is not got. -/
def orderlyRun : List Action :=
  [.add ⟨0, .i3cDevice, 1, 0x10⟩ got, .add ⟨0, .i2cDevice, 2, 0x11⟩ got,
    .add ⟨0, .i3cDevice, 3, 0x10⟩ got, .remove ⟨0, .i2cDevice, 2, 0x11⟩ false,
    .add ⟨1, .i3cDevice, 1, 0x7e⟩ got]

theorem mirrors_orderlyRun : ∃ s, runs step added orderlyRun = some s ∧ Mirrors s ∧
    s.list = [⟨0, .i3cDevice, 1, 0x10⟩, ⟨0, .i2cDevice, 2, 0x11⟩] ∧
    s.statusOf 0 0x10 = .i3cDevice ∧ s.statusOf 0 0x11 = .i2cDevice ∧
      s.statusOf 1 0x7e = .reserved :=
  ⟨_, rfl, @mirrors_of_runs _ orderlyRun (by decide) rfl, rfl, by decide, by decide, by decide⟩

/-- The address of a device that has been removed is reserved, and so is the address of a device
that was not added because of its product id. And a device is in the list that does not have its
own address, but the first free one. -/
theorem loses_addresses :
    (∃ s, runs step added [.add ⟨0, .i3cDevice, 1, 0x10⟩ got,
        .remove ⟨0, .i3cDevice, 1, 0x10⟩ true] = some s ∧
      s.list = [] ∧ s.statusOf 0 0x10 = .reserved ∧ i3cCheckReservedAddr 0x10 = false ∧
      (i3cDeviceAdd ⟨0, .i3cDevice, 1, 0x10⟩ got s).1 = .invalidObject) ∧
    (∃ s, runs step added [.add ⟨0, .i3cDevice, 1, 0x10⟩ got] = some s ∧
      (i3cDeviceAdd ⟨0, .i3cDevice, 1, 0x11⟩ got s).1 = .io ∧ s.statusOf 0 0x11 = .free ∧
      (i3cDeviceAdd ⟨0, .i3cDevice, 1, 0x11⟩ got s).2.statusOf 0 0x11 = .reserved) ∧
    ∃ s, runs step added [.add ⟨0, .i3cDevice, 1, 0x10⟩ ⟨false, true, true, true⟩] = some s ∧
      s.list = [⟨0, .i3cDevice, 1, 0x10⟩] ∧ s.statusOf 0 0x10 = .free ∧
      s.statusOf 0 0x03 = .i3cDevice ∧ s.held 0 = 1 :=
  ⟨⟨_, rfl, rfl, by decide, by decide, by decide⟩, ⟨_, rfl, by decide, by decide, by decide⟩,
    _, rfl, rfl, by decide, by decide, rfl⟩

end Hdf.Platform.I3c
