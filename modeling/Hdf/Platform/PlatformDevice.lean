import Hdf.Lib.Ring
import Hdf.Lib.Runs
import Hdf.Utils.CString
import Mathlib.Data.Int.Notation
import Mathlib.Data.List.Perm.Subperm

/-!
# Platform devices

A manager links its devices in a list, each with a reference that the manager holds.
Devices are found by number or by name, and every search gives out a reference. Adding
a device initialises it before the manager looks whether it may be added. Deleting one
takes it out of the list and then waits until the last reference has been put.

Names are strings at an address. Some devices and any number of managers share the
nodes of the lists. A search that never ends has no result.

## Main definitions

* `State`, `step`: the managers, their devices, and the calls
* `Registry`: the lists link what has been added, and what a failed call leaves alone
* `Orderly`: the calls that keep it so

## Main results

* `registry_of_runs`: the registry is in order after orderly calls
* `breaks_registry`: a device is added twice, two names are equal, a reference is put twice
-/

namespace Hdf.Platform.Registry

open Hdf.Ring

/-- What is linked in a list: the head in a manager, or a device. -/
inductive Node where
  | manager (m : ℕ)
  | device (d : ℕ)
  deriving DecidableEq, Repr

/-- `struct PlatformDevice`: `name` is an address, `dead` the bit `PLAT_EVENT_DEVICE_DEAD` of the
event, and `live` tells that the event, the semaphore and the lock have been initialised. -/
structure PlatformDevice where
  manager : Option ℕ
  number : Int32
  name : Option ℕ
  refs : ℤ
  dead : Bool
  live : Bool
  deriving DecidableEq

/-- The device objects, of which there are `size`, the strings, and the nodes of the lists. Of the
past there are the devices that have been added to a manager and not deleted, the deletions
that wait, and the references that searches have given out. -/
structure State where
  size : ℕ
  strings : ℕ → CString
  links : Links Node
  devices : ℕ → PlatformDevice
  added : ℕ → List ℕ
  dels : List ℕ
  lent : ℕ → ℕ

/-- What the functions return. -/
inductive Status where
  | success | initFailed | objRepeat | idRepeat | nameRepeat | noDev | invalidParam
  deriving DecidableEq, Repr

/-- The managers and devices before any call: no device has been initialised. -/
def created (size : ℕ) (strings : ℕ → CString) (number : ℕ → Int32) (name : ℕ → Option ℕ)
    (manager : ℕ → Option ℕ) : State where
  size := size
  strings := strings
  links :=
    { next := fun node => match node with
        | .manager m => some (.manager m)
        | .device _ => none
      prev := fun node => match node with
        | .manager m => some (.manager m)
        | .device _ => none }
  devices d := ⟨manager d, number d, name d, 0, false, false⟩
  added _ := []
  dels := []
  lent _ := 0

/-- Changes a device. -/
def State.modify (s : State) (d : ℕ) (change : PlatformDevice → PlatformDevice) : State :=
  { s with devices := Function.update s.devices d (change (s.devices d)) }

/-- The manager of a device, or the default one. -/
def State.managerOf (s : State) (d : ℕ) : ℕ := (s.devices d).manager.getD 0

/-- The device of a node. -/
def Node.device? : Node → Option ℕ
  | .manager _ => none
  | .device d => some d

/-- A search in the list of a manager. -/
def State.search (s : State) (m : ℕ) (stop : ℕ → Bool) : Option (Option ℕ) :=
  (s.links.find (.manager m) (fun pos => pos.device?.any stop) (s.size + 1)
    (s.links.next (.manager m))).map fun found => found.bind Node.device?

/-- `PlatformDeviceGet`. -/
def platformDeviceGet (d : ℕ) (s : State) : State :=
  s.modify d fun device => { device with refs := device.refs + 1 }

/-- `PlatformDevicePut`, with `PlatformDeviceOnLastPut`. -/
def platformDevicePut (d : ℕ) (s : State) : State :=
  s.modify d fun device => { device with
    refs := device.refs - 1
    dead := device.dead || device.refs - 1 = 0 }

/-- `PlatformDeviceInit`, if nothing fails. -/
def platformDeviceInit (d : ℕ) (s : State) : State :=
  { s.modify d fun device => { device with refs := 0, dead := false, live := true } with
    links := s.links.init (.device d) }

/-- `PlatformDeviceUninit`. -/
def platformDeviceUninit (d : ℕ) (s : State) : State :=
  s.modify d fun device => { device with live := false }

/-- A device stands in the way of another one. Names are compared by their addresses. -/
def State.clashes (s : State) (d tmp : ℕ) : Bool :=
  (s.devices d).number = (s.devices tmp).number ||
    (s.devices d).name.isSome && (s.devices d).name = (s.devices tmp).name

/-- `PlatformManagerAddDeviceDefault`. -/
def platformManagerAddDeviceDefault (m d : ℕ) (s : State) : Option (Status × State) :=
  match s.search m (s.clashes d) with
  | none => none
  | some (some tmp) =>
    some (if (s.devices d).number = (s.devices tmp).number then .idRepeat else .nameRepeat, s)
  | some none => (s.links.insertTail (.device d) (.manager m)).map fun links =>
    (.success, { s with links := links })

/-- `PlatformManagerAddDevice`. -/
def platformManagerAddDevice (m d : ℕ) (s : State) : Option (Status × State) :=
  let s := platformDeviceGet d s
  match s.search m (· = d) with
  | none => none
  | some (some _) => some (.objRepeat, platformDevicePut d s)
  | some none => (platformManagerAddDeviceDefault m d s).map fun (ret, s) =>
    if ret = .success then (ret, s) else (ret, platformDevicePut d s)

/-- A device has been added to a manager. -/
def State.enter (s : State) (m d : ℕ) : State :=
  { s.modify d fun device => { device with manager := some m } with
    added := Function.update s.added m (s.added m ++ [d]) }

/-- `PlatformDeviceAdd`, whose initialisation may fail. -/
def platformDeviceAdd (d : ℕ) (initialises : Bool) (s : State) : Option (Status × State) :=
  let m := s.managerOf d
  if initialises then
    (platformManagerAddDevice m d (platformDeviceInit d s)).map fun (ret, s) =>
      if ret = .success then (ret, s.enter m d) else (ret, platformDeviceUninit d s)
  else some (.initFailed, platformDeviceUninit d s)

/-- `PlatformManagerDelDevice`, with `PlatformManagerDelDeviceDefault`. -/
def platformManagerDelDevice (m d : ℕ) (s : State) : Option (Status × State) :=
  match s.search m (· = d) with
  | none => none
  | some none => some (.noDev, s)
  | some (some _) =>
    if s.links.next (.device d) = some (.device d) then some (.invalidParam, s)
    else (s.links.remove (.device d)).map fun links =>
      (.success, platformDevicePut d { s with links := links })

/-- A device has been taken out of the list of a manager, and its deletion waits. -/
def State.leave (s : State) (m d : ℕ) : State :=
  { s with
    added := Function.update s.added m ((s.added m).erase d)
    dels := s.dels ++ [d] }

/-- `PlatformDeviceDel` up to the wait. -/
def platformDeviceDel (d : ℕ) (s : State) : Option State :=
  let m := s.managerOf d
  (platformManagerDelDevice m d s).map fun (ret, s) =>
    if ret = .success then s.leave m d else s

/-- `PlatformDeviceDel` when its wait is over. -/
def finish (d : ℕ) (s : State) : Option State :=
  if d ∈ s.dels ∧ (s.devices d).dead then
    let s := s.modify d fun device => { device with dead := false, live := false }
    some { s with dels := s.dels.erase d }
  else none

/-- `PlatformManagerFindDevice`. -/
def platformManagerFindDevice (m : ℕ) (isMatch : PlatformDevice → Bool) (s : State) :
    Option State :=
  (s.search m fun d => isMatch (s.devices d)).map fun found =>
    match found with
    | none => s
    | some d => { platformDeviceGet d s with
        lent := Function.update s.lent d (s.lent d + 1) }

/-- `PlatformDeviceMatchByNumber`. -/
def platformDeviceMatchByNumber (number : UInt32) (device : PlatformDevice) : Bool :=
  device.number.toUInt32 = number

/-- `PlatformDeviceMatchByName`. -/
def platformDeviceMatchByName (strings : ℕ → CString) (name : CString) (device : PlatformDevice) :
    Bool :=
  device.name.any fun name' => strings name' = name

/-- A reference is given back. -/
def put (d : ℕ) (s : State) : State :=
  { platformDevicePut d s with lent := Function.update s.lent d (s.lent d - 1) }

/-- The calls, and the end of a deletion. -/
inductive Action where
  | add (d : ℕ) (initialises : Bool)
  | del (d : ℕ)
  | finish (d : ℕ)
  | getByNumber (m : ℕ) (number : UInt32)
  | getByName (m : ℕ) (name : CString)
  | put (d : ℕ)
  deriving DecidableEq

/-- The device that a call is about. -/
def Action.target : Action → Option ℕ
  | .add d _ | .del d | .finish d | .put d => some d
  | .getByNumber _ _ | .getByName _ _ => none

/-- One call. -/
def step (action : Action) (s : State) : Option State :=
  if ∀ d ∈ action.target, d < s.size then
    match action with
    | .add d initialises => (platformDeviceAdd d initialises s).map Prod.snd
    | .del d => platformDeviceDel d s
    | .finish d => finish d s
    | .getByNumber m number => platformManagerFindDevice m (platformDeviceMatchByNumber number) s
    | .getByName m name =>
      platformManagerFindDevice m (platformDeviceMatchByName s.strings name) s
    | .put d => some (put d s)
  else none

/-- The name of a device. -/
def State.nameOf (s : State) (d : ℕ) : Option CString := (s.devices d).name.map s.strings

/-- Two devices do not have the same name. -/
def State.NamesDiffer (s : State) (d tmp : ℕ) : Prop := ∀ name ∈ s.nameOf d, name ∉ s.nameOf tmp

/-- The calls that keep the registry in order: a device is added while it is neither in the list
nor being deleted, and if its number and the address of its name are new, then so is its name;
and a reference is put that a search has given out. -/
def Orderly (action : Action) (s : State) : Prop :=
  match action with
  | .add d initialises => d ∉ s.added (s.managerOf d) ∧ d ∉ s.dels ∧
      (initialises → (∀ tmp ∈ s.added (s.managerOf d), s.clashes d tmp = false) →
        ∀ tmp ∈ s.added (s.managerOf d), s.NamesDiffer d tmp)
  | .put d => 0 < s.lent d
  | .del _ | .finish _ | .getByNumber _ _ | .getByName _ _ => True

instance (s : State) (d tmp : ℕ) : Decidable (s.NamesDiffer d tmp) :=
  inferInstanceAs (Decidable (∀ name ∈ s.nameOf d, name ∉ s.nameOf tmp))

instance (action : Action) (s : State) : Decidable (Orderly action s) :=
  match action with
  | .add d initialises => inferInstanceAs (Decidable (d ∉ s.added (s.managerOf d) ∧ d ∉ s.dels ∧
      (initialises → (∀ tmp ∈ s.added (s.managerOf d), s.clashes d tmp = false) →
        ∀ tmp ∈ s.added (s.managerOf d), s.NamesDiffer d tmp)))
  | .put d => inferInstanceAs (Decidable (0 < s.lent d))
  | .del _ | .finish _ | .getByNumber _ _ | .getByName _ _ => .isTrue trivial

/-- Two states differ in one device only. -/
structure Private (d : ℕ) (s t : State) : Prop where
  size : t.size = s.size
  strings : t.strings = s.strings
  next : ∀ node ≠ .device d, t.links.next node = s.links.next node
  prev : ∀ node ≠ .device d, t.links.prev node = s.links.prev node
  devices : ∀ other ≠ d, t.devices other = s.devices other
  added : t.added = s.added
  dels : t.dels = s.dels
  lent : t.lent = s.lent

/-- The lists link the devices that have been added and not deleted, once each, with different
numbers and names; a device that is not added leaves all listed devices as they are; a
deletion is over only when there is no reference; and all calls but the end of a deletion
return. -/
structure InOrder (s : State) : Prop where
  linked : ∀ m, IsRing s.links (.manager m) ((s.added m).map .device)
  numbers : ∀ m, (s.added m).Pairwise fun a b => (s.devices a).number ≠ (s.devices b).number
  names : ∀ m, (s.added m).Pairwise s.NamesDiffer
  failed : ∀ d initialises ret t, d < s.size → Orderly (.add d initialises) s →
    platformDeviceAdd d initialises s = some (ret, t) → ret ≠ .success →
      Private d s t ∧ ∀ m, d ∉ s.added m
  finished : ∀ d t, finish d s = some t → (s.devices d).refs = 0
  returns : ∀ action, Orderly action s → (∀ d, action ≠ .finish d) →
    (∀ d ∈ action.target, d < s.size) → ∃ t, step action s = some t

/-! ### What the calls keep -/

/-- What every orderly call keeps. A device in a list has one reference more than the searches
have given out, and one that is being deleted as many; a dead one has none. -/
structure Kept (s : State) : Prop where
  linked : ∀ m, IsRing s.links (.manager m) ((s.added m).map .device)
  member : ∀ m, ∀ d ∈ s.added m, d < s.size ∧ (s.devices d).manager = some m
  numbers : ∀ m, (s.added m).Pairwise fun a b => (s.devices a).number ≠ (s.devices b).number
  names : ∀ m, (s.added m).Pairwise s.NamesDiffer
  held : ∀ m, ∀ d ∈ s.added m,
    d ∉ s.dels ∧ (s.devices d).refs = s.lent d + 1 ∧ (s.devices d).dead = false
  dying : ∀ d ∈ s.dels,
    (s.devices d).refs = s.lent d ∧ ((s.devices d).dead = true → s.lent d = 0)
  free : ∀ d, (∀ m, d ∉ s.added m) → d ∉ s.dels → s.lent d = 0

variable {s t u : State} {m d : ℕ} {change : PlatformDevice → PlatformDevice}

theorem kept_created (size : ℕ) (strings : ℕ → CString) (number : ℕ → Int32)
    (name : ℕ → Option ℕ) (manager : ℕ → Option ℕ) :
    Kept (created size strings number name manager) where
  linked _ := ⟨List.nodup_singleton _, rfl, rfl⟩
  member _ _ member := absurd member List.not_mem_nil
  numbers _ := .nil
  names _ := .nil
  held _ _ member := absurd member List.not_mem_nil
  dying _ member := absurd member List.not_mem_nil
  free _ _ _ := rfl

theorem Kept.nodup (kept : Kept s) (m : ℕ) : (s.added m).Nodup :=
  (List.nodup_cons.mp (kept.linked m).nodup).2.of_map _

theorem Kept.length_le (kept : Kept s) (m : ℕ) : (s.added m).length ≤ s.size := by
  have inside : s.added m ⊆ List.range s.size := fun d member =>
    List.mem_range.mpr (kept.member m d member).1
  have short := ((kept.nodup m).subperm inside).length_le
  rwa [List.length_range] at short

/-- A search ends, and finds the first device. -/
theorem Kept.search (kept : Kept s) (m : ℕ) (stop : ℕ → Bool) :
    s.search m stop = some ((s.added m).find? stop) := by
  have enough : ((s.added m).map Node.device).length < s.size + 1 := by
    rw [List.length_map]
    exact Nat.lt_succ_of_le (kept.length_le m)
  rw [State.search, (kept.linked m).find _ enough, List.find?_map, Option.map_some]
  have same : (fun pos : Node => pos.device?.any stop) ∘ Node.device = stop := rfl
  rw [same]
  cases (s.added m).find? stop with
  | none | some d => rfl

theorem Kept.managerOf (kept : Kept s) (member : d ∈ s.added m) : s.managerOf d = m := by
  rw [State.managerOf, (kept.member m d member).2, Option.getD_some]

theorem Kept.unlisted (kept : Kept s) (outside : d ∉ s.added (s.managerOf d)) (m : ℕ) :
    d ∉ s.added m := by
  intro member
  rw [kept.managerOf member] at outside
  exact outside member

/-- The lists of two managers have no node in common. -/
theorem Kept.apart (kept : Kept s) {m' : ℕ} (differs : m' ≠ m) :
    ∀ node ∈ .manager m' :: (s.added m').map Node.device,
      node ∉ .manager m :: (s.added m).map Node.device := by
  intro node member
  rcases List.mem_cons.mp member with rfl | member
  · simpa using differs
  · obtain ⟨x, here, rfl⟩ := List.mem_map.mp member
    intro other
    have there : x ∈ s.added m := by simpa using other
    exact differs (Option.some.inj
      ((kept.member m' x here).2.symm.trans (kept.member m x there).2))

theorem Kept.not_mem_nodes (unlisted : ∀ m, d ∉ s.added m) (m : ℕ) :
    Node.device d ∉ .manager m :: (s.added m).map Node.device := by
  simpa using unlisted m

/-! ### One device only -/

theorem Private.trans (first : Private d s t) (second : Private d t u) : Private d s u where
  size := second.size.trans first.size
  strings := second.strings.trans first.strings
  next node differs := (second.next node differs).trans (first.next node differs)
  prev node differs := (second.prev node differs).trans (first.prev node differs)
  devices other differs := (second.devices other differs).trans (first.devices other differs)
  added := second.added.trans first.added
  dels := second.dels.trans first.dels
  lent := second.lent.trans first.lent

theorem private_modify (s : State) (d : ℕ) (change : PlatformDevice → PlatformDevice) :
    Private d s (s.modify d change) where
  size := rfl
  strings := rfl
  next _ _ := rfl
  prev _ _ := rfl
  devices _ differs := Function.update_of_ne differs _ _
  added := rfl
  dels := rfl
  lent := rfl

theorem private_platformDeviceInit (d : ℕ) (s : State) : Private d s (platformDeviceInit d s) where
  size := rfl
  strings := rfl
  next _ differs := Function.update_of_ne differs _ _
  prev _ differs := Function.update_of_ne differs _ _
  devices _ differs := Function.update_of_ne differs _ _
  added := rfl
  dels := rfl
  lent := rfl

/-- A device that is not in a list and not being deleted may change. -/
theorem Kept.of_private (kept : Kept s) (unlisted : ∀ m, d ∉ s.added m) (idle : d ∉ s.dels)
    (only : Private d s t) : Kept t := by
  have listed {m x : ℕ} (member : x ∈ s.added m) : t.devices x = s.devices x :=
    only.devices x fun same => unlisted m (same ▸ member)
  have names {x y : ℕ} {m : ℕ} (memberX : x ∈ s.added m) (memberY : y ∈ s.added m)
      (differ : s.NamesDiffer x y) : t.NamesDiffer x y := by
    rw [State.NamesDiffer, State.nameOf, State.nameOf, only.strings, listed memberX,
      listed memberY]
    exact differ
  refine ⟨fun m => ?_, ?_, fun m => ?_, fun m => ?_, ?_, ?_, ?_⟩
  · rw [only.added]
    refine (kept.linked m).congr (fun node member => only.next node ?_)
      fun node member => only.prev node ?_
    all_goals exact fun same => Kept.not_mem_nodes unlisted m (same ▸ member)
  · rw [only.added, only.size]
    intro m x member
    rw [listed member]
    exact kept.member m x member
  · rw [only.added]
    refine (kept.numbers m).imp_of_mem fun memberX memberY differ => ?_
    rwa [listed memberX, listed memberY]
  · rw [only.added]
    exact (kept.names m).imp_of_mem names
  · rw [only.added, only.dels, only.lent]
    intro m x member
    rw [listed member]
    exact kept.held m x member
  · rw [only.dels, only.lent]
    intro x member
    rw [only.devices x fun same => idle (same ▸ member)]
    exact kept.dying x member
  · rw [only.added, only.dels, only.lent]
    exact kept.free

/-! ### Adding -/

/-- A device that is linked at the end of a list has been added. -/
theorem Kept.enter (kept : Kept s) (inside : d < s.size) (unlisted : ∀ m, d ∉ s.added m)
    (idle : d ∉ s.dels) (refs : (s.devices d).refs = 1) (alive : (s.devices d).dead = false)
    (numbers : ∀ tmp ∈ s.added m, (s.devices d).number ≠ (s.devices tmp).number)
    (names : ∀ tmp ∈ s.added m, s.NamesDiffer d tmp) {links : Links Node}
    (ring : IsRing links (.manager m) ((s.added m).map .device ++ [.device d]))
    (frame : ∀ node ∉ .manager m :: (s.added m).map Node.device, node ≠ .device d →
      links.next node = s.links.next node ∧ links.prev node = s.links.prev node) :
    Kept ({ s with links := links }.enter m d) := by
  have number (x : ℕ) :
      (({ s with links := links }.enter m d).devices x).number = (s.devices x).number := by
    rcases eq_or_ne x d with rfl | differs
    · simp [State.enter, State.modify]
    · simp [State.enter, State.modify, differs]
  have nameOf (x : ℕ) : ({ s with links := links }.enter m d).nameOf x = s.nameOf x := by
    rcases eq_or_ne x d with rfl | differs
    · simp [State.enter, State.modify, State.nameOf]
    · simp [State.enter, State.modify, State.nameOf, differs]
  have other {x : ℕ} (differs : x ≠ d) :
      ({ s with links := links }.enter m d).devices x = s.devices x :=
    Function.update_of_ne differs _ _
  have itself : ({ s with links := links }.enter m d).devices d =
      { s.devices d with manager := some m } := Function.update_self ..
  have here : ({ s with links := links }.enter m d).added m = s.added m ++ [d] :=
    Function.update_self ..
  have there {m' : ℕ} (differs : m' ≠ m) :
      ({ s with links := links }.enter m d).added m' = s.added m' :=
    Function.update_of_ne differs _ _
  have cases {m' x : ℕ} (member : x ∈ ({ s with links := links }.enter m d).added m') :
      x ∈ s.added m' ∧ x ≠ d ∨ m' = m ∧ x = d := by
    rcases eq_or_ne m' m with rfl | differs
    · rw [here] at member
      rcases List.mem_append.mp member with old | new
      · exact .inl ⟨old, fun same => unlisted m' (same ▸ old)⟩
      · exact .inr ⟨rfl, List.mem_singleton.mp new⟩
    · rw [there differs] at member
      exact .inl ⟨member, fun same => unlisted m' (same ▸ member)⟩
  have pairwise {R : ℕ → ℕ → Prop} (old : ∀ m, (s.added m).Pairwise R)
      (new : ∀ tmp ∈ s.added m, R tmp d) (m' : ℕ) :
      (({ s with links := links }.enter m d).added m').Pairwise R := by
    rcases eq_or_ne m' m with rfl | differs
    · rw [here]
      refine List.pairwise_append.mpr ⟨old m', List.pairwise_singleton _ _, ?_⟩
      intro tmp member x last
      rw [List.mem_singleton.mp last]
      exact new tmp member
    · rw [there differs]
      exact old m'
  refine ⟨fun m' => ?_, ?_, fun m' => ?_, fun m' => ?_, ?_, ?_, ?_⟩
  · rcases eq_or_ne m' m with rfl | differs
    · rw [here, List.map_append]
      exact ring
    · rw [there differs]
      have untouched (node : Node) (member : node ∈ .manager m' :: (s.added m').map Node.device) :=
        frame node (kept.apart differs node member)
          fun same => Kept.not_mem_nodes unlisted m' (same ▸ member)
      exact (kept.linked m').congr (fun node member => (untouched node member).1)
        fun node member => (untouched node member).2
  · intro m' x member
    rcases cases member with ⟨old, differs⟩ | ⟨rfl, rfl⟩
    · rw [other differs]
      exact kept.member m' x old
    · rw [itself]
      exact ⟨inside, rfl⟩
  · simp only [number]
    exact pairwise kept.numbers (fun tmp member same => numbers tmp member same.symm) m'
  · refine (pairwise kept.names (fun tmp member name => ?_) m').imp fun differ => ?_
    · exact fun first second => names tmp member name second first
    · rwa [State.NamesDiffer, nameOf, nameOf]
  · intro m' x member
    rcases cases member with ⟨old, differs⟩ | ⟨rfl, rfl⟩
    · rw [other differs]
      exact kept.held m' x old
    · rw [itself]
      refine ⟨idle, ?_, alive⟩
      have nobody : s.lent x = 0 := kept.free x unlisted idle
      show (s.devices x).refs = s.lent x + 1
      rw [refs, nobody]
      rfl
  · intro x member
    rw [other fun same => idle (same ▸ member)]
    exact kept.dying x member
  · intro x outside quiet
    refine kept.free x (fun m' member => ?_) quiet
    rcases eq_or_ne m' m with rfl | differs
    · exact outside m' (by rw [here]; exact List.mem_append_left _ member)
    · exact outside m' (by rwa [there differs])

/-- A manager links a device at the end of its list, or there is one in the way. -/
theorem Kept.platformManagerAddDeviceDefault (kept : Kept s) (unlisted : ∀ m, d ∉ s.added m)
    (m : ℕ) : (∃ ret, ret ≠ .success ∧ platformManagerAddDeviceDefault m d s = some (ret, s)) ∨
      ∃ links, platformManagerAddDeviceDefault m d s =
          some (.success, { s with links := links }) ∧
        (∀ tmp ∈ s.added m, s.clashes d tmp = false) ∧
        IsRing links (.manager m) ((s.added m).map .device ++ [.device d]) ∧
        ∀ node ∉ .manager m :: (s.added m).map Node.device, node ≠ .device d →
          links.next node = s.links.next node ∧ links.prev node = s.links.prev node := by
  rw [Registry.platformManagerAddDeviceDefault, kept.search]
  cases found : (s.added m).find? (s.clashes d) with
  | some tmp =>
    refine .inl ⟨_, ?_, rfl⟩
    split
    · decide
    · decide
  | none =>
    obtain ⟨links, inserted, ring, frame⟩ :=
      (kept.linked m).insertTail (Kept.not_mem_nodes unlisted m)
    refine .inr ⟨links, ?_, fun tmp member => ?_, ring, frame⟩
    · dsimp only
      rw [inserted]
      rfl
    · exact Bool.eq_false_iff.mpr (List.find?_eq_none.mp found tmp member)

/-- The device whose place is looked for has been initialised and has one reference. -/
theorem platformDeviceGet_platformDeviceInit (d : ℕ) (s : State) :
    (platformDeviceGet d (platformDeviceInit d s)).devices d =
      { s.devices d with refs := 1, dead := false, live := true } := by
  simp [platformDeviceGet, platformDeviceInit, State.modify]

/-- What adding a device does. -/
theorem Kept.add (kept : Kept s) {initialises : Bool} (inside : d < s.size)
    (orderly : Orderly (.add d initialises) s) : ∃ ret t,
      platformDeviceAdd d initialises s = some (ret, t) ∧ Kept t ∧
        (ret ≠ .success → Private d s t) := by
  obtain ⟨outside, idle, differ⟩ := orderly
  have unlisted := kept.unlisted outside
  cases initialises with
  | false =>
    have only : Private d s (platformDeviceUninit d s) := private_modify ..
    exact ⟨_, _, rfl, kept.of_private unlisted idle only, fun _ => only⟩
  | true =>
    have only : Private d s (platformDeviceGet d (platformDeviceInit d s)) :=
      (private_platformDeviceInit d s).trans (private_modify ..)
    have itself := platformDeviceGet_platformDeviceInit d s
    rw [platformDeviceAdd, if_pos rfl, platformManagerAddDevice]
    dsimp only
    -- the device as it is searched for
    generalize platformDeviceGet d (platformDeviceInit d s) = s' at only itself
    generalize s.managerOf d = m at differ
    have kept' := kept.of_private unlisted idle only
    have unlisted' : ∀ m, d ∉ s'.added m := by rwa [only.added]
    have idle' : d ∉ s'.dels := by rwa [only.dels]
    have absent : (s'.added m).find? (· = d) = none :=
      List.find?_eq_none.mpr fun x member same => unlisted' m (of_decide_eq_true same ▸ member)
    rw [kept'.search, absent]
    rcases kept'.platformManagerAddDeviceDefault unlisted' m with
      ⟨ret, fail, result⟩ | ⟨links, result, clear, ring, frame⟩
    · have only' : Private d s (platformDeviceUninit d (platformDevicePut d s')) :=
        (only.trans (private_modify ..)).trans (private_modify ..)
      refine ⟨ret, platformDeviceUninit d (platformDevicePut d s'), ?_,
        kept.of_private unlisted idle only', fun _ => only'⟩
      dsimp only
      rw [result]
      simp only [Option.map_some, if_neg fail]
    · have old {tmp : ℕ} (member : tmp ∈ s'.added m) : s'.devices tmp = s.devices tmp :=
        only.devices tmp fun same => unlisted' m (same ▸ member)
      refine ⟨.success, { s' with links := links }.enter m d, ?_, ?_, fun no => absurd rfl no⟩
      · dsimp only
        rw [result]
        rfl
      · refine kept'.enter (by rwa [only.size]) unlisted' idle' (by rw [itself]) (by rw [itself])
          ?_ ?_ ring frame
        · intro tmp member same
          have no := clear tmp member
          rw [State.clashes, decide_eq_true same, Bool.true_or] at no
          cases no
        · have names (x : ℕ) : s'.nameOf x = s.nameOf x := by
            rw [State.nameOf, State.nameOf, only.strings]
            rcases eq_or_ne x d with rfl | differs
            · rw [itself]
            · rw [only.devices x differs]
          intro tmp member
          rw [State.NamesDiffer, names, names]
          rw [only.added] at member clear
          refine differ rfl (fun other listed => ?_) tmp member
          have no := clear other listed
          rwa [State.clashes, itself, only.devices other
            fun same => unlisted m (same ▸ listed)] at no

/-! ### Deleting -/

/-- A device that is taken out of a list is being deleted. -/
theorem Kept.leave (kept : Kept s) {l l' : List ℕ} (split : s.added m = l ++ d :: l')
    {links : Links Node}
    (ring : IsRing links (.manager m) (l.map .device ++ l'.map .device))
    (frame : ∀ node ∉ .manager m :: (s.added m).map Node.device,
      links.next node = s.links.next node ∧ links.prev node = s.links.prev node) :
    Kept ((platformDevicePut d { s with links := links }).leave m d) := by
  have listed : d ∈ s.added m := split ▸ List.mem_append_right _ List.mem_cons_self
  have held := kept.held m d listed
  generalize eq : (platformDevicePut d { s with links := links }).leave m d = t
  have size : t.size = s.size := by rw [← eq]; rfl
  have lent : t.lent = s.lent := by rw [← eq]; rfl
  have dels : t.dels = s.dels ++ [d] := by rw [← eq]; rfl
  have links' : t.links = links := by rw [← eq]; rfl
  have other {x : ℕ} (differs : x ≠ d) : t.devices x = s.devices x := by
    rw [← eq]
    exact Function.update_of_ne differs _ _
  have itself : t.devices d = { s.devices d with
      refs := (s.devices d).refs - 1
      dead := (s.devices d).dead || decide ((s.devices d).refs - 1 = 0) } := by
    rw [← eq]
    exact Function.update_self ..
  have there {m' : ℕ} (differs : m' ≠ m) : t.added m' = s.added m' := by
    rw [← eq]
    exact Function.update_of_ne differs _ _
  have distinct := List.nodup_append.mp (split ▸ kept.nodup m)
  have here : t.added m = l ++ l' := by
    have first : d ∉ l := fun member => distinct.2.2 d member d List.mem_cons_self rfl
    have erased : t.added m = (s.added m).erase d := by
      rw [← eq]
      exact Function.update_self ..
    rw [erased, split, List.erase_append_right _ first, List.erase_cons_head]
  have sublist (m' : ℕ) : (t.added m').Sublist (s.added m') := by
    rcases eq_or_ne m' m with rfl | differs
    · rw [here, split]
      exact (List.sublist_cons_self _ _).append_left _
    · rw [there differs]
  have gone (m' : ℕ) : d ∉ t.added m' := by
    intro member
    obtain rfl : m' = m :=
      Option.some.inj ((kept.member m' d ((sublist m').subset member)).2.symm.trans
      (kept.member m d listed).2)
    rw [here] at member
    rcases List.mem_append.mp member with first | second
    · exact distinct.2.2 d first d List.mem_cons_self rfl
    · exact (List.nodup_cons.mp distinct.2.1).1 second
  have old {m' x : ℕ} (member : x ∈ t.added m') : t.devices x = s.devices x :=
    other fun same => gone m' (same ▸ member)
  refine ⟨fun m' => ?_, ?_, fun m' => ?_, fun m' => ?_, ?_, ?_, ?_⟩
  · rw [links']
    rcases eq_or_ne m' m with rfl | differs
    · rw [here, List.map_append]
      exact ring
    · rw [there differs]
      have untouched (node : Node) (member : node ∈ .manager m' :: (s.added m').map Node.device) :=
        frame node (kept.apart differs node member)
      exact (kept.linked m').congr (fun node member => (untouched node member).1)
        fun node member => (untouched node member).2
  · intro m' x member
    rw [old member, size]
    exact kept.member m' x ((sublist m').subset member)
  · refine ((kept.numbers m').sublist (sublist m')).imp_of_mem fun first second differ => ?_
    rwa [old first, old second]
  · refine ((kept.names m').sublist (sublist m')).imp_of_mem fun first second differ => ?_
    rw [State.NamesDiffer, State.nameOf, State.nameOf, old first, old second]
    rw [← eq]
    exact differ
  · intro m' x member
    obtain ⟨idle, refs, alive⟩ := kept.held m' x ((sublist m').subset member)
    rw [old member, dels, lent]
    refine ⟨fun dying => ?_, refs, alive⟩
    rcases List.mem_append.mp dying with before | last
    · exact idle before
    · exact gone m' (List.mem_singleton.mp last ▸ member)
  · rw [dels, lent]
    intro x member
    rcases eq_or_ne x d with rfl | differs
    · rw [itself, held.2.1, held.2.2]
      refine ⟨Int.add_sub_cancel _ _, fun dead => ?_⟩
      have zero : ((s.lent x : ℤ) + 1) - 1 = 0 := of_decide_eq_true dead
      omega
    · rw [other differs]
      rcases List.mem_append.mp member with before | last
      · exact kept.dying x before
      · exact absurd (List.mem_singleton.mp last) differs
  · rw [dels, lent]
    intro x outside quiet
    have differs : x ≠ d := by
      rintro rfl
      exact quiet (List.mem_append_right _ List.mem_cons_self)
    refine kept.free x (fun m' member => ?_) fun before => quiet (List.mem_append_left _ before)
    refine outside m' ?_
    rcases eq_or_ne m' m with rfl | apart
    · rw [split] at member
      rw [here]
      rcases List.mem_append.mp member with first | second
      · exact List.mem_append_left _ first
      · exact List.mem_append_right _ ((List.mem_cons.mp second).resolve_left differs)
    · rwa [there apart]

/-- Deleting a device ends up waiting, or finds nothing to delete. -/
theorem Kept.platformDeviceDel (kept : Kept s) (d : ℕ) :
    ∃ t, platformDeviceDel d s = some t ∧ Kept t := by
  rw [Registry.platformDeviceDel, platformManagerDelDevice, kept.search]
  generalize s.managerOf d = m
  cases found : (s.added m).find? (· = d) with
  | none => exact ⟨s, rfl, kept⟩
  | some x =>
    obtain rfl : x = d := of_decide_eq_true (List.find?_some (p := (· = d)) found)
    have listed := List.mem_of_find?_eq_some found
    obtain ⟨l, l', split⟩ := List.append_of_mem listed
    have ring := kept.linked m
    rw [split, List.map_append, List.map_cons] at ring
    obtain ⟨links, removed, ring', frame⟩ := ring.remove
    have linked : s.links.next (.device x) ≠ some (.device x) :=
      (kept.linked m).next_ne_self (List.mem_map_of_mem listed)
    refine ⟨(platformDevicePut x { s with links := links }).leave m x, ?_,
      kept.leave split ring' ?_⟩
    · dsimp only
      rw [if_neg linked, removed]
      rfl
    · rwa [split, List.map_append, List.map_cons]

/-! ### References -/

/-- The number of references changes. -/
theorem Kept.count (kept : Kept s) {device : PlatformDevice} {n : ℕ} {dels : List ℕ}
    (dying : ∀ x ∈ dels, x ∈ s.dels) (rest : ∀ x ∈ s.dels, x ≠ d → x ∈ dels)
    (manager : device.manager = (s.devices d).manager)
    (number : device.number = (s.devices d).number) (name : device.name = (s.devices d).name)
    (held : ∀ m, d ∈ s.added m → device.refs = n + 1 ∧ device.dead = false)
    (ending : d ∈ dels → device.refs = n ∧ (device.dead = true → n = 0))
    (free : (∀ m, d ∉ s.added m) → d ∉ dels → n = 0) :
    Kept { s with
      devices := Function.update s.devices d device
      dels := dels
      lent := Function.update s.lent d n } := by
  have same {β : Type} (field : PlatformDevice → β) (eq : field device = field (s.devices d))
      (x : ℕ) : field (Function.update s.devices d device x) = field (s.devices x) := by
    rcases eq_or_ne x d with rfl | differs
    · rw [Function.update_self, eq]
    · rw [Function.update_of_ne differs]
  refine ⟨kept.linked, ?_, fun m => ?_, fun m => ?_, ?_, ?_, ?_⟩
  · intro m x member
    refine ⟨(kept.member m x member).1, ?_⟩
    exact (same PlatformDevice.manager manager x).trans (kept.member m x member).2
  · refine (kept.numbers m).imp fun differ => ?_
    dsimp only
    rwa [same PlatformDevice.number number, same PlatformDevice.number number]
  · refine (kept.names m).imp fun differ => ?_
    rw [State.NamesDiffer, State.nameOf, State.nameOf]
    dsimp only
    rwa [same PlatformDevice.name name, same PlatformDevice.name name]
  · intro m x member
    refine ⟨fun listed => (kept.held m x member).1 (dying x listed), ?_⟩
    dsimp only
    rcases eq_or_ne x d with rfl | differs
    · rw [Function.update_self, Function.update_self]
      exact held m member
    · rw [Function.update_of_ne differs, Function.update_of_ne differs]
      exact (kept.held m x member).2
  · intro x member
    dsimp only
    rcases eq_or_ne x d with rfl | differs
    · rw [Function.update_self, Function.update_self]
      exact ending member
    · rw [Function.update_of_ne differs, Function.update_of_ne differs]
      exact kept.dying x (dying x member)
  · intro x outside quiet
    dsimp only
    rcases eq_or_ne x d with rfl | differs
    · rw [Function.update_self]
      exact free outside quiet
    · rw [Function.update_of_ne differs]
      exact kept.free x outside fun member => quiet (rest x member differs)

theorem Kept.finish (kept : Kept s) (stepped : finish d s = some t) :
    Kept t ∧ (s.devices d).refs = 0 := by
  rw [Registry.finish] at stepped
  split at stepped
  · rename_i done
    obtain ⟨waits, dead⟩ := done
    obtain ⟨refs, ends⟩ := kept.dying d waits
    have nobody := ends dead
    cases stepped
    have unlisted (m : ℕ) : d ∉ s.added m := fun member => (kept.held m d member).1 waits
    have kept' : Kept { s with
        devices := Function.update s.devices d { s.devices d with dead := false, live := false }
        dels := s.dels.erase d
        lent := Function.update s.lent d 0 } := kept.count
      (fun x member => List.mem_of_mem_erase member)
      (fun x member differs => (List.mem_erase_of_ne differs).mpr member) rfl rfl rfl
      (fun m member => absurd member (unlisted m))
      (fun _ => ⟨by rw [refs, nobody], fun _ => rfl⟩) (fun _ _ => rfl)
    rw [← nobody, Function.update_eq_self] at kept'
    exact ⟨kept', by rw [refs, nobody]; rfl⟩
  · cases stepped

theorem Kept.put (kept : Kept s) (orderly : 0 < s.lent d) : Kept (put d s) := by
  refine kept.count (fun _ member => member) (fun _ member _ => member) rfl rfl rfl ?_ ?_ ?_
  · intro m member
    obtain ⟨-, refs, alive⟩ := kept.held m d member
    dsimp only
    rw [refs, alive]
    have left : ((s.lent d : ℤ) + 1) - 1 ≠ 0 := by omega
    refine ⟨by omega, ?_⟩
    rw [Bool.false_or, decide_eq_false left]
  · intro member
    obtain ⟨refs, ends⟩ := kept.dying d member
    refine ⟨by dsimp only; omega, fun dead => ?_⟩
    dsimp only at dead
    rcases (Bool.or_eq_true _ _).mp dead with before | now
    · rw [ends before]
    · have zero := of_decide_eq_true now
      omega
  · intro unlisted idle
    rw [kept.free d unlisted idle]

/-- A search gives out a reference to a device in the list. -/
theorem Kept.platformManagerFindDevice (kept : Kept s) (m : ℕ)
    (isMatch : PlatformDevice → Bool) :
    ∃ t, platformManagerFindDevice m isMatch s = some t ∧ Kept t := by
  rw [Registry.platformManagerFindDevice, kept.search]
  cases found : (s.added m).find? fun d => isMatch (s.devices d) with
  | none => exact ⟨s, rfl, kept⟩
  | some d =>
    have listed := List.mem_of_find?_eq_some found
    obtain ⟨idle, refs, alive⟩ := kept.held m d listed
    refine ⟨_, rfl, kept.count (fun _ member => member) (fun _ member _ => member) rfl rfl rfl
      ?_ (fun member => absurd member idle) fun outside => absurd listed (outside m)⟩
    intro _ _
    exact ⟨by dsimp only; omega, alive⟩

/-! ### Runs -/

/-- Orderly calls return, unless they wait, and keep the registry. -/
theorem Kept.returns (kept : Kept s) {action : Action} (orderly : Orderly action s)
    (differs : ∀ d, action ≠ .finish d) (inside : ∀ d ∈ action.target, d < s.size) :
    ∃ t, Registry.step action s = some t ∧ Kept t := by
  rw [Registry.step.eq_def, if_pos inside]
  cases action with
  | add d initialises =>
    obtain ⟨ret, t, result, kept', -⟩ := kept.add (inside d rfl) orderly
    exact ⟨t, by dsimp only; rw [result]; rfl, kept'⟩
  | del d => exact kept.platformDeviceDel d
  | finish d => exact absurd rfl (differs d)
  | getByNumber m number | getByName m name => exact kept.platformManagerFindDevice m _
  | put d => exact ⟨_, rfl, kept.put orderly⟩

/-- What a call keeps. -/
theorem Kept.step (kept : Kept s) {action : Action} (orderly : Orderly action s)
    (stepped : Registry.step action s = some t) : Kept t := by
  have inside : ∀ d ∈ action.target, d < s.size := by
    by_contra outside
    rw [Registry.step.eq_def, if_neg outside] at stepped
    cases stepped
  have other (differs : ∀ d, action ≠ .finish d) : Kept t := by
    obtain ⟨t', stepped', kept'⟩ := kept.returns orderly differs inside
    obtain rfl := Option.some.inj (stepped.symm.trans stepped')
    exact kept'
  cases action with
  | finish d =>
    rw [Registry.step.eq_def, if_pos inside] at stepped
    exact (kept.finish stepped).1
  | add | del | getByNumber | getByName | put => exact other fun _ => nofun

theorem Kept.inOrder (kept : Kept s) : InOrder s where
  linked := kept.linked
  numbers := kept.numbers
  names := kept.names
  failed d initialises ret t inside orderly result fail := by
    obtain ⟨ret', t', result', -, only⟩ := kept.add inside orderly
    obtain ⟨rfl, rfl⟩ := Prod.mk.inj (Option.some.inj (result'.symm.trans result))
    exact ⟨only fail, kept.unlisted orderly.1⟩
  finished d t stepped := (kept.finish stepped).2
  returns action orderly differs inside := by
    obtain ⟨t, stepped, -⟩ := kept.returns orderly differs inside
    exact ⟨t, stepped⟩

/-- The registry is in order after orderly calls. -/
theorem registry_of_runs {size : ℕ} {strings : ℕ → CString} {number : ℕ → Int32}
    {name manager : ℕ → Option ℕ} {actions : List Action}
    (orderly : Meets Registry.step Orderly (created size strings number name manager) actions)
    (ran : runs Registry.step (created size strings number name manager) actions = some s) :
    InOrder s :=
  (runs_invariant (fun _ _ _ kept orderly stepped => kept.step orderly stepped)
    (kept_created size strings number name manager) orderly ran).inOrder

/-! ### Some runs -/

/-- The strings at three addresses, two of which are equal. -/
def texts : ℕ → CString
  | 2 => .ofAscii "spi"
  | _ => .ofAscii "i2c"

/-- Three devices with their own numbers, for the default manager. -/
def threeDevices : State := created 3 texts (fun d => .ofNat d) some fun _ => none

/-- Two devices are added, found, deleted and put. -/
def orderlyRun : List Action :=
  [.add 1 true, .add 2 true, .getByNumber 0 1, .getByName 0 (.ofAscii "spi"), .del 1, .put 2,
    .put 1, .finish 1, .add 1 false]

theorem registry_orderlyRun : ∃ s, runs step threeDevices orderlyRun = some s ∧ InOrder s ∧
    s.added 0 = [2] ∧ (s.devices 2).refs = 1 ∧ (s.devices 1).refs = 0 :=
  ⟨_, rfl, @registry_of_runs _ 3 texts (fun d => .ofNat d) some (fun _ => none) orderlyRun
    (by decide +kernel) rfl, rfl, rfl, rfl⟩

/-- A device is added that is in the list: its links and references are reset, it is dead, and a
search in the list does not end. Two devices with equal names are added. And a deletion is over
while there is a reference, as another one has been put twice. -/
theorem breaks_registry :
    (∃ s t : State, runs step threeDevices [.add 1 true, .add 2 true] = some s ∧
      s.added 0 = [1, 2] ∧ platformDeviceAdd 1 true s = some (.objRepeat, t) ∧
      s.links.next (.device 1) = some (.device 2) ∧ t.links.next (.device 1) = some (.device 1) ∧
      (s.devices 1).refs = 1 ∧ (t.devices 1).refs = 0 ∧ (t.devices 1).live = false ∧
      step (.getByNumber 0 2) t = none) ∧
    (∃ s : State, runs step threeDevices [.add 0 true, .add 1 true] = some s ∧
      s.added 0 = [0, 1] ∧ ¬ s.NamesDiffer 0 1) ∧
    ∃ s t : State, runs step threeDevices [.add 1 true, .getByNumber 0 1, .put 1, .put 1,
        .getByNumber 0 1, .getByNumber 0 1, .del 1] = some s ∧
      finish 1 s = some t ∧ (s.devices 1).refs = 1 :=
  ⟨⟨_, _, rfl, rfl, rfl, rfl, rfl, rfl, rfl, rfl, rfl⟩, ⟨_, rfl, rfl, by decide⟩,
    _, _, rfl, rfl, rfl⟩

end Hdf.Platform.Registry
