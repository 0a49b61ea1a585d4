import Hdf.Core.Base
import Hdf.Utils.CString

/-!
# The drivers of the driver section

The linker collects pointers to driver entries in a section. When the framework
starts, a loop registers them with the driver manager, which finds a driver by its
module name afterwards. An entry that cannot be registered should be skipped, but
the pointer into the section is only advanced past entries that were registered, so
the loop spends its remaining rounds on that entry.

## Main results

* `entryLoop_eq`: the loop stops at the first invalid entry
* `registersAll_iff`: all valid entries are registered exactly when they stand in front
-/

namespace Hdf.Core.DriverEntries

/-- `struct HdfDriverEntry`, with the address at which it stands. -/
structure HdfDriverEntry where
  address : ℕ
  moduleName : Option CString
  deriving DecidableEq

/-- `struct HdfDriver`. -/
structure HdfDriver where
  entry : Option HdfDriverEntry
  deriving DecidableEq

/-! ### The driver manager -/

/-- `HdfRegisterDriverEntry`, given whether there is memory. -/
def hdfRegisterDriverEntry (alloc : Bool) (entry : Option HdfDriverEntry)
    (driverHead : List HdfDriver) : HdfStatus × List HdfDriver :=
  match entry with
  | none => (.invalidObject, driverHead)
  | some entry =>
    if entry.moduleName.isNone then (.invalidObject, driverHead)
    else if !alloc then (.noMemory, driverHead)
    else (.success, driverHead ++ [⟨some entry⟩])

/-- The module name of a driver, if it has an entry with one. -/
def HdfDriver.moduleName (driver : HdfDriver) : Option CString :=
  driver.entry.bind HdfDriverEntry.moduleName

/-- `HdfDriverManagerFoundDriver`. -/
def hdfDriverManagerFoundDriver (driverHead : List HdfDriver) (driverName : CString) :
    Option HdfDriver :=
  driverHead.find? fun driver => driver.moduleName = some driverName

/-- `HdfDriverManagerGetDriver`, given what `HdfSysEventSend` does to the drivers if there is
such a function. -/
def hdfDriverManagerGetDriver
    (hdfSysEventSend : Option (CString → List HdfDriver → HdfStatus × List HdfDriver))
    (driverHead : List HdfDriver) (driverName : Option CString) :
    Option HdfDriver × List HdfDriver :=
  match driverName with
  | none => (none, driverHead)
  | some driverName =>
    match hdfDriverManagerFoundDriver driverHead driverName with
    | some driver => (some driver, driverHead)
    | none =>
      match hdfSysEventSend with
      | none => (none, driverHead)
      | some send =>
        let (status, driverHead) := send driverName driverHead
        if status ≠ .success then (none, driverHead)
        else (hdfDriverManagerFoundDriver driverHead driverName, driverHead)

/-! ### The driver section -/

/-- The number of pointers in the section, as an `int32_t`. -/
def entryCount (entries : List (Option HdfDriverEntry)) : Int32 := Int32.ofNat entries.length

/-- The loop of `HdfDriverEntryConstruct`, by the number of rounds that are left, which also
names the outcome of the allocation. There is no result when the section is left. -/
def entryLoop (alloc : ℕ → Bool) (entries : List (Option HdfDriverEntry)) :
    ℕ → ℕ → List HdfDriver → Option (List HdfDriver)
  | 0, _, driverHead => some driverHead
  | rounds + 1, addrBegin, driverHead =>
    match entries[addrBegin]? with
    | none => none
    | some driverEntry =>
      let (status, driverHead) := hdfRegisterDriverEntry (alloc rounds) driverEntry driverHead
      if status ≠ .success then entryLoop alloc entries rounds addrBegin driverHead
      else entryLoop alloc entries rounds (addrBegin + 1) driverHead

/-- `HdfDriverEntryConstruct`. -/
def hdfDriverEntryConstruct (alloc : ℕ → Bool) (entries : List (Option HdfDriverEntry))
    (driverHead : List HdfDriver) : Option (HdfStatus × List HdfDriver) :=
  let count := entryCount entries
  if count ≤ 0 then some (.failure, driverHead)
  else (entryLoop alloc entries count.toInt.toNat 0 driverHead).map fun driverHead =>
    (.success, driverHead)

/-! ### What should be registered -/

/-- An entry is there and has a module name. -/
def valid (entry : Option HdfDriverEntry) : Bool :=
  (entry.bind HdfDriverEntry.moduleName).isSome

/-- With enough memory every valid entry is registered, in the order of the section, and is
found by its module name. -/
def RegistersAll (hdfSysEventSend : Option (CString → List HdfDriver → HdfStatus × List HdfDriver))
    (entries : List (Option HdfDriverEntry)) (driverHead : List HdfDriver) : Prop :=
  ∃ status driverHead', hdfDriverEntryConstruct (fun _ => true) entries driverHead =
      some (status, driverHead') ∧
    driverHead' = driverHead ++ (entries.filter valid).map HdfDriver.mk ∧
    ∀ entry ∈ entries, ∀ moduleName, entry.bind HdfDriverEntry.moduleName = some moduleName →
      ∃ driver, (hdfDriverManagerGetDriver hdfSysEventSend driverHead' (some moduleName)).1 =
        some driver ∧ driver.moduleName = some moduleName

/-- The valid entries are the first ones, and they are within the count. -/
def ValidFirst (entries : List (Option HdfDriverEntry)) : Prop :=
  ∃ n ≤ (entryCount entries).toInt.toNat, (∀ entry ∈ entries.take n, valid entry = true) ∧
    ∀ entry ∈ entries.drop n, valid entry = false

section

variable {alloc : ℕ → Bool} {entries : List (Option HdfDriverEntry)} {entry : Option HdfDriverEntry}
  {driverHead : List HdfDriver} {moduleName : CString}

theorem hdfRegisterDriverEntry_eq (entry : Option HdfDriverEntry) (driverHead : List HdfDriver) :
    hdfRegisterDriverEntry true entry driverHead =
      if valid entry then (.success, driverHead ++ [⟨entry⟩])
      else (.invalidObject, driverHead) := by
  cases entry with
  | none => rfl
  | some entry =>
    rw [hdfRegisterDriverEntry, valid, Option.bind_some]
    cases entry.moduleName <;> rfl

/-- The count does not exceed the section. -/
theorem entryCount_le (entries : List (Option HdfDriverEntry)) :
    (entryCount entries).toInt.toNat ≤ entries.length := by
  rw [entryCount, Int32.toInt_ofNat', Int32.size]
  unfold Int.bmod
  dsimp only
  split <;> omega

/-! ### The loop -/

/-- The loop registers entries up to the first invalid one. -/
theorem entryLoop_eq {rounds addrBegin : ℕ} (inside : addrBegin + rounds ≤ entries.length) :
    entryLoop (fun _ => true) entries rounds addrBegin driverHead =
      some (driverHead ++
        (((entries.drop addrBegin).take rounds).takeWhile valid).map HdfDriver.mk) := by
  induction rounds generalizing addrBegin driverHead with
  | zero => simp [entryLoop]
  | succ rounds ih =>
    have there : addrBegin < entries.length := by omega
    rw [entryLoop, List.getElem?_eq_getElem there]
    dsimp only
    rw [hdfRegisterDriverEntry_eq, List.drop_eq_getElem_cons there, List.take_succ_cons,
      List.takeWhile_cons]
    cases well : valid entries[addrBegin] with
    | true =>
      simp only [if_true, ne_eq, not_true_eq_false, if_false]
      rw [ih (by omega), List.map_cons, List.append_assoc, List.singleton_append]
    | false =>
      -- the remaining rounds look at this entry again
      simp only [Bool.false_eq_true, if_false, ne_eq, reduceCtorEq, not_false_eq_true, if_true]
      rw [ih (by omega), List.drop_eq_getElem_cons there]
      cases rounds with
      | zero => rfl
      | succ rounds => rw [List.take_succ_cons, List.takeWhile_cons, well]; rfl

theorem hdfDriverEntryConstruct_eq (entries : List (Option HdfDriverEntry))
    (driverHead : List HdfDriver) :
    ∃ status, hdfDriverEntryConstruct (fun _ => true) entries driverHead =
      some (status, driverHead ++
        ((entries.take (entryCount entries).toInt.toNat).takeWhile valid).map HdfDriver.mk) := by
  unfold hdfDriverEntryConstruct
  dsimp only
  split
  case isTrue none_counted =>
    rw [Int32.le_iff_toInt_le, Int32.toInt_zero] at none_counted
    rw [Int.toNat_of_nonpos none_counted]
    exact ⟨.failure, by simp⟩
  case isFalse =>
    have inside := entryCount_le entries
    rw [entryLoop_eq (by omega), List.drop_zero]
    exact ⟨.success, rfl⟩

/-! ### Valid entries -/

/-- The longest valid front is all that is valid when nothing valid follows. -/
theorem takeWhile_take_eq_filter {α : Type*} (p : α → Bool) (count : ℕ) (l : List α) :
    (l.take count).takeWhile p = l.filter p ↔
      ∃ n ≤ count, (∀ x ∈ l.take n, p x = true) ∧ ∀ x ∈ l.drop n, p x = false := by
  induction l generalizing count with
  | nil => simpa using ⟨0, Nat.zero_le count⟩
  | cons x l ih =>
    cases count with
    | zero =>
      constructor
      · intro nothing
        have bad := List.filter_eq_nil_iff.mp nothing.symm
        exact ⟨0, le_rfl, by simp, by simpa using bad⟩
      · rintro ⟨n, less, -, bad⟩
        obtain rfl := Nat.le_zero.mp less
        exact (List.filter_eq_nil_iff.mpr (by simpa using bad)).symm
    | succ count =>
      rw [List.take_succ_cons, List.takeWhile_cons, List.filter_cons]
      cases good : p x with
      | true =>
        simp only [if_true, List.cons.injEq, true_and]
        rw [ih]
        constructor
        · rintro ⟨n, less, front, back⟩
          exact ⟨n + 1, by omega, by simpa [good] using front, by simpa using back⟩
        · rintro ⟨n, less, front, back⟩
          cases n with
          | zero => simp [good] at back
          | succ n => exact ⟨n, by omega, by simpa [good] using front, by simpa using back⟩
      | false =>
        simp only [Bool.false_eq_true, if_false]
        constructor
        · intro nothing
          have bad := List.filter_eq_nil_iff.mp nothing.symm
          exact ⟨0, Nat.zero_le _, by simp, by simpa [good] using bad⟩
        · rintro ⟨n, less, front, back⟩
          cases n with
          | zero => exact (List.filter_eq_nil_iff.mpr (by simpa [good] using back)).symm
          | succ n => simp [good] at front

/-- A driver that is registered is found by its name, or one of the same name before it. -/
theorem getDriver_of_mem
    (hdfSysEventSend : Option (CString → List HdfDriver → HdfStatus × List HdfDriver))
    {driver : HdfDriver} (member : driver ∈ driverHead)
    (named : driver.moduleName = some moduleName) :
    ∃ driver, (hdfDriverManagerGetDriver hdfSysEventSend driverHead (some moduleName)).1 =
      some driver ∧ driver.moduleName = some moduleName := by
  have finds : (hdfDriverManagerFoundDriver driverHead moduleName).isSome := by
    rw [hdfDriverManagerFoundDriver, List.find?_isSome]
    exact ⟨driver, member, by simpa using named⟩
  obtain ⟨found, finds⟩ := Option.isSome_iff_exists.mp finds
  refine ⟨found, ?_, by simpa using List.find?_some finds⟩
  unfold hdfDriverManagerGetDriver
  dsimp only
  rw [finds]

/-- Every valid entry is registered, and found by its name, exactly when the valid entries
stand in front of the section and within its count. -/
theorem registersAll_iff
    (hdfSysEventSend : Option (CString → List HdfDriver → HdfStatus × List HdfDriver))
    (entries : List (Option HdfDriverEntry)) (driverHead : List HdfDriver) :
    RegistersAll hdfSysEventSend entries driverHead ↔ ValidFirst entries := by
  obtain ⟨status, constructs⟩ := hdfDriverEntryConstruct_eq entries driverHead
  rw [ValidFirst, ← takeWhile_take_eq_filter]
  constructor
  · rintro ⟨_, _, constructs', same, -⟩
    cases constructs.symm.trans constructs'
    exact List.map_injective_iff.mpr (fun a b => (HdfDriver.mk.injEq a b).mp)
      (List.append_cancel_left same)
  · intro all
    rw [all] at constructs
    refine ⟨status, _, constructs, rfl, fun entry member moduleName named => ?_⟩
    have registered : (⟨entry⟩ : HdfDriver) ∈
        driverHead ++ (entries.filter valid).map HdfDriver.mk :=
      List.mem_append_right _ (List.mem_map_of_mem
        (List.mem_filter.mpr ⟨member, by rw [valid, named]; rfl⟩))
    exact getDriver_of_mem hdfSysEventSend registered named

end

/-! ### Examples -/

/-- An entry without a name in front of one that has a name. -/
def unnamedFirst : List (Option HdfDriverEntry) :=
  [some ⟨4096, none⟩, some ⟨8192, some (.ofAscii "HDF_SENSOR")⟩]

theorem unnamedFirst_not_registered :
    hdfDriverEntryConstruct (fun _ => true) unnamedFirst [] = some (.success, []) ∧
      (hdfDriverManagerGetDriver none [] (some (.ofAscii "HDF_SENSOR"))).1 = none ∧
      ¬ RegistersAll none unnamedFirst [] := by
  have constructs : hdfDriverEntryConstruct (fun _ => true) unnamedFirst [] =
      some (.success, []) := by decide
  refine ⟨constructs, rfl, fun all => ?_⟩
  obtain ⟨status, drivers, constructs', same, -⟩ := all
  rw [constructs] at constructs'
  cases constructs'
  exact absurd same (by decide)

end Hdf.Core.DriverEntries
