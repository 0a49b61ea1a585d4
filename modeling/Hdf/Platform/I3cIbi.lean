import Hdf.Lib.Runs
import Hdf.Lib.SlotTable
import Mathlib.Data.Finset.Card

/-!
# The interrupt slots of an I3C controller

A device that supports in-band interrupts requests a record for them. The record is put into a slot
of the controller and is kept by the device.

The devices are those of one controller, and its lock is the default one, a spin lock. Whether the
memory of a record is got, and what the callback of the controller returns, come with the calls.

## Main results

* `allRight_iff_meets`: the slots are sound and all calls of a run are right if and only if all
  calls are orderly
* `leaks_slots`: runs after which a slot or the lock is lost
-/

namespace Hdf.Platform.I3cIbi

open Hdf.SlotTable

/-- `I3C_IBI_MAX`. -/
def i3cIbiMax : ℕ := 10

/-- The slots of the controller, the record of each device, whether the lock is held between two
calls, and the number of the next record. -/
structure State where
  ibiSlot : List (Option ℕ)
  ibi : ℕ → Option ℕ
  locked : Bool
  next : ℕ

/-- The state of a new controller. -/
def init : State := ⟨List.replicate i3cIbiMax none, fun _ => none, false, 0⟩

/-- A call for a device. A request comes with whether the memory is got, and with what the callback
of the controller returns. -/
inductive Call where
  | request (device : ℕ) (allocates : Bool) (ret : Int32)
  | free (device : ℕ)
  deriving DecidableEq

/-- `HDF_ERR_NOT_SUPPORT`. -/
def hdfErrNotSupport : Int32 := -2

/-- `HDF_ERR_MALLOC_FAIL`. -/
def hdfErrMallocFail : Int32 := -6

/-- `HDF_ERR_DEVICE_BUSY`. -/
def hdfErrDeviceBusy : Int32 := -16

/-- `I3cCntlrRequestIbi`. It waits for the lock for ever if that is held. Without memory it returns
with the lock held. -/
def i3cCntlrRequestIbi (supportIbi : ℕ → Bool) (s : State) (device : ℕ) (allocates : Bool)
    (ret : Int32) : Option (Int32 × State) :=
  if ¬supportIbi device then some (hdfErrNotSupport, s)
  else if s.locked then none
  else match s.ibiSlot.findIdx? Option.isNone with
    | none => some (hdfErrDeviceBusy, s)
    | some ptr =>
      if ¬allocates then some (hdfErrMallocFail, { s with locked := true })
      else some (ret, { s with
        ibiSlot := place s.next ptr s.ibiSlot
        ibi := Function.update s.ibi device (some s.next)
        next := s.next + 1 })

/-- `I3cCntlrFreeIbi`. Every path through its loop ends in the first round. -/
def i3cCntlrFreeIbi (s : State) (device : ℕ) : Int32 × State :=
  match s.ibiSlot, s.ibi device with
  | some slot :: rest, some ibi =>
    if slot ≠ ibi then (0, s)
    else (0, { s with
      ibiSlot := none :: rest
      ibi := Function.update s.ibi device none })
  | _, _ => (0, s)

/-- What a call returns, with the state after it. -/
def call (supportIbi : ℕ → Bool) (s : State) : Call → Option (Int32 × State)
  | .request device allocates ret => i3cCntlrRequestIbi supportIbi s device allocates ret
  | .free device => some (i3cCntlrFreeIbi s device)

/-- The state after a call. -/
def step (supportIbi : ℕ → Bool) (c : Call) (s : State) : Option State :=
  (call supportIbi s c).map Prod.snd

/-- The slots hold exactly the records of the devices, each once, and the lock is free. -/
structure Sound (s : State) : Prop where
  once : (live s.ibiSlot).Nodup
  owned : ∀ record, record ∈ live s.ibiSlot ↔ ∃ device, s.ibi device = some record
  apart : ∀ device device' record, s.ibi device = some record → s.ibi device' = some record →
    device = device'
  unlocked : s.locked = false

/-- Fewer devices than there are slots have a record. -/
def FewerHold (s : State) : Prop :=
  ∃ holders : Finset ℕ, holders.card < i3cIbiMax ∧ ∀ device, s.ibi device ≠ none → device ∈ holders

/-- A call does what it tells: a request of a device that supports interrupts succeeds if fewer
devices than there are slots have a record and nothing fails, and a device that has been freed
successfully has no record, and its slot is empty. -/
def Right (supportIbi : ℕ → Bool) (s : State) (result : Int32 × State) : Call → Prop
  | .request device allocates ret =>
    supportIbi device = true → FewerHold s → allocates = true → ret = 0 → result.1 = 0
  | .free device => result.1 = 0 → result.2.ibi device = none ∧
    ∀ record, s.ibi device = some record → some record ∉ result.2.ibiSlot

/-- All calls of a run return and are right, and the slots are sound all the time. -/
def AllRight (supportIbi : ℕ → Bool) (s : State) : List Call → Prop
  | [] => Sound s
  | c :: calls => Sound s ∧ ∃ result, call supportIbi s c = some result ∧
    Right supportIbi s result c ∧ AllRight supportIbi result.2 calls

/-- A request for which there is an empty slot is that of a device without a record and gets its
memory; and a device that is freed has no record or that of the first slot. -/
def Orderly (supportIbi : ℕ → Bool) : Call → State → Prop
  | .request device allocates _, s => supportIbi device = true → none ∈ s.ibiSlot →
    s.ibi device = none ∧ allocates = true
  | .free device, s => s.ibi device ≠ none → s.ibiSlot.head? = some (s.ibi device)

instance (supportIbi : ℕ → Bool) (c : Call) (s : State) : Decidable (Orderly supportIbi c s) := by
  cases c <;> unfold Orderly <;> infer_instance

variable {supportIbi : ℕ → Bool} {s t : State} {device ptr : ℕ} {allocates : Bool} {ret : Int32}

/-- The records have been numbered one after the other. -/
structure Numbered (s : State) : Prop where
  length : s.ibiSlot.length = i3cIbiMax
  slots : ∀ record ∈ live s.ibiSlot, record < s.next
  devices : ∀ device record, s.ibi device = some record → record < s.next

/-! ### Requests -/

/-- The first empty slot. -/
theorem findIdx?_isNone_eq_some (found : s.ibiSlot.findIdx? Option.isNone = some ptr) :
    s.ibiSlot[ptr]? = some none := by
  obtain ⟨inside, empty, -⟩ := List.findIdx?_eq_some_iff_getElem.mp found
  rw [List.getElem?_eq_getElem inside, Option.isNone_iff_eq_none.mp empty]

theorem findIdx?_isNone_eq_none :
    s.ibiSlot.findIdx? Option.isNone = none ↔ none ∉ s.ibiSlot := by
  rw [List.findIdx?_eq_none_iff]
  constructor
  · intro full member
    exact absurd (full none member) (by decide)
  · intro full slot member
    cases slot with
    | none => exact absurd member full
    | some record => rfl

/-- There is an empty slot while fewer devices have a record. -/
theorem Sound.none_mem (sound : Sound s) (numbered : Numbered s) (fewer : FewerHold s) :
    none ∈ s.ibiSlot := by
  by_contra full
  obtain ⟨holders, few, inside⟩ := fewer
  have count : (live s.ibiSlot).toFinset.card = i3cIbiMax := by
    rw [List.toFinset_card_of_nodup sound.once, length_live_of_full full, numbered.length]
  have owners : ∀ record ∈ (live s.ibiSlot).toFinset, ∃ device, s.ibi device = some record :=
    fun record member => (sound.owned record).mp (List.mem_toFinset.mp member)
  choose! owner owns using owners
  have le : (live s.ibiSlot).toFinset.card ≤ holders.card := by
    refine Finset.card_le_card_of_injOn owner (fun record member => ?_) ?_
    · have some_record := owns record member
      exact inside _ (by rw [some_record]; exact Option.some_ne_none record)
    · intro record member record' member' same
      have first := owns record member
      rw [same, owns record' member'] at first
      exact (Option.some.inj first).symm
  omega

/-- The state after a record has been put into a slot. -/
def placed (s : State) (device ptr : ℕ) : State :=
  { s with
    ibiSlot := place s.next ptr s.ibiSlot
    ibi := Function.update s.ibi device (some s.next)
    next := s.next + 1 }

theorem ibi_placed_self : (placed s device ptr).ibi device = some s.next :=
  Function.update_self ..

theorem ibi_placed_of_ne {other : ℕ} (different : other ≠ device) :
    (placed s device ptr).ibi other = s.ibi other :=
  Function.update_of_ne different ..

theorem mem_live_placed (hole : s.ibiSlot[ptr]? = some none) (record : ℕ) :
    record ∈ live (placed s device ptr).ibiSlot ↔ record = s.next ∨ record ∈ live s.ibiSlot := by
  rw [placed, (live_place hole).mem_iff, List.mem_cons]

theorem Numbered.placed (numbered : Numbered s) (hole : s.ibiSlot[ptr]? = some none) :
    Numbered (placed s device ptr) := by
  refine ⟨?_, fun record member => ?_, fun other record holds => ?_⟩
  · exact (List.length_set ..).trans numbered.length
  · obtain rfl | member := (mem_live_placed hole record).mp member
    · exact Nat.lt_succ_self _
    · exact (numbered.slots record member).trans (Nat.lt_succ_self _)
  · by_cases same : other = device
    · rw [same, ibi_placed_self] at holds
      exact Option.some.inj holds ▸ Nat.lt_succ_self _
    · rw [ibi_placed_of_ne same] at holds
      exact (numbered.devices other record holds).trans (Nat.lt_succ_self _)

/-- A record that is put into a slot keeps the slots sound only for a device that has had none. -/
theorem sound_placed_iff (sound : Sound s) (numbered : Numbered s)
    (hole : s.ibiSlot[ptr]? = some none) : Sound (placed s device ptr) ↔ s.ibi device = none := by
  have fresh : ∀ other, s.ibi other ≠ some s.next := fun other holds =>
    lt_irrefl _ (numbered.devices other _ holds)
  constructor
  · intro after
    -- the record that the device has had would still be in its slot
    by_contra some_record
    obtain ⟨record, holds⟩ := Option.ne_none_iff_exists'.mp some_record
    have member := (sound.owned record).mpr ⟨device, holds⟩
    obtain ⟨other, owns⟩ :=
      (after.owned record).mp ((mem_live_placed hole record).mpr (.inr member))
    by_cases same : other = device
    · rw [same, ibi_placed_self] at owns
      exact fresh device (holds.trans owns.symm)
    · rw [ibi_placed_of_ne same] at owns
      exact same (sound.apart other device record owns holds)
  · intro without
    refine ⟨?_, fun record => ?_, fun first second record holds holds' => ?_, sound.unlocked⟩
    · rw [placed, (live_place hole).nodup_iff, List.nodup_cons]
      exact ⟨fun member => lt_irrefl _ (numbered.slots _ member), sound.once⟩
    · rw [mem_live_placed hole]
      constructor
      · rintro (rfl | member)
        · exact ⟨device, ibi_placed_self⟩
        · obtain ⟨other, owns⟩ := (sound.owned record).mp member
          refine ⟨other, ?_⟩
          rw [ibi_placed_of_ne, owns]
          rintro rfl
          rw [without] at owns
          cases owns
      · rintro ⟨other, owns⟩
        by_cases same : other = device
        · rw [same, ibi_placed_self] at owns
          exact .inl (Option.some.inj owns).symm
        · rw [ibi_placed_of_ne same] at owns
          exact .inr ((sound.owned record).mpr ⟨other, owns⟩)
    · by_cases same : first = device <;> by_cases same' : second = device
      · rw [same, same']
      · rw [same, ibi_placed_self] at holds
        rw [ibi_placed_of_ne same', ← holds] at holds'
        exact absurd holds' (fresh second)
      · rw [same', ibi_placed_self] at holds'
        rw [ibi_placed_of_ne same, ← holds'] at holds
        exact absurd holds (fresh first)
      · rw [ibi_placed_of_ne same] at holds
        rw [ibi_placed_of_ne same'] at holds'
        exact sound.apart first second record holds holds'

/-- What a request comes to while the lock is free. -/
theorem call_request (unlocked : s.locked = false) :
    (supportIbi device = false ∧
      call supportIbi s (.request device allocates ret) = some (hdfErrNotSupport, s)) ∨
    (supportIbi device = true ∧ none ∉ s.ibiSlot ∧
      call supportIbi s (.request device allocates ret) = some (hdfErrDeviceBusy, s)) ∨
    (supportIbi device = true ∧ none ∈ s.ibiSlot ∧ allocates = false ∧
      call supportIbi s (.request device allocates ret) =
        some (hdfErrMallocFail, { s with locked := true })) ∨
    (supportIbi device = true ∧ none ∈ s.ibiSlot ∧ allocates = true ∧
      ∃ ptr, s.ibiSlot[ptr]? = some none ∧
        call supportIbi s (.request device allocates ret) = some (ret, placed s device ptr)) := by
  rw [call, i3cCntlrRequestIbi, unlocked]
  cases supportIbi device with
  | false => exact .inl ⟨rfl, rfl⟩
  | true =>
    refine .inr ?_
    cases found : s.ibiSlot.findIdx? Option.isNone with
    | none => exact .inl ⟨rfl, findIdx?_isNone_eq_none.mp found, rfl⟩
    | some ptr =>
      have hole := findIdx?_isNone_eq_some found
      have member := List.mem_of_getElem? hole
      cases allocates with
      | false => exact .inr (.inl ⟨rfl, member, rfl, rfl⟩)
      | true => exact .inr (.inr ⟨rfl, member, rfl, ptr, hole, by rw [placed, unlocked]; rfl⟩)

/-! ### Releases -/

/-- What a release comes to. -/
theorem i3cCntlrFreeIbi_cases (s : State) (device : ℕ) :
    (i3cCntlrFreeIbi s device = (0, s) ∧
      (s.ibi device = none ∨ s.ibiSlot.head? ≠ some (s.ibi device))) ∨
    ∃ record rest, s.ibi device = some record ∧ s.ibiSlot = some record :: rest ∧
      i3cCntlrFreeIbi s device = (0, { s with
        ibiSlot := none :: rest
        ibi := Function.update s.ibi device none }) := by
  rw [i3cCntlrFreeIbi]
  split
  · rename_i slot rest record slots holds
    split
    · rename_i other
      refine .inl ⟨rfl, .inr ?_⟩
      rw [slots, holds]
      exact fun same => other (Option.some.inj (Option.some.inj same))
    · rename_i same
      exact .inr ⟨record, rest, holds, by rw [slots, not_not.mp same], rfl⟩
  · rename_i nothing
    refine .inl ⟨rfl, ?_⟩
    cases holds : s.ibi device with
    | none => exact .inl rfl
    | some record =>
      cases slots : s.ibiSlot with
      | nil => exact .inr (Option.some_ne_none _).symm
      | cons slot rest =>
        cases slot with
        | none => exact .inr fun same => Option.some_ne_none record (Option.some.inj same).symm
        | some other => exact absurd holds (nothing other rest record slots)

/-- A release of the record in the first slot keeps the slots sound. -/
theorem sound_free {record : ℕ} {rest : List (Option ℕ)} (sound : Sound s)
    (holds : s.ibi device = some record) (slots : s.ibiSlot = some record :: rest) :
    Sound { s with
      ibiSlot := none :: rest
      ibi := Function.update s.ibi device none } ∧ some record ∉ rest := by
  have once := sound.once
  have owned := sound.owned
  rw [slots, live_cons_some, List.nodup_cons] at once
  rw [slots] at owned
  simp only [live_cons_some, List.mem_cons] at owned
  refine ⟨⟨once.2, fun other => ?_, fun first second shared owns owns' => ?_, sound.unlocked⟩,
    fun member => once.1 (mem_live.mpr member)⟩
  · rw [live_cons_none]
    constructor
    · intro member
      obtain ⟨owner, owns⟩ := (owned other).mp (.inr member)
      refine ⟨owner, ?_⟩
      dsimp only
      rw [Function.update_of_ne, owns]
      rintro rfl
      rw [holds] at owns
      exact once.1 (Option.some.inj owns ▸ member)
    · rintro ⟨owner, owns⟩
      dsimp only at owns
      by_cases same : owner = device
      · rw [same, Function.update_self] at owns
        cases owns
      · rw [Function.update_of_ne same] at owns
        refine ((owned other).mpr ⟨owner, owns⟩).resolve_left fun equal => same ?_
        exact sound.apart owner device record (equal ▸ owns) holds
  · dsimp only at owns owns'
    by_cases same : first = device
    · rw [same, Function.update_self] at owns
      cases owns
    · by_cases same' : second = device
      · rw [same', Function.update_self] at owns'
        cases owns'
      · rw [Function.update_of_ne same] at owns
        rw [Function.update_of_ne same'] at owns'
        exact sound.apart first second shared owns owns'

theorem Numbered.free {record : ℕ} {rest : List (Option ℕ)} (numbered : Numbered s)
    (slots : s.ibiSlot = some record :: rest) :
    Numbered { s with
      ibiSlot := none :: rest
      ibi := Function.update s.ibi device none } := by
  obtain ⟨length, all, devices⟩ := numbered
  rw [slots] at length all
  refine ⟨length, fun other member => ?_, fun owner other owns => ?_⟩
  · exact all other (List.mem_cons_of_mem _ member)
  · dsimp only at owns
    by_cases same : owner = device
    · rw [same, Function.update_self] at owns
      cases owns
    · rw [Function.update_of_ne same] at owns
      exact devices owner other owns

/-! ### Runs -/

/-- A call in a sound state is right and leaves a sound state exactly if it is orderly. -/
theorem right_and_sound_iff (sound : Sound s) (numbered : Numbered s) (c : Call) :
    (∃ result, call supportIbi s c = some result ∧ Right supportIbi s result c ∧
      Sound result.2) ↔ Orderly supportIbi c s := by
  cases c with
  | request device allocates ret =>
    obtain ⟨without, done⟩ | ⟨support, full, done⟩ | ⟨support, hole, fails, done⟩ |
      ⟨support, hole, gets, ptr, empty, done⟩ :=
        @call_request supportIbi s device allocates ret sound.unlocked
    · refine iff_of_true ⟨_, done, fun support => ?_, sound⟩ fun support => ?_
      · exact absurd (without.symm.trans support) Bool.false_ne_true
      · exact absurd (without.symm.trans support) Bool.false_ne_true
    · refine iff_of_true ⟨_, done, fun _ fewer => ?_, sound⟩ fun _ hole => absurd hole full
      exact absurd (sound.none_mem numbered fewer) full
    · refine iff_of_false ?_ fun orderly => ?_
      · rintro ⟨result, done', -, after⟩
        obtain rfl := Option.some.inj (done.symm.trans done')
        exact Bool.false_ne_true after.unlocked.symm
      · exact Bool.false_ne_true (fails.symm.trans (orderly support hole).2)
    · constructor
      · rintro ⟨result, done', -, after⟩ _ _
        obtain rfl := Option.some.inj (done.symm.trans done')
        exact ⟨(sound_placed_iff sound numbered empty).mp after, gets⟩
      · intro orderly
        exact ⟨_, done, fun _ _ _ zero => zero,
          (sound_placed_iff sound numbered empty).mpr (orderly support hole).1⟩
  | free device =>
    obtain ⟨done, without | other⟩ | ⟨record, rest, holds, slots, done⟩ :=
      i3cCntlrFreeIbi_cases s device
    · refine iff_of_true ⟨_, congrArg some done, fun _ => ⟨without, fun record holds => ?_⟩,
        sound⟩ fun holds => absurd without holds
      rw [without] at holds
      cases holds
    · by_cases without : s.ibi device = none
      · refine iff_of_true ⟨_, congrArg some done, fun _ => ⟨without, fun record holds => ?_⟩,
          sound⟩ fun holds => absurd without holds
        rw [without] at holds
        cases holds
      · refine iff_of_false ?_ fun orderly => other (orderly without)
        rintro ⟨result, done', right, -⟩
        obtain rfl := Option.some.inj ((congrArg some done).symm.trans done')
        exact without (right rfl).1
    · obtain ⟨after, gone⟩ := sound_free sound holds slots
      refine iff_of_true ⟨_, congrArg some done, fun _ => ⟨?_, fun other owns => ?_⟩, after⟩
        fun _ => ?_
      · exact Function.update_self ..
      · obtain rfl := Option.some.inj (holds.symm.trans owns)
        exact fun member => (List.mem_cons.mp member).elim (Option.some_ne_none record) gone
      · rw [slots, holds]
        rfl

theorem numbered_of_call (sound : Sound s) (numbered : Numbered s) {c : Call}
    {result : Int32 × State} (done : call supportIbi s c = some result) : Numbered result.2 := by
  cases c with
  | request device allocates ret =>
    obtain ⟨-, same⟩ | ⟨-, -, same⟩ | ⟨-, -, -, same⟩ | ⟨-, -, -, ptr, hole, same⟩ :=
        @call_request supportIbi s device allocates ret sound.unlocked
    all_goals obtain rfl := Option.some.inj (same.symm.trans done)
    · exact numbered
    · exact numbered
    · exact ⟨numbered.length, numbered.slots, numbered.devices⟩
    · exact numbered.placed hole
  | free device =>
    obtain ⟨same, -⟩ | ⟨record, rest, holds, slots, same⟩ := i3cCntlrFreeIbi_cases s device
    all_goals obtain rfl := Option.some.inj ((congrArg some same).symm.trans done)
    · exact numbered
    · exact numbered.free slots

theorem AllRight.sound {calls : List Call} (right : AllRight supportIbi s calls) : Sound s := by
  cases calls with
  | nil => exact right
  | cons c calls => exact right.1

/-- The slots are sound and all calls of a run are right if and only if all calls are orderly. -/
theorem allRight_iff_meets_of_sound {calls : List Call} (sound : Sound s) (numbered : Numbered s) :
    AllRight supportIbi s calls ↔ Meets (step supportIbi) (Orderly supportIbi) s calls := by
  induction calls generalizing s with
  | nil => exact iff_of_true sound trivial
  | cons c calls ih =>
    constructor
    · rintro ⟨-, result, done, right, later⟩
      refine ⟨(right_and_sound_iff sound numbered c).mp ⟨result, done, right, later.sound⟩,
        fun t stepped => ?_⟩
      rw [step, done] at stepped
      obtain rfl := Option.some.inj stepped
      exact (ih later.sound (numbered_of_call sound numbered done)).mp later
    · rintro ⟨orderly, later⟩
      obtain ⟨result, done, right, sound'⟩ := (right_and_sound_iff sound numbered c).mpr orderly
      refine ⟨sound, result, done, right, ?_⟩
      refine (ih sound' (numbered_of_call sound numbered done)).mpr (later result.2 ?_)
      rw [step, done]
      rfl

theorem sound_init : Sound init where
  once := by
    rw [init, live_replicate]
    exact List.nodup_nil
  owned := by
    intro record
    rw [init, live_replicate]
    exact iff_of_false List.not_mem_nil fun ⟨_, owns⟩ => Option.some_ne_none record owns.symm
  apart := by
    intro device device' record owns
    exact absurd owns.symm (Option.some_ne_none record)
  unlocked := rfl

theorem numbered_init : Numbered init where
  length := List.length_replicate
  slots := by
    intro record member
    rw [init, live_replicate] at member
    exact absurd member List.not_mem_nil
  devices := by
    intro device record owns
    exact absurd owns.symm (Option.some_ne_none record)

/-- From a new controller on, the slots are sound and all calls are right if and only if all calls
are orderly. -/
theorem allRight_iff_meets (supportIbi : ℕ → Bool) (calls : List Call) :
    AllRight supportIbi init calls ↔
      Meets (step supportIbi) (Orderly supportIbi) init calls :=
  allRight_iff_meets_of_sound sound_init numbered_init

/-- A second request of a device, a device that is freed while it is not in the first slot, and a
request that gets no memory. -/
theorem leaks_slots :
    ¬AllRight (fun _ => true) init [.request 0 true 0, .request 0 true 0] ∧
    ¬AllRight (fun _ => true) init [.request 0 true 0, .request 1 true 0, .free 1] ∧
    ¬AllRight (fun _ => true) init [.request 0 false 0] := by
  simp only [allRight_iff_meets_of_sound sound_init numbered_init]
  decide

end Hdf.Platform.I3cIbi
