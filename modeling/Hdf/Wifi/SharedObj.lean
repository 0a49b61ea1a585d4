import Hdf.Lib.Runs
import Hdf.Lib.Threads
import Hdf.Wifi.MessageRouter
import Mathlib.Data.Int.Notation
import Mathlib.Data.Nat.Bitwise

/-!
# Shared objects of the message engine

A dispatcher, a service or a node counts the references to it. Any number of calls
take references and give them back at the same time, and whoever finds the counter
at zero destroys the object. Giving back decrements the counter in one step and
reads it in another; taking looks at the status and at the counter before it counts.

## Main results

* `diesOnce_of_apart`: the end of an object whose calls keep apart
* `crossed_destroy_twice`: two threads that give back their references at the same time
-/

namespace Hdf.Wifi.SharedObj

open MessageRouter (MessageEngineStatus)
open Threads

/-- `MAX_OBJ_REF_COUNT`. -/
def maxObjRefCount : ℤ := 200

/-- Where a call of `Reference` or of `Disreference` is: what it does next. -/
inductive Call where
  | readStatus | readStatusAgain | readCount | inc
  | dec | testCount | setStatus | destroy
  | returned
  deriving DecidableEq, Repr

/-- A call of `Reference` that has not returned. -/
def Call.takes : Call → Bool
  | .readStatus | .readStatusAgain | .readCount | .inc => true
  | _ => false

/-- A call of `Disreference` that has not decremented the counter yet. -/
def Call.gives (call : Call) : Bool := call = .dec

/-- A call of `Disreference` that has decremented the counter and not read it yet. -/
def Call.leaves (call : Call) : Bool := call = .testCount

/-- A call of `Disreference` that has found the counter at zero. -/
def Call.ends : Call → Bool
  | .setStatus | .destroy => true
  | _ => false

/-- The fields of `SHARED_OBJ`, the calls on the object, and what has become of it. The
references are those that nobody has begun to give back. -/
structure State where
  status : MessageEngineStatus
  refCount : ℤ
  calls : List Call
  references : ℕ
  freed : Bool
  destroys : ℕ
  touched : Bool
  deriving DecidableEq

/-- `InitSharedObj`, for a caller that has one reference. -/
def created (status : MessageEngineStatus) : State := ⟨status, 1, [], 1, false, 0, false⟩

/-- `status > ME_STATUS_RUNNING`. -/
def pastRunning : MessageEngineStatus → Bool
  | .stopping | .todestroy => true
  | _ => false

/-- The value of a counter of type `int32_t`. -/
def int32 (x : ℤ) : ℤ := x.bmod (2 ^ 32)

/-- One step of a call, and what the call does next. Destroying is `Destroy`, which sets the
counter to zero, and the release of the memory. -/
def proceed : Call → State → Option (Call × State)
  | .readStatus, state =>
    some (if pastRunning state.status then .returned else .readStatusAgain, state)
  | .readStatusAgain, state =>
    some (if pastRunning state.status then .returned else .readCount, state)
  | .readCount, state => some (if state.refCount < maxObjRefCount then .inc else .returned, state)
  | .inc, state =>
    some (.returned,
      { state with refCount := int32 (state.refCount + 1), references := state.references + 1 })
  | .dec, state => some (.testCount, { state with refCount := int32 (state.refCount - 1) })
  | .testCount, state => some (if state.refCount ≤ 0 then .setStatus else .returned, state)
  | .setStatus, state => some (.destroy, { state with status := .todestroy })
  | .destroy, state =>
    some (.returned, { state with refCount := 0, freed := true, destroys := state.destroys + 1 })
  | .returned, _ => none

/-- What happens next: a call of `Reference` or `Disreference` begins, or a call takes its
next step. -/
inductive Action where
  | reference
  | disreference
  | advance (i : ℕ)

/-- A reference can be given back once. Every step of a call reads or writes the object. -/
def step : Action → State → Option State
  | .reference, state => some { state with calls := state.calls ++ [.readStatus] }
  | .disreference, state =>
    if 0 < state.references then
      some { state with calls := state.calls ++ [.dec], references := state.references - 1 }
    else none
  | .advance i, state => do
    let call ← state.calls[i]?
    let (next, after) ← proceed call state
    some { after with
      calls := state.calls.set i next
      touched := state.touched || state.freed }

/-- The object is destroyed once, after the last reference has been given back, and nobody
looks at it afterwards. -/
structure DiesOnce (state : State) : Prop where
  untouched : state.touched = false
  once : state.destroys ≤ 1
  last : 0 < state.destroys → state.references = 0 ∧ .dec ∉ state.calls
  dies : (∀ call ∈ state.calls, call = .returned) → state.references = 0 → state.destroys = 1

/-- Nobody gets in the way of a step: who reads the counter at zero is the only one giving
back a reference; nobody takes a reference that has been found to be the last one, or is
about to take one when the object is destroyed; and the counter does not overflow. -/
def Call.Apart (state : State) : Call → Prop
  | .inc => state.calls.countP Call.ends = 0 ∧ state.refCount + 1 < 2 ^ 31
  | .testCount => state.refCount ≤ 0 → state.calls.countP Call.leaves = 1
  | .destroy => state.calls.countP Call.takes = 0
  | _ => True

instance (state : State) (call : Call) : Decidable (call.Apart state) :=
  match call with
  | .inc => inferInstanceAs (Decidable (_ ∧ _))
  | .testCount => inferInstanceAs (Decidable (_ → _))
  | .destroy => inferInstanceAs (Decidable (_ = _))
  | .readStatus | .readStatusAgain | .readCount | .dec | .setStatus | .returned => .isTrue trivial

/-- The steps of calls keep apart, and references are taken from an object that is there. -/
def Apart : Action → State → Prop
  | .reference, state => state.freed = false
  | .disreference, _ => True
  | .advance i, state => ∀ call ∈ state.calls[i]?, call.Apart state

instance (action : Action) (state : State) : Decidable (Apart action state) :=
  match action with
  | .reference => inferInstanceAs (Decidable (_ = _))
  | .disreference => .isTrue trivial
  | .advance i => inferInstanceAs (Decidable (∀ call ∈ state.calls[i]?, call.Apart state))

/-! ### Calls that keep apart -/

/-- An object whose calls keep apart. -/
structure Kept (state : State) : Prop where
  untouched : state.touched = false
  freed_iff : state.freed = true ↔ 0 < state.destroys
  counted : state.refCount = state.references + state.calls.countP Call.gives
  fits : state.refCount < 2 ^ 31
  alone : state.calls.countP Call.ends + state.destroys ≤ 1
  ending : 0 < state.calls.countP Call.ends + state.destroys →
    state.refCount = 0 ∧ state.calls.countP Call.leaves = 0
  settled : 0 < state.destroys → ∀ call ∈ state.calls, call = .returned
  alive : state.refCount = 0 →
    0 < state.calls.countP Call.leaves + state.calls.countP Call.ends + state.destroys

theorem kept_created (status : MessageEngineStatus) : Kept (created status) := by
  refine ⟨rfl, ?_, rfl, ?_, ?_, ?_, ?_, ?_⟩ <;> simp [created]

theorem int32_of_fits {x : ℤ} (positive : 0 ≤ x) (fits : x < 2 ^ 31) : int32 x = x :=
  Int.bmod_eq_of_le_mul_two (by omega) (by omega)

/-- A call does one thing at a time. -/
theorem returned_of_idle {call : Call} (takes : call.takes = false) (gives : call.gives = false)
    (leaves : call.leaves = false) (ends : call.ends = false) : call = .returned := by
  cases call <;> first | rfl | contradiction

/-- As long as the object is there, the counts say everything. -/
theorem kept_of_counts {state : State} (untouched : state.touched = false)
    (unfreed : state.freed = false) (undestroyed : state.destroys = 0)
    (counted : state.refCount = state.references + state.calls.countP Call.gives)
    (fits : state.refCount < 2 ^ 31) (alone : state.calls.countP Call.ends ≤ 1)
    (ending : 0 < state.calls.countP Call.ends →
      state.refCount = 0 ∧ state.calls.countP Call.leaves = 0)
    (alive : state.refCount = 0 →
      0 < state.calls.countP Call.leaves + state.calls.countP Call.ends) : Kept state where
  untouched := untouched
  freed_iff := by simp [unfreed, undestroyed]
  counted := counted
  fits := fits
  alone := by omega
  ending some_end := ending (by omega)
  settled gone := absurd gone (by omega)
  alive zero := Nat.lt_of_lt_of_le (alive zero) (Nat.le_add_right _ _)

namespace Kept

variable {state after : State} (kept : Kept state) {i : ℕ} {call next : Call}

include kept

theorem unfreed_of (undestroyed : state.destroys = 0) : state.freed = false := by
  rw [Bool.eq_false_iff, ne_eq, kept.freed_iff, undestroyed]
  exact Nat.lt_irrefl 0

/-- A call that has not returned is on an object that is there. -/
theorem undestroyed (there : state.calls[i]? = some call) (proceeds : call ≠ .returned) :
    state.destroys = 0 := by
  by_contra gone
  exact proceeds (kept.settled (Nat.pos_of_ne_zero gone) call (List.mem_of_getElem? there))

/-- The counts of an object that is there. -/
theorem counts (undestroyed : state.destroys = 0) :
    state.calls.countP Call.ends ≤ 1 ∧
      (0 < state.calls.countP Call.ends →
        state.refCount = 0 ∧ state.calls.countP Call.leaves = 0) ∧
      (state.refCount = 0 →
        0 < state.calls.countP Call.leaves + state.calls.countP Call.ends) := by
  have alone := kept.alone
  have ending := kept.ending
  have alive := kept.alive
  rw [undestroyed, Nat.add_zero] at alone ending alive
  exact ⟨alone, ending, alive⟩

/-- Other calls that count for the same change nothing. -/
theorem of_same_counts (undestroyed : state.destroys = 0) {calls : List Call}
    (gives : calls.countP Call.gives = state.calls.countP Call.gives)
    (leaves : calls.countP Call.leaves = state.calls.countP Call.leaves)
    (ends : calls.countP Call.ends = state.calls.countP Call.ends)
    (status : MessageEngineStatus) : Kept { state with status, calls } := by
  obtain ⟨alone, ending, alive⟩ := kept.counts undestroyed
  refine kept_of_counts kept.untouched (kept.unfreed_of undestroyed) undestroyed ?_ kept.fits
    ?_ ?_ ?_
  · exact gives ▸ kept.counted
  · exact ends ▸ alone
  · exact ends ▸ leaves ▸ ending
  · exact ends ▸ leaves ▸ alive

theorem reference (unfreed : state.freed = false) :
    Kept { state with calls := state.calls ++ [.readStatus] } := by
  have undestroyed : state.destroys = 0 := by
    by_contra gone
    rw [kept.freed_iff.mpr (Nat.pos_of_ne_zero gone)] at unfreed
    cases unfreed
  exact kept.of_same_counts undestroyed (countP_append_singleton ..) (countP_append_singleton ..)
    (countP_append_singleton ..) state.status

theorem disreference (some_reference : 0 < state.references) :
    Kept { state with
      calls := state.calls ++ [.dec], references := state.references - 1 } := by
  have counted := kept.counted
  have undestroyed : state.destroys = 0 := by
    have ending := kept.ending
    omega
  obtain ⟨alone, ending, alive⟩ := kept.counts undestroyed
  have gives : (state.calls ++ [Call.dec]).countP Call.gives = state.calls.countP Call.gives + 1 :=
    countP_append_singleton ..
  have leaves : (state.calls ++ [Call.dec]).countP Call.leaves = state.calls.countP Call.leaves :=
    countP_append_singleton ..
  have ends : (state.calls ++ [Call.dec]).countP Call.ends = state.calls.countP Call.ends :=
    countP_append_singleton ..
  refine kept_of_counts kept.untouched (kept.unfreed_of undestroyed) undestroyed ?_ kept.fits
    ?_ ?_ ?_
  · rw [gives]
    change state.refCount = _
    push_cast
    omega
  · exact ends ▸ alone
  · exact ends ▸ leaves ▸ ending
  · exact ends ▸ leaves ▸ alive

/-! ### The steps of a call -/

section Steps

variable (undestroyed : state.destroys = 0)

include undestroyed

/-- A step that counts for the same before and after. -/
theorem keeps_counts (there : state.calls[i]? = some call) (gives : next.gives = call.gives)
    (leaves : next.leaves = call.leaves) (ends : next.ends = call.ends)
    (status : MessageEngineStatus) :
    Kept { state with status, calls := state.calls.set i next } :=
  kept.of_same_counts undestroyed (countP_set_same _ _ there gives)
    (countP_set_same _ _ there leaves) (countP_set_same _ _ there ends) status

theorem inc (there : state.calls[i]? = some .inc)
    (nobody_ends : state.calls.countP Call.ends = 0) (room : state.refCount + 1 < 2 ^ 31) :
    Kept { state with
      refCount := int32 (state.refCount + 1), references := state.references + 1,
      calls := state.calls.set i .returned } := by
  have counted := kept.counted
  have gives := countP_set_same Call.gives .returned there rfl
  have ends := countP_set_same Call.ends .returned there rfl
  have exact_count : int32 (state.refCount + 1) = state.refCount + 1 :=
    int32_of_fits (by omega) room
  refine kept_of_counts kept.untouched (kept.unfreed_of undestroyed) undestroyed ?_ ?_ ?_ ?_ ?_
  · rw [exact_count, gives, counted]
    push_cast
    omega
  · rw [exact_count]
    exact room
  · rw [ends, nobody_ends]
    exact Nat.zero_le 1
  · rw [ends, nobody_ends]
    exact fun some_end => absurd some_end (Nat.lt_irrefl 0)
  · exact fun zero => absurd (exact_count.symm.trans zero) (by omega)

theorem dec (there : state.calls[i]? = some .dec) :
    Kept { state with
      refCount := int32 (state.refCount - 1), calls := state.calls.set i .testCount } := by
  have counted := kept.counted
  have fits := kept.fits
  obtain ⟨alone, ending, alive⟩ := kept.counts undestroyed
  have gives := countP_set_loss Call.gives .testCount there rfl rfl
  have leaves := countP_set_gain Call.leaves .testCount there rfl rfl
  have ends := countP_set_same Call.ends .testCount there rfl
  have exact_count : int32 (state.refCount - 1) = state.refCount - 1 :=
    int32_of_fits (by omega) (by omega)
  refine kept_of_counts kept.untouched (kept.unfreed_of undestroyed) undestroyed ?_ ?_ ?_ ?_ ?_
  · rw [exact_count]
    change state.refCount - 1 =
      state.references + (state.calls.set i .testCount).countP Call.gives
    omega
  · rw [exact_count]
    change state.refCount - 1 < 2 ^ 31
    omega
  · exact ends ▸ alone
  · rw [ends]
    exact fun some_end => absurd (ending some_end).1 (by omega)
  · rw [leaves]
    exact fun _ => by omega

/-- A call of `Disreference` that finds references left. -/
theorem leave (there : state.calls[i]? = some .testCount) (positive : 0 < state.refCount) :
    Kept { state with calls := state.calls.set i .returned } := by
  obtain ⟨alone, ending, alive⟩ := kept.counts undestroyed
  have gives := countP_set_same Call.gives .returned there rfl
  have ends := countP_set_same Call.ends .returned there rfl
  refine kept_of_counts kept.untouched (kept.unfreed_of undestroyed) undestroyed
    (gives ▸ kept.counted) kept.fits (ends ▸ alone) (fun some_end => ?_) fun zero => ?_
  · rw [ends] at some_end
    exact absurd (ending some_end).1 positive.ne'
  · exact absurd zero positive.ne'

/-- A call of `Disreference` that finds the counter at zero. -/
theorem finish (there : state.calls[i]? = some .testCount) (zero : state.refCount ≤ 0)
    (only : state.calls.countP Call.leaves = 1) :
    Kept { state with calls := state.calls.set i .setStatus } := by
  have counted := kept.counted
  obtain ⟨alone, ending, alive⟩ := kept.counts undestroyed
  have gives := countP_set_same Call.gives .setStatus there rfl
  have leaves := countP_set_loss Call.leaves .setStatus there rfl rfl
  have ends := countP_set_gain Call.ends .setStatus there rfl rfl
  have nobody_ends : state.calls.countP Call.ends = 0 := by
    by_contra some_end
    exact absurd (ending (Nat.pos_of_ne_zero some_end)).2 (by omega)
  refine kept_of_counts kept.untouched (kept.unfreed_of undestroyed) undestroyed
    (gives ▸ counted) kept.fits ?_ (fun _ => ⟨?_, ?_⟩) fun _ => ?_
  · rw [ends, nobody_ends]
  · change state.refCount = 0
    omega
  · change (state.calls.set i .setStatus).countP Call.leaves = 0
    omega
  · rw [ends]
    omega

theorem destroy (there : state.calls[i]? = some .destroy)
    (nobody_takes : state.calls.countP Call.takes = 0) :
    Kept { state with
      refCount := 0, freed := true, destroys := state.destroys + 1,
      calls := state.calls.set i .returned } := by
  have counted := kept.counted
  obtain ⟨alone, ending, alive⟩ := kept.counts undestroyed
  have takes := countP_set_same Call.takes .returned there rfl
  have gives := countP_set_same Call.gives .returned there rfl
  have leaves := countP_set_same Call.leaves .returned there rfl
  have ends := countP_set_loss Call.ends .returned there rfl rfl
  have ended := ending (by omega)
  have no_ends : (state.calls.set i .returned).countP Call.ends = 0 := by omega
  have no_gives : state.calls.countP Call.gives = 0 := by omega
  have zero_lt_two_pow : (0 : ℤ) < 2 ^ 31 := by decide
  refine ⟨kept.untouched, iff_of_true rfl (Nat.succ_pos _), ?_, zero_lt_two_pow, ?_,
    fun _ => ⟨rfl, ?_⟩, fun _ call member => ?_, fun _ => Nat.succ_pos _⟩
  · change (0 : ℤ) = state.references + (state.calls.set i .returned).countP Call.gives
    omega
  · change (state.calls.set i .returned).countP Call.ends + (state.destroys + 1) ≤ 1
    omega
  · exact leaves.trans ended.2
  · have none_of {p : Call → Bool} (zero : (state.calls.set i .returned).countP p = 0) :
        p call = false := Bool.eq_false_iff.mpr (List.countP_eq_zero.mp zero call member)
    exact returned_of_idle (none_of (takes.trans nobody_takes)) (none_of (gives.trans no_gives))
      (none_of (leaves.trans ended.2)) (none_of no_ends)

end Steps

/-- A step of a call. -/
theorem advance (there : state.calls[i]? = some call)
    (proceeds : proceed call state = some (next, after)) (apart : call.Apart state) :
    Kept { after with
      calls := state.calls.set i next, touched := state.touched || state.freed } := by
  have undestroyed : state.destroys = 0 := kept.undestroyed there fun returned => by
    rw [returned] at proceeds
    cases proceeds
  have nobody_touches : (state.touched || state.freed) = state.touched := by
    rw [kept.unfreed_of undestroyed, Bool.or_false]
  rw [nobody_touches]
  cases call <;> cases proceeds
  case readStatus =>
    refine kept.keeps_counts undestroyed there ?_ ?_ ?_ state.status <;> split <;> rfl
  case readStatusAgain =>
    refine kept.keeps_counts undestroyed there ?_ ?_ ?_ state.status <;> split <;> rfl
  case readCount =>
    refine kept.keeps_counts undestroyed there ?_ ?_ ?_ state.status <;> split <;> rfl
  case inc => exact kept.inc undestroyed there apart.1 apart.2
  case dec => exact kept.dec undestroyed there
  case testCount =>
    split
    · rename_i zero
      exact kept.finish undestroyed there zero (apart zero)
    · rename_i positive
      exact kept.leave undestroyed there (not_le.mp positive)
  case setStatus =>
    exact kept.keeps_counts undestroyed there (rfl : Call.destroy.gives = _) rfl rfl .todestroy
  case destroy => exact kept.destroy undestroyed there apart

/-- Everything that happens. -/
theorem step {action : Action} (apart : Apart action state)
    (stepped : SharedObj.step action state = some after) : Kept after := by
  cases action with
  | reference =>
    cases stepped
    exact kept.reference apart
  | disreference =>
    rw [SharedObj.step] at stepped
    split at stepped
    · rename_i some_reference
      cases stepped
      exact kept.disreference some_reference
    · cases stepped
  | advance i =>
    obtain ⟨call, there, rest⟩ := Option.bind_eq_some_iff.mp stepped
    obtain ⟨⟨next, proceeded⟩, proceeds, made⟩ := Option.bind_eq_some_iff.mp rest
    cases made
    exact kept.advance there proceeds (apart call there)

/-- What the calls keep is what is expected of the object's end. -/
theorem diesOnce : DiesOnce state where
  untouched := kept.untouched
  once := Nat.le_trans (Nat.le_add_left _ _) kept.alone
  last gone := by
    have ended := (kept.ending (Nat.lt_of_lt_of_le gone (Nat.le_add_left _ _))).1
    have counted := kept.counted
    refine ⟨by omega, fun member => ?_⟩
    have returned := kept.settled gone _ member
    cases returned
  dies returned none_left := by
    have none_of {p : Call → Bool} (idle : p .returned = false) : state.calls.countP p = 0 :=
      List.countP_eq_zero.mpr fun call member => by rw [returned call member, idle]; decide
    have gives := none_of (p := Call.gives) rfl
    have leaves := none_of (p := Call.leaves) rfl
    have ends := none_of (p := Call.ends) rfl
    have counted := kept.counted
    have alone := kept.alone
    have alive := kept.alive (by omega)
    omega

end Kept

/-- As long as the steps of the calls on an object keep apart, the object dies once. -/
theorem diesOnce_of_apart (status : MessageEngineStatus) (actions : List Action)
    {state : State} (apart : Meets step Apart (created status) actions)
    (ran : runs step (created status) actions = some state) : DiesOnce state :=
  (runs_invariant (fun _ _ _ kept apart stepped => kept.step apart stepped)
    (kept_created status) apart ran).diesOnce

/-- A reference is taken, and then both are given back, one after the other. -/
def inTurn : List Action :=
  [.reference, .advance 0, .advance 0, .advance 0, .advance 0,
    .disreference, .advance 1, .advance 1,
    .disreference, .advance 2, .advance 2, .advance 2, .advance 2]

theorem diesOnce_inTurn : ∃ state, runs step (created .running) inTurn = some state ∧
    state.destroys = 1 ∧ DiesOnce state :=
  ⟨_, rfl, rfl, @diesOnce_of_apart .running inTurn _ (by decide) rfl⟩

/-- A reference is taken, and then two threads give one back each. Both decrement the counter
before either of them reads it. -/
def crossed : List Action :=
  [.reference, .advance 0, .advance 0, .advance 0, .advance 0,
    .disreference, .disreference, .advance 1, .advance 2, .advance 1, .advance 2,
    .advance 1, .advance 1, .advance 2, .advance 2]

/-- Both threads find the counter at zero. The second one destroys a freed object. -/
theorem crossed_destroy_twice : ∃ state, runs step (created .running) crossed = some state ∧
    state.touched = true ∧ state.destroys = 2 ∧ ¬ DiesOnce state := by
  refine ⟨_, rfl, rfl, rfl, fun dies => ?_⟩
  cases dies.untouched

end Hdf.Wifi.SharedObj
