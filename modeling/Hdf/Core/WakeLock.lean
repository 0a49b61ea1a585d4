import Hdf.Core.PowerState
import Mathlib.Data.List.Chain

/-!
# Wake locks

A driver in dynamic mode takes and gives back wake locks of its power token. The
token counts them with a reference counter, wakes the device up with the first lock
and lets it sleep with the last one. A release without a lock is treated like the
last one.

The counter is an `int32_t` without a check, and a callback that the listener does
not have is passed over.

## Main results

* `protocol_step`, `wakeLocks_protocol`: what holds after every call
* `protocol_broken`: a listener without `Suspend`, and more locks than can be counted
-/

namespace Hdf.Core.WakeLock

open PowerState (IPowerEventListener PowerManagementMode)

/-- `enum PsmState`. -/
inductive PsmState where
  | idle | active | inactive
  deriving DecidableEq, Repr

/-- The callbacks of a listener that wake locks run. -/
inductive Callback where
  | resume | suspend
  deriving DecidableEq, Repr

/-- `struct PowerStateToken`, with the counter of its `wakeRef`. -/
structure PowerStateToken where
  psmState : PsmState
  mode : PowerManagementMode
  listener : Option IPowerEventListener
  wakeRef : Int32
  deriving DecidableEq, Repr

/-- The token after a call and the callbacks that have been run. -/
abbrev Called := PowerStateToken × List Callback

/-! ### The reference counter -/

/-- `HdfSRefAcquire`: the counter, and whether this was the first lock. -/
def hdfSRefAcquire (refs : Int32) : Int32 × Bool :=
  let refs := refs + 1
  (refs, refs = 1)

/-- `HdfSRefRelease`: the counter, and whether this was the last lock. -/
def hdfSRefRelease (refs : Int32) : Int32 × Bool :=
  let refs := refs - 1
  (refs, refs = 0)

/-! ### The token -/

/-- `PowerStateTokenOnFirstAcquire`. -/
def onFirstAcquire (stateToken : PowerStateToken) : Called :=
  if stateToken.psmState = .active then (stateToken, [])
  else
    let callbacks :=
      if stateToken.psmState = .inactive ∨ stateToken.psmState = .idle then
        if stateToken.listener.any IPowerEventListener.resume then [.resume] else []
      else []
    ({ stateToken with psmState := .active }, callbacks)

/-- `PowerStateTokenOnLastRelease`. -/
def onLastRelease (stateToken : PowerStateToken) : Called :=
  if stateToken.psmState ≠ .active ∧ stateToken.psmState ≠ .idle then (stateToken, [])
  else
    ({ stateToken with psmState := .inactive },
      if stateToken.listener.any IPowerEventListener.suspend then [.suspend] else [])

/-- `PowerStateTokenAcquireWakeLock`. -/
def acquireWakeLock (stateToken : PowerStateToken) : Called :=
  if stateToken.mode ≠ .dynamicCtrl then (stateToken, [])
  else
    let (refs, first) := hdfSRefAcquire stateToken.wakeRef
    let stateToken := { stateToken with wakeRef := refs }
    if first then onFirstAcquire stateToken else (stateToken, [])

/-- `PowerStateTokenReleaseWakeLock`. -/
def releaseWakeLock (stateToken : PowerStateToken) : Called :=
  if stateToken.mode ≠ .dynamicCtrl then (stateToken, [])
  else if stateToken.wakeRef = 0 then onLastRelease stateToken
  else
    let (refs, last) := hdfSRefRelease stateToken.wakeRef
    let stateToken := { stateToken with wakeRef := refs }
    if last then onLastRelease stateToken else (stateToken, [])

/-- `PowerStateTokenConstruct`, for a token in some mode. -/
def construct (mode : PowerManagementMode) (listener : Option IPowerEventListener) :
    PowerStateToken where
  psmState := .idle
  mode := mode
  listener := listener
  wakeRef := 0

/-! ### Sequences of calls -/

/-- A call to the token. -/
inductive Call where
  | acquire | release
  deriving DecidableEq, Repr

/-- One more call. -/
def Called.call (before : Called) (call : Call) : Called :=
  let (token, callbacks) := match call with
    | .acquire => acquireWakeLock before.1
    | .release => releaseWakeLock before.1
  (token, before.2 ++ callbacks)

/-- A new token in dynamic mode after a sequence of calls. -/
def afterCalls (listener : Option IPowerEventListener) (calls : List Call) : Called :=
  calls.foldl Called.call (construct .dynamicCtrl listener, [])

/-- One more call, for the number of acquires that are not matched. -/
def Call.settle (n : ℕ) : Call → ℕ
  | .acquire => n + 1
  | .release => n - 1

/-- The number of acquires that have not been matched by a release. -/
def unmatched (calls : List Call) : ℕ := calls.foldl Call.settle 0

/-- The listener has the two callbacks. -/
def Complete (listener : Option IPowerEventListener) : Prop :=
  ∃ l, listener = some l ∧ l.resume = true ∧ l.suspend = true

/-- The state follows the number of locks, and so do the callbacks of a complete listener. -/
structure Protocol (calls : List Call) (after : Called) : Prop where
  count : after.1.wakeRef.toInt = unmatched calls
  active : 0 < unmatched calls → after.1.psmState = .active
  inactive : unmatched calls = 0 → calls ≠ [] → after.1.psmState = .inactive
  alternate : Complete after.1.listener → after.2.IsChain (· ≠ ·)
  resumed : Complete after.1.listener → 0 < unmatched calls → after.2.getLast? = some .resume

/-! ### What one call does -/

/-- The state of a token that has some locks, and the last callback. -/
inductive Phase (locks : ℕ) (listener : Option IPowerEventListener) :
    PsmState → List Callback → Prop
  | idle (free : locks = 0) : Phase locks listener .idle []
  | active {callbacks : List Callback} (held : 0 < locks)
    (last : Complete listener → callbacks.getLast? = some .resume) :
    Phase locks listener .active callbacks
  | inactive {callbacks : List Callback} (free : locks = 0)
    (last : Complete listener → callbacks.getLast? = some .suspend) :
    Phase locks listener .inactive callbacks

/-- What every call keeps of a token. -/
structure Kept (listener : Option IPowerEventListener) (locks : ℕ) (after : Called) : Prop where
  mode : after.1.mode = .dynamicCtrl
  same : after.1.listener = listener
  bound : locks < 2 ^ 31
  count : after.1.wakeRef = .ofNat locks
  phase : Phase locks listener after.1.psmState after.2
  alternate : Complete listener → after.2.IsChain (· ≠ ·)

section

variable {listener : Option IPowerEventListener} {locks n : ℕ} {token : PowerStateToken}
  {callbacks : List Callback} {c : Callback}

theorem ofNat_eq_iff {m : ℕ} (small : n < 2 ^ 31) (small' : m < 2 ^ 31) :
    Int32.ofNat n = Int32.ofNat m ↔ n = m := by
  rw [← Int32.toInt_inj, Int32.toInt_ofNat_of_lt small, Int32.toInt_ofNat_of_lt small']
  omega

/-- A token with locks is active. -/
theorem Phase.of_held {state : PsmState} (phase : Phase locks listener state callbacks)
    (held : 0 < locks) :
    state = .active ∧ (Complete listener → callbacks.getLast? = some .resume) := by
  cases phase with
  | idle free => exact absurd free held.ne'
  | active _ last => exact ⟨rfl, last⟩
  | inactive free => exact absurd free held.ne'

/-- A callback that differs from the last one. -/
theorem isChain_add (chain : callbacks.IsChain (· ≠ ·)) (last : callbacks.getLast? ≠ some c) :
    (callbacks ++ [c]).IsChain (· ≠ ·) := by
  refine List.isChain_append.mpr
    ⟨chain, List.isChain_singleton c, fun x is_last y is_first => ?_⟩
  cases is_first
  rintro rfl
  exact last is_last

theorem onFirstAcquire_eq (asleep : token.psmState ≠ .active) : onFirstAcquire token =
    ({ token with psmState := .active },
      if token.listener.any IPowerEventListener.resume then [.resume] else []) := by
  rw [onFirstAcquire, if_neg asleep]
  cases state : token.psmState with
  | active => exact absurd state asleep
  | idle | inactive => rfl

theorem onLastRelease_eq (awake : token.psmState ≠ .inactive) : onLastRelease token =
    ({ token with psmState := .inactive },
      if token.listener.any IPowerEventListener.suspend then [.suspend] else []) := by
  rw [onLastRelease, if_neg]
  cases state : token.psmState with
  | inactive => exact absurd state awake
  | active | idle => simp

theorem resume_of_complete (complete : Complete listener) :
    listener.any IPowerEventListener.resume = true := by
  obtain ⟨l, rfl, resume, -⟩ := complete
  exact resume

theorem suspend_of_complete (complete : Complete listener) :
    listener.any IPowerEventListener.suspend = true := by
  obtain ⟨l, rfl, -, suspend⟩ := complete
  exact suspend

/-- One more lock, or one less, in the counter. -/
theorem ofNat_succ (n : ℕ) : Int32.ofNat n + 1 = Int32.ofNat (n + 1) := (Int32.ofNat_add n 1).symm

theorem ofNat_pred (n : ℕ) : Int32.ofNat (n + 1) - 1 = Int32.ofNat n := by
  rw [← ofNat_succ, Int32.add_sub_cancel]

/-- Waking the device up with the first lock. -/
theorem kept_of_wake (mode : token.mode = .dynamicCtrl) (same : token.listener = listener)
    (count : token.wakeRef = .ofNat 1) (phase : Phase 0 listener token.psmState callbacks)
    (alternate : Complete listener → callbacks.IsChain (· ≠ ·)) :
    Kept listener 1 ((onFirstAcquire token).1, callbacks ++ (onFirstAcquire token).2) := by
  subst same
  have asleep : token.psmState ≠ .active ∧
      (Complete token.listener → callbacks.getLast? ≠ some .resume) := by
    generalize token.psmState = state at phase
    cases phase with
    | idle => simp
    | active held => exact absurd held (lt_irrefl 0)
    | inactive free last => exact ⟨by simp, fun complete => by simp [last complete]⟩
  rw [onFirstAcquire_eq asleep.1]
  refine ⟨mode, rfl, by norm_num, count, .active one_pos fun complete => ?_, fun complete => ?_⟩
  · rw [if_pos (resume_of_complete complete), List.getLast?_concat]
  · dsimp only
    rw [if_pos (resume_of_complete complete)]
    exact isChain_add (alternate complete) (asleep.2 complete)

/-- Letting the device sleep, with the last lock or without one. -/
theorem kept_of_sleep (mode : token.mode = .dynamicCtrl) (same : token.listener = listener)
    (count : token.wakeRef = .ofNat 0) (phase : Phase locks listener token.psmState callbacks)
    (alternate : Complete listener → callbacks.IsChain (· ≠ ·)) :
    Kept listener 0 ((onLastRelease token).1, callbacks ++ (onLastRelease token).2) ∧
      (onLastRelease token).1.psmState = .inactive := by
  subst same
  by_cases asleep : token.psmState = .inactive
  · rw [onLastRelease, if_pos (by simp [asleep]), List.append_nil]
    rw [asleep] at phase
    cases phase with
    | inactive free last =>
      exact ⟨⟨mode, rfl, by norm_num, count, asleep ▸ .inactive rfl last, alternate⟩, asleep⟩
  · have last : Complete token.listener → callbacks.getLast? ≠ some .suspend := by
      intro complete
      generalize token.psmState = state at phase asleep
      cases phase with
      | idle => simp
      | active held last => simp [last complete]
      | inactive => exact absurd rfl asleep
    rw [onLastRelease_eq asleep]
    refine ⟨⟨mode, rfl, by norm_num, count, .inactive rfl fun complete => ?_,
      fun complete => ?_⟩, rfl⟩
    · rw [if_pos (suspend_of_complete complete), List.getLast?_concat]
    · dsimp only
      rw [if_pos (suspend_of_complete complete)]
      exact isChain_add (alternate complete) (last complete)

/-- An acquire while there is room in the counter. -/
theorem Kept.acquire (kept : Kept listener locks (token, callbacks))
    (room : locks + 1 < 2 ^ 31) :
    Kept listener (locks + 1) (Called.call (token, callbacks) .acquire) := by
  obtain ⟨mode, same, -, count, phase, alternate⟩ := kept
  dsimp only at mode same count phase alternate
  have first : Int32.ofNat (locks + 1) = 1 ↔ locks = 0 :=
    (ofNat_eq_iff room (by norm_num : 1 < 2 ^ 31)).trans (by omega)
  rw [Called.call]
  dsimp only
  rw [acquireWakeLock, if_neg (by simp [mode]), hdfSRefAcquire, count, ofNat_succ]
  dsimp only
  by_cases none_held : locks = 0
  · rw [if_pos (decide_eq_true (first.mpr none_held))]
    subst none_held
    exact kept_of_wake mode same rfl phase alternate
  · rw [if_neg (by rwa [decide_eq_true_iff, first]), List.append_nil]
    obtain ⟨active, last⟩ := phase.of_held (Nat.pos_of_ne_zero none_held)
    exact ⟨mode, same, room, rfl, active ▸ .active (Nat.succ_pos _) last, alternate⟩

/-- A release, with or without a lock. -/
theorem Kept.release (kept : Kept listener locks (token, callbacks)) :
    Kept listener (locks - 1) (Called.call (token, callbacks) .release) ∧
      (locks - 1 = 0 → (Called.call (token, callbacks) .release).1.psmState = .inactive) := by
  obtain ⟨mode, same, bound, count, phase, alternate⟩ := kept
  dsimp only at mode same bound count phase alternate
  have zero {n : ℕ} (small : n < 2 ^ 31) : Int32.ofNat n = 0 ↔ n = 0 :=
    ofNat_eq_iff small (by norm_num : 0 < 2 ^ 31)
  rw [Called.call]
  dsimp only
  rw [releaseWakeLock, if_neg (by simp [mode])]
  cases locks with
  | zero =>
    rw [if_pos (show token.wakeRef = 0 from count)]
    obtain ⟨kept, asleep⟩ := kept_of_sleep mode same count phase alternate
    exact ⟨kept, fun _ => asleep⟩
  | succ locks =>
    rw [count, if_neg (by rw [zero bound]; omega), hdfSRefRelease, ofNat_pred]
    dsimp only
    have zero := zero (show locks < 2 ^ 31 by omega)
    by_cases last : locks = 0
    · rw [if_pos (decide_eq_true (zero.mpr last))]
      subst last
      obtain ⟨kept, asleep⟩ := @kept_of_sleep listener 1 { token with wakeRef := .ofNat 0 }
        callbacks mode same rfl phase alternate
      exact ⟨kept, fun _ => asleep⟩
    · rw [if_neg (by rwa [decide_eq_true_iff, zero]), List.append_nil]
      obtain ⟨active, still⟩ := phase.of_held (Nat.succ_pos _)
      refine ⟨⟨mode, same, by omega, rfl, ?_, alternate⟩, by omega⟩
      exact active ▸ .active (Nat.pos_of_ne_zero last) still

/-! ### Runs -/

/-- The locks never use up the counter. -/
def Countable (calls : List Call) : Prop := ∀ k, unmatched (calls.take k) < 2 ^ 31

theorem afterCalls_concat (calls : List Call) (call : Call) :
    afterCalls listener (calls ++ [call]) = (afterCalls listener calls).call call := by
  rw [afterCalls, List.foldl_append]
  rfl

theorem unmatched_concat (calls : List Call) (call : Call) :
    unmatched (calls ++ [call]) = call.settle (unmatched calls) := by
  rw [unmatched, List.foldl_append]
  rfl

theorem Countable.before {calls : List Call} {call : Call}
    (countable : Countable (calls ++ [call])) : Countable calls := by
  intro k
  have fits := countable (min k calls.length)
  rwa [List.take_append_of_le_length (min_le_right _ _), ← List.take_take,
    List.take_length] at fits

theorem kept_afterCalls (listener : Option IPowerEventListener) {calls : List Call}
    (countable : Countable calls) :
    Kept listener (unmatched calls) (afterCalls listener calls) ∧
      (unmatched calls = 0 → calls ≠ [] →
        (afterCalls listener calls).1.psmState = .inactive) := by
  induction calls using List.reverseRecOn with
  | nil =>
    exact ⟨⟨rfl, rfl, by norm_num [unmatched], rfl, .idle rfl,
      fun _ => List.isChain_nil⟩, by simp⟩
  | append_singleton calls call ih =>
    obtain ⟨kept, -⟩ := ih countable.before
    have room := countable (calls ++ [call]).length
    rw [List.take_length, unmatched_concat] at room
    rw [afterCalls_concat, unmatched_concat]
    cases call with
    | acquire =>
      exact ⟨kept.acquire room, fun none_held => absurd none_held (Nat.succ_ne_zero _)⟩
    | release =>
      obtain ⟨kept, asleep⟩ := kept.release
      exact ⟨kept, fun free _ => asleep free⟩

/-- A token in dynamic mode follows its locks, as long as they can be counted. -/
theorem wakeLocks_protocol (listener : Option IPowerEventListener) (calls : List Call)
    (countable : Countable calls) : Protocol calls (afterCalls listener calls) := by
  obtain ⟨⟨-, same, bound, count, phase, alternate⟩, asleep⟩ :=
    kept_afterCalls listener countable
  refine ⟨?_, fun held => (phase.of_held held).1, asleep, same.symm ▸ alternate,
    fun complete held => (phase.of_held held).2 (same ▸ complete)⟩
  rw [count, Int32.toInt_ofNat_of_lt bound]

/-- Acquires are counted with 32 bits. -/
theorem wakeRef_acquires (listener : Option IPowerEventListener) (n : ℕ) :
    (afterCalls listener (List.replicate n .acquire)).1.wakeRef = .ofNat n ∧
      (afterCalls listener (List.replicate n .acquire)).1.mode = .dynamicCtrl := by
  have counts (token : PowerStateToken) (mode : token.mode = .dynamicCtrl) :
      (acquireWakeLock token).1.wakeRef = token.wakeRef + 1 ∧
        (acquireWakeLock token).1.mode = .dynamicCtrl := by
    rw [acquireWakeLock, if_neg (by simp [mode]), hdfSRefAcquire]
    dsimp only
    split
    · rw [onFirstAcquire]
      split
      · exact ⟨rfl, mode⟩
      · exact ⟨rfl, mode⟩
    · exact ⟨rfl, mode⟩
  induction n with
  | zero => exact ⟨rfl, rfl⟩
  | succ n ih =>
    obtain ⟨count, mode⟩ := counts _ ih.2
    rw [List.replicate_succ', afterCalls_concat]
    exact ⟨by rw [← ofNat_succ, ← ih.1]; exact count, mode⟩

end

/-! ### Examples -/

theorem protocol_twoReleases : Protocol [.acquire, .release, .release]
    (afterCalls (some ⟨true, true, true, true⟩) [.acquire, .release, .release]) :=
  wakeLocks_protocol _ _ fun k => by
    rcases k with _ | _ | _ | k <;> simp [unmatched, Call.settle]

/-- Without `Suspend`, the device is resumed twice in a row. With `2 ^ 31` locks the counter is
negative. -/
theorem protocol_broken :
    (afterCalls (some ⟨true, true, true, false⟩) [.acquire, .release, .acquire]).2 =
        [.resume, .resume] ∧
      ¬ [Callback.resume, .resume].IsChain (· ≠ ·) ∧
      (afterCalls (some ⟨true, true, true, true⟩)
        (List.replicate (2 ^ 31) .acquire)).1.wakeRef.toInt < 0 := by
  refine ⟨by decide, by simp, ?_⟩
  rw [(wakeRef_acquires _ _).1]
  decide

end Hdf.Core.WakeLock
