import Hdf.Lib.Runs

/-!
# Stopping a flow control worker

A worker and the thread that ends it write the same status word. The worker stores that
it waits, waits for the semaphore, tests whether it is to stop, stores that it runs and
makes one pass over its queues. The destroyer stores that the worker is to stop, posts
the semaphore, looks for the end of the worker a bounded number of times and then frees
the module, whether the worker has ended or not.

Destroying a thread releases what belongs to it; a thread that still runs is not ended
by it.

## Main results

* `Kept.step`: what one step preserves
* `stops_of_seen`: under these schedules the worker leaves its loop, and in time
* `stop_overwritten`: schedules under which it does not
-/

namespace Hdf.Wifi.FlowControlStop

/-- `FcThreadStatus`. -/
inductive FcThreadStatus
  | initFail | initSuccess | starting | waiting | running | stopping | stopped | destroyed
  deriving DecidableEq, Repr

/-- The value of a status. -/
def FcThreadStatus.toNat : FcThreadStatus → ℕ
  | initFail => 0
  | initSuccess => 1
  | starting => 2
  | waiting => 3
  | running => 4
  | stopping => 5
  | stopped => 6
  | destroyed => 7

/-- `IsFcThreadNeedStop`. -/
def isFcThreadNeedStop (threadStatus : FcThreadStatus) : Bool :=
  FcThreadStatus.running.toNat < threadStatus.toNat

/-- `MAX_EXIT_THREAD_COUNT`. -/
def maxExitThreadCount : ℕ := 10

/-- What `RunWiFiFlowControl` does next: store a status, wait for the semaphore, test the
status, or make its pass. -/
inductive Worker
  | storeStarting | storeWaiting | semWait | testStop | storeRunning | process | storeStopped
  | exited
  deriving DecidableEq, Repr

/-- What the thread does next that has created the worker and ends it: the last assignment of
`CreateFlowControlTask`, nothing yet, `DestroyTask` with its polls, and the rest of
`DeInitFlowControl`. -/
inductive Destroyer
  | storeInitSuccess | ready | testStatus | storeStopping | post | poll (count : ℕ)
  | storeDestroyed | free | done
  deriving DecidableEq, Repr

/-- The two threads and what they share. Whether the stop is posted, the passes that the worker
has begun and the steps that it has made since, and whether it has touched the module after
it was freed are kept beside them. -/
structure State where
  threadStatus : FcThreadStatus
  sem : ℕ
  worker : Worker
  destroyer : Destroyer
  freed : Bool
  posted : Bool
  begun : ℕ
  steps : ℕ
  touched : Bool
  deriving DecidableEq, Repr

/-- The module is cleared and the worker just started. -/
def start : State where
  threadStatus := .initFail
  sem := 0
  worker := .storeStarting
  destroyer := .storeInitSuccess
  freed := false
  posted := false
  begun := 0
  steps := 0
  touched := false

/-- Who makes a step. The wait for the semaphore may fail. -/
inductive Act
  | worker (waits : Bool)
  | schedule
  | destroyer
  deriving DecidableEq, Repr

/-- A step of `RunWiFiFlowControl`. -/
def workerStep (waits : Bool) (s : State) : Option State :=
  let s := { s with touched := s.touched || s.freed, steps := s.steps + s.posted.toNat }
  match s.worker with
  | .storeStarting => some { s with threadStatus := .starting, worker := .storeWaiting }
  | .storeWaiting => some { s with threadStatus := .waiting, worker := .semWait }
  | .semWait =>
    if waits then
      if s.sem = 0 then none
      else some { s with sem := s.sem - 1, worker := .testStop }
    else some { s with worker := .storeWaiting }
  | .testStop =>
    if isFcThreadNeedStop s.threadStatus then some { s with worker := .storeStopped }
    else some { s with worker := .storeRunning }
  | .storeRunning =>
    some { s with
      threadStatus := .running
      worker := .process
      begun := s.begun + s.posted.toNat }
  | .process => some { s with worker := .storeWaiting }
  | .storeStopped => some { s with threadStatus := .stopped, worker := .exited }
  | .exited => none

/-- A step of the thread that ends the worker. -/
def destroyerStep (s : State) : Option State :=
  match s.destroyer with
  | .storeInitSuccess => some { s with threadStatus := .initSuccess, destroyer := .ready }
  | .ready => some { s with destroyer := .testStatus }
  | .testStatus =>
    if s.threadStatus = .initFail ∨ s.threadStatus = .destroyed then
      some { s with destroyer := .free }
    else some { s with destroyer := .storeStopping }
  | .storeStopping => some { s with threadStatus := .stopping, destroyer := .post }
  | .post => some { s with sem := s.sem + 1, posted := true, destroyer := .poll 0 }
  | .poll count =>
    if s.threadStatus ≠ .stopped ∧ count < maxExitThreadCount then
      some { s with destroyer := .poll (count + 1) }
    else some { s with destroyer := .storeDestroyed }
  | .storeDestroyed => some { s with threadStatus := .destroyed, destroyer := .free }
  | .free => some { s with freed := true, destroyer := .done }
  | .done => none

/-- One step of a thread, or of a caller of `SchedTransfer`. -/
def step : Act → State → Option State
  | .worker waits, s => workerStep waits s
  | .schedule, s => if s.freed then none else some { s with sem := s.sem + 1 }
  | .destroyer, s => destroyerStep s

/-- What is owed: once the stop is posted, the worker begins no other pass, makes at most the
five steps from its pass to its end and, left alone, gets there; and it does not touch the
module after it was freed. -/
structure Stops (s : State) : Prop where
  noPass : s.begun = 0
  soon : s.steps ≤ 5
  leaves : s.posted = true → ∃ n t, runs step s (List.replicate n (.worker true)) = some t ∧
    t.worker = .exited ∧ t.begun = 0
  notTouched : s.touched = false

/-- The stop is stored while the worker waits or is about to test for it, the wait does not fail
from then on, and the destroyer does not give up before the worker has ended. -/
def Seen (act : Act) (s : State) : Prop :=
  (act = .destroyer → s.destroyer = .storeStopping →
    s.worker = .semWait ∨ s.worker = .testStop) ∧
  (act = .worker false → s.threadStatus = .stopping → s.worker ≠ .semWait) ∧
  (act = .destroyer → s.destroyer = .poll maxExitThreadCount → s.threadStatus = .stopped)

instance {act : Act} {s : State} : Decidable (Seen act s) := by
  unfold Seen
  infer_instance

/-! ## Schedules under which the stop is seen -/

/-- The steps from a place to the end of the worker, where it does not go round again. -/
def Worker.left : Worker → ℕ
  | semWait => 3
  | testStop => 2
  | storeStopped => 1
  | _ => 0

/-- The state of a run whose steps are seen. -/
inductive Kept (s : State) : Prop
  /-- Nobody has asked the worker to stop. -/
  | running
      (early : s.destroyer = .storeInitSuccess ∨ s.threadStatus ≠ .initFail ∧
        (s.destroyer = .ready ∨ s.destroyer = .testStatus ∨ s.destroyer = .storeStopping))
      (works : s.worker ≠ .storeStopped ∧ s.worker ≠ .exited)
      (status : isFcThreadNeedStop s.threadStatus = false)
      (fresh : s.freed = false ∧ s.posted = false ∧ s.begun = 0 ∧ s.steps = 0 ∧ s.touched = false)
  /-- The worker is on its way out. -/
  | stopping
      (asked : s.destroyer = .post ∧ s.posted = false ∧ s.steps = 0 ∨
        ∃ count, s.destroyer = .poll count ∧ count ≤ maxExitThreadCount ∧ s.posted = true)
      (status : (s.worker = .semWait ∨ s.worker = .testStop ∨ s.worker = .storeStopped) ∧
          s.threadStatus = .stopping ∨ s.worker = .exited ∧ s.threadStatus = .stopped)
      (wakes : s.posted = true → s.worker = .semWait → 0 < s.sem)
      (soon : s.steps + s.worker.left ≤ 3)
      (fresh : s.freed = false ∧ s.begun = 0 ∧ s.touched = false)
  /-- The worker has ended. -/
  | ended (exited : s.worker = .exited)
      (late : s.destroyer = .storeDestroyed ∨ s.destroyer = .free ∨ s.destroyer = .done)
      (fresh : s.begun = 0 ∧ s.steps ≤ 3 ∧ s.touched = false)

variable {s t : State} {act : Act}

theorem kept_start : Kept start :=
  .running (.inl rfl) ⟨by decide, by decide⟩ rfl ⟨rfl, rfl, rfl, rfl, rfl⟩

/-- A step of the worker. -/
theorem Kept.workerStep {waits : Bool} (kept : Kept s) (seen : Seen (.worker waits) s)
    (stepped : workerStep waits s = some t) : Kept t := by
  obtain ⟨threadStatus, sem, worker, destroyer, freed, posted, begun, steps, touched⟩ := s
  cases kept with
  | running early works status fresh =>
    obtain ⟨rfl, rfl, rfl, rfl, rfl⟩ := fresh
    cases worker with
    | storeStarting | storeWaiting | storeRunning =>
      obtain rfl := Option.some.inj stepped
      exact .running (early.imp_right fun late => ⟨by simp, late.2⟩) ⟨by simp, by simp⟩ rfl
        ⟨rfl, rfl, rfl, rfl, rfl⟩
    | process =>
      obtain rfl := Option.some.inj stepped
      exact .running early ⟨by simp, by simp⟩ status ⟨rfl, rfl, rfl, rfl, rfl⟩
    | semWait =>
      cases waits with
      | false =>
        obtain rfl := Option.some.inj stepped
        exact .running early ⟨by simp, by simp⟩ status ⟨rfl, rfl, rfl, rfl, rfl⟩
      | true =>
        obtain ⟨-, rfl⟩ := by simpa [FlowControlStop.workerStep] using stepped
        exact .running early ⟨by simp, by simp⟩ status ⟨rfl, rfl, rfl, rfl, rfl⟩
    | testStop =>
      simp only [FlowControlStop.workerStep, status] at stepped
      obtain rfl := Option.some.inj stepped
      exact .running early ⟨by simp, by simp⟩ status ⟨rfl, rfl, rfl, rfl, rfl⟩
    | storeStopped => exact absurd rfl works.1
    | exited => exact absurd rfl works.2
  | stopping asked status wakes soon fresh =>
    obtain ⟨rfl, rfl, rfl⟩ := fresh
    -- a step counts only after the post, and the way to the end is one step shorter
    have asked' : destroyer = .post ∧ posted = false ∧ steps + posted.toNat = 0 ∨
        ∃ count, destroyer = .poll count ∧ count ≤ maxExitThreadCount ∧ posted = true := by
      refine asked.imp_left ?_
      rintro ⟨post, rfl, rfl⟩
      exact ⟨post, rfl, rfl⟩
    have counted : posted.toNat ≤ 1 := Bool.toNat_le posted
    rcases status with ⟨rfl | rfl | rfl, rfl⟩ | ⟨rfl, rfl⟩
    · obtain rfl : waits = true := by
        by_contra fails
        exact seen.2.1 (by simpa using fails) rfl rfl
      obtain ⟨-, rfl⟩ := by simpa [FlowControlStop.workerStep] using stepped
      refine .stopping asked' (.inl ⟨.inr (.inl rfl), rfl⟩) (by simp) ?_ ⟨rfl, rfl, rfl⟩
      simp only [Worker.left] at soon ⊢
      omega
    · obtain rfl := Option.some.inj stepped
      refine .stopping asked' (.inl ⟨.inr (.inr rfl), rfl⟩) (by simp) ?_ ⟨rfl, rfl, rfl⟩
      simp only [Worker.left] at soon ⊢
      omega
    · obtain rfl := Option.some.inj stepped
      refine .stopping asked' (.inr ⟨rfl, rfl⟩) (by simp) ?_ ⟨rfl, rfl, rfl⟩
      simp only [Worker.left] at soon ⊢
      omega
    · simp [FlowControlStop.workerStep] at stepped
  | ended exited late fresh =>
    obtain rfl := exited
    simp [FlowControlStop.workerStep] at stepped

/-- A step of the destroyer. -/
theorem Kept.destroyerStep (kept : Kept s) (seen : Seen .destroyer s)
    (stepped : destroyerStep s = some t) : Kept t := by
  obtain ⟨threadStatus, sem, worker, destroyer, freed, posted, begun, steps, touched⟩ := s
  cases kept with
  | running early works status fresh =>
    obtain ⟨rfl, rfl, rfl, rfl, rfl⟩ := fresh
    rcases early with rfl | ⟨created, rfl | rfl | rfl⟩
    · obtain rfl := Option.some.inj stepped
      exact .running (.inr ⟨by simp, .inl rfl⟩) works rfl ⟨rfl, rfl, rfl, rfl, rfl⟩
    · obtain rfl := Option.some.inj stepped
      exact .running (.inr ⟨created, .inr (.inl rfl)⟩) works status ⟨rfl, rfl, rfl, rfl, rfl⟩
    · -- a thread that is created and need not stop is neither failed nor destroyed
      have alive : ¬ (threadStatus = .initFail ∨ threadStatus = .destroyed) := by
        rintro (rfl | rfl)
        · exact created rfl
        · exact absurd status (show ¬ isFcThreadNeedStop .destroyed = false by decide)
      simp only [FlowControlStop.destroyerStep, if_neg alive] at stepped
      obtain rfl := Option.some.inj stepped
      exact .running (.inr ⟨created, .inr (.inr rfl)⟩) works status ⟨rfl, rfl, rfl, rfl, rfl⟩
    · obtain rfl := Option.some.inj stepped
      -- the worker is seen before its test, so that it will see the status
      have waits : worker = .semWait ∨ worker = .testStop := seen.1 rfl rfl
      refine .stopping (.inl ⟨rfl, rfl, rfl⟩) (.inl ⟨waits.imp_right .inl, rfl⟩) (by simp) ?_
        ⟨rfl, rfl, rfl⟩
      rcases waits with rfl | rfl
      · exact Nat.le_refl 3
      · exact Nat.le_succ 2
  | stopping asked status wakes soon fresh =>
    obtain ⟨rfl, rfl, rfl⟩ := fresh
    rcases asked with ⟨rfl, rfl, rfl⟩ | ⟨count, rfl, few, rfl⟩
    · obtain rfl := Option.some.inj stepped
      exact .stopping (.inr ⟨0, rfl, Nat.zero_le _, rfl⟩) status (by simp) soon ⟨rfl, rfl, rfl⟩
    · simp only [FlowControlStop.destroyerStep] at stepped
      split_ifs at stepped with more
      · obtain rfl := Option.some.inj stepped
        exact .stopping (.inr ⟨count + 1, rfl, more.2, rfl⟩) status wakes soon ⟨rfl, rfl, rfl⟩
      · obtain rfl := Option.some.inj stepped
        -- the waiting ends early enough only if the worker has stored its status
        have stored : threadStatus = .stopped := by
          by_contra running
          have last : count = maxExitThreadCount := by
            exact Nat.le_antisymm few (Nat.not_lt.mp fun less => more ⟨running, less⟩)
          exact running (seen.2.2 rfl (congrArg _ last))
        obtain rfl := stored
        have exited : worker = .exited := by simpa using status
        exact .ended exited (.inl rfl) ⟨rfl, Nat.le_trans (Nat.le_add_right _ _) soon, rfl⟩
  | ended exited late fresh =>
    rcases late with rfl | rfl | rfl
    · obtain rfl := Option.some.inj stepped
      exact .ended exited (.inr (.inl rfl)) fresh
    · obtain rfl := Option.some.inj stepped
      exact .ended exited (.inr (.inr rfl)) fresh
    · simp [FlowControlStop.destroyerStep] at stepped

theorem Kept.step (kept : Kept s) (seen : Seen act s) (stepped : step act s = some t) : Kept t := by
  cases act with
  | worker waits => exact kept.workerStep seen stepped
  | destroyer => exact kept.destroyerStep seen stepped
  | schedule =>
    simp only [FlowControlStop.step] at stepped
    split_ifs at stepped
    obtain rfl := Option.some.inj stepped
    cases kept with
    | running early works status fresh => exact .running early works status fresh
    | stopping asked status wakes soon fresh =>
      exact .stopping asked status (fun _ _ => Nat.succ_pos _) soon fresh
    | ended exited late fresh => exact .ended exited late fresh

theorem Kept.stops (kept : Kept s) : Stops s := by
  cases kept with
  | running early works status fresh =>
    obtain ⟨-, notPosted, noPass, noStep, notTouched⟩ := fresh
    refine ⟨noPass, by omega, fun posted => ?_, notTouched⟩
    rw [notPosted] at posted
    exact absurd posted (by decide)
  | ended exited late fresh =>
    exact ⟨fresh.1, by omega, fun _ => ⟨0, s, rfl, exited, fresh.1⟩, fresh.2.2⟩
  | stopping asked status wakes soon fresh =>
    obtain ⟨threadStatus, sem, worker, destroyer, freed, posted, begun, steps, touched⟩ := s
    obtain ⟨rfl, rfl, rfl⟩ := fresh
    have few : steps ≤ 3 := Nat.le_trans (Nat.le_add_right _ _) soon
    refine ⟨rfl, Nat.le_trans few (by decide), ?_, rfl⟩
    rintro rfl
    rcases status with ⟨rfl | rfl | rfl, rfl⟩ | ⟨rfl, rfl⟩
    · obtain ⟨sem, rfl⟩ : ∃ n, sem = n + 1 := Nat.exists_eq_add_one.mpr (wakes rfl rfl)
      exact ⟨3, _, rfl, rfl, rfl⟩
    · exact ⟨2, _, rfl, rfl, rfl⟩
    · exact ⟨1, _, rfl, rfl, rfl⟩
    · exact ⟨0, _, rfl, rfl, rfl⟩

/-- In every run whose steps are seen the worker leaves its loop once the stop is posted, and
does not touch the module after it was freed. -/
theorem stops_of_seen {acts : List Act} (seen : Meets step Seen start acts)
    (ran : runs step start acts = some s) : Stops s :=
  (runs_invariant (fun _ _ _ kept seen stepped => Kept.step kept seen stepped) kept_start seen
    ran).stops

/-- A worker that waits when the stop is stored. -/
theorem stops_of_seen_waiting :
    ∃ s, runs step start [.destroyer, .worker true, .worker true, .destroyer, .destroyer,
      .destroyer, .destroyer, .worker true, .worker true, .worker true, .destroyer, .destroyer,
      .destroyer] = some s ∧ Stops s := by
  have seen : Meets step Seen start [.destroyer, .worker true, .worker true, .destroyer,
      .destroyer, .destroyer, .destroyer, .worker true, .worker true, .worker true, .destroyer,
      .destroyer, .destroyer] := by
    decide +kernel
  exact ⟨_, rfl, stops_of_seen seen rfl⟩

/-- The stop is stored while the worker makes a pass: the worker overwrites it, is woken by the
post and begins another pass. Where that pass lasts, the module is freed under it. -/
theorem stop_overwritten :
    (∃ s, runs step start [.destroyer, .worker true, .worker true, .schedule, .worker true,
      .worker true, .worker true, .destroyer, .destroyer, .destroyer, .destroyer, .worker true,
      .worker true, .worker true, .worker true, .worker true] = some s ∧
      s.begun = 1 ∧ ¬ Stops s) ∧
    ∃ s, runs step start ([.destroyer, .worker true, .worker true, .schedule, .worker true,
      .worker true, .worker true] ++ List.replicate 17 .destroyer ++ [.worker true]) = some s ∧
      s.touched = true ∧ ¬ Stops s := by
  refine ⟨⟨_, rfl, rfl, fun stops => ?_⟩, _, rfl, rfl, fun stops => ?_⟩
  · exact absurd stops.noPass (show ¬ 1 = 0 by decide)
  · exact absurd stops.notTouched (show ¬ true = false by decide)

end Hdf.Wifi.FlowControlStop
