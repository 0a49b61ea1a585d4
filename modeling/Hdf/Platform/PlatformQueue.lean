import Hdf.Core.Base
import Hdf.Lib.Runs
import Hdf.Lib.Threads

/-!
# The life of a message queue with a worker

A platform queue is served by a thread of its own. One flag says both that the
queue has been started and that it is not to be destroyed: a worker that is woken
up while the flag is not set frees the queue.

Messages are numbered in the order in which they are put into the list. Accesses
to the flag, to the semaphore and to the list are steps of their own; a step that
comes to the queue after it has been freed is noted.

## Main definitions

* `State`, `step`: a queue, its worker and the calls, and their steps in any order
* `LifeCycle`: messages are handled once and in order, and the queue is freed once
* `Orderly`: the steps that do not misread the flag

## Main results

* `lifeCycle_of_runs`: the life cycle, if all steps are orderly
* `freed_while_starting`: a message before the start may have the queue freed
-/

namespace Hdf.Platform.Queue

open Hdf.Core Threads

/-- `struct PlatformQueue`; the messages are numbers. -/
structure PlatformQueue where
  start : Bool
  sem : ℕ
  msgs : List ℕ
  deriving DecidableEq, Repr

/-- What `PlatformQueueThreadWorker` does next. -/
inductive Worker where
  | unstarted | waits | checks | takes | handles (msg : ℕ) | stopped
  deriving DecidableEq, Repr

/-- What `PlatformQueueStart` does next. -/
inductive Starter where
  | idle | startsThread | setsStart | returned (ret : HdfStatus)
  deriving DecidableEq, Repr

/-- What a call of `PlatformQueueAddMsg` does next. -/
inductive Adder where
  | inserts | posts | returned
  deriving DecidableEq, Repr

/-- What `PlatformQueueDestroy` does next. -/
inductive Destroyer where
  | idle | testsStart | clearsStart | posts | destroys | returned
  deriving DecidableEq, Repr

/-- A queue with its worker and the calls. Of the past there are the number of messages that
have been added, the messages that have been handled, the number of messages when
`PlatformQueueDestroy` was called, how often the queue has been freed, and whether it has been
used after that. -/
structure State where
  queue : PlatformQueue
  worker : Worker
  starter : Starter
  adders : List Adder
  destroyer : Destroyer
  added : ℕ
  handled : List ℕ
  begun : Option ℕ
  frees : ℕ
  touched : Bool
  deriving DecidableEq, Repr

/-- After `PlatformQueueCreate`. -/
def created : State where
  queue := { start := false, sem := 0, msgs := [] }
  worker := .unstarted
  starter := .idle
  adders := []
  destroyer := .idle
  added := 0
  handled := []
  begun := none
  frees := 0
  touched := false

/-- A step that uses the queue. -/
def State.touch (s : State) : State := { s with touched := s.touched || decide (0 < s.frees) }

/-- `PlatformQueueDoDestroy`. -/
def State.doDestroy (s : State) : State := { s.touch with frees := s.frees + 1 }

/-- The next step of `PlatformQueueStart`. Starting the thread may fail. -/
def stepStarter (succeeds : Bool) (s : State) : Option State :=
  match s.starter with
  | .startsThread =>
    if succeeds then some { s.touch with worker := .waits, starter := .setsStart }
    else some { s.touch with starter := .returned .failure }
  | .setsStart => some { s.touch with
      queue := { s.queue with start := true }
      starter := .returned .success }
  | .idle | .returned _ => none

/-- The next step of a call of `PlatformQueueAddMsg`. -/
def stepAdder (i : ℕ) (s : State) : Option State :=
  match s.adders[i]? with
  | some .inserts => some { s.touch with
      queue := { s.queue with msgs := s.queue.msgs ++ [s.added] }
      adders := s.adders.set i .posts
      added := s.added + 1 }
  | some .posts => some { s.touch with
      queue := { s.queue with sem := s.queue.sem + 1 }
      adders := s.adders.set i .returned }
  | some .returned | none => none

/-- The next step of `PlatformQueueDestroy`. -/
def stepDestroyer (s : State) : Option State :=
  match s.destroyer with
  | .testsStart =>
    some { s.touch with destroyer := if s.queue.start then .clearsStart else .destroys }
  | .clearsStart => some { s.touch with
      queue := { s.queue with start := false }
      destroyer := .posts }
  | .posts => some { s.touch with
      queue := { s.queue with sem := s.queue.sem + 1 }
      destroyer := .returned }
  | .destroys => some { s.doDestroy with destroyer := .returned }
  | .idle | .returned => none

/-- The next step of the worker, which may wait without success. -/
def stepWorker (succeeds : Bool) (s : State) : Option State :=
  match s.worker with
  | .waits =>
    if !succeeds then some s.touch
    else if 0 < s.queue.sem then some { s.touch with
      queue := { s.queue with sem := s.queue.sem - 1 }
      worker := .checks }
    else none
  | .checks =>
    if !s.queue.start then some { s.doDestroy with worker := .stopped }
    else some { s.touch with worker := .takes }
  | .takes =>
    match s.queue.msgs with
    | [] => some { s.touch with worker := .waits }
    | msg :: rest => some { s.touch with
        queue := { s.queue with msgs := rest }
        worker := .handles msg }
  | .handles msg => some { s.touch with handled := s.handled ++ [msg], worker := .waits }
  | .unstarted | .stopped => none

/-- What happens next: a call, or the next step of someone. -/
inductive Action where
  | start | addMsg | destroy
  | starter (succeeds : Bool) | adder (i : ℕ) | destroyer | worker (succeeds : Bool)
  deriving DecidableEq, Repr

/-- One step. The queue is started once and destroyed once. -/
def step (action : Action) (s : State) : Option State :=
  match action with
  | .start => if s.starter = .idle then some { s with starter := .startsThread } else none
  | .addMsg => some { s with adders := s.adders ++ [.inserts] }
  | .destroy =>
    if s.destroyer = .idle then some { s with destroyer := .testsStart, begun := some s.added }
    else none
  | .starter succeeds => stepStarter succeeds s
  | .adder i => stepAdder i s
  | .destroyer => stepDestroyer s
  | .worker succeeds => stepWorker succeeds s

/-! ### The life cycle and the order of steps that keeps it -/

/-- The messages are handled at most once and in the order in which they were added, none is
forgotten, and the queue is freed once, for a call that destroys it, and not used any more. When
that call has returned and the worker has come to rest, it has been freed. -/
structure LifeCycle (s : State) : Prop where
  order : s.handled <+: List.range s.added
  awake : s.frees = 0 → s.worker = .waits → s.queue.sem = 0 → .posts ∉ s.adders →
    s.queue.msgs = []
  complete : 0 < s.frees → ∀ n ∈ s.begun, List.range n <+: s.handled
  called : 0 < s.frees → s.begun ≠ none
  once : s.frees ≤ 1
  freed : s.destroyer = .returned → stepWorker true s = none → s.frees = 1
  untouched : s.touched = false

/-- `PlatformQueueDestroy` has cleared the flag or freed the queue. -/
def Destroyer.acted : Destroyer → Bool
  | .posts | .returned => true
  | .idle | .testsStart | .clearsStart | .destroys => false

/-- No other call is under way and no message is in the queue. -/
def State.quiet (s : State) : Prop :=
  s.queue.msgs = [] ∧ s.starter ≠ .startsThread ∧ s.starter ≠ .setsStart ∧
    ∀ adder ∈ s.adders, adder = .returned

/-- The steps that do not misread the flag: the queue is quiet when it is destroyed, which only
the worker does once it has been started, nobody calls afterwards, and the worker does not look
at the flag before it has been set. -/
def Orderly (action : Action) (s : State) : Prop :=
  match action with
  | .start | .addMsg => s.destroyer.acted = false
  | .destroyer =>
    (s.destroyer = .clearsStart → s.quiet) ∧
      (s.destroyer = .destroys → s.quiet ∧ s.worker = .unstarted)
  | .worker _ => s.worker = .checks → s.queue.start = true ∨ s.destroyer.acted = true
  | .destroy | .starter _ | .adder _ => True

instance {s : State} : Decidable s.quiet :=
  inferInstanceAs (Decidable (_ ∧ _ ∧ _ ∧ _))

instance {action : Action} {s : State} : Decidable (Orderly action s) :=
  match action with
  | .start | .addMsg => inferInstanceAs (Decidable (_ = _))
  | .destroyer => inferInstanceAs (Decidable (_ ∧ _))
  | .worker _ => inferInstanceAs (Decidable (_ → _))
  | .destroy | .starter _ | .adder _ => inferInstanceAs (Decidable True)

/-! ### The invariant -/

/-- The message that the worker is handling. -/
def Worker.held : Worker → List ℕ
  | .handles msg => [msg]
  | .unstarted | .waits | .checks | .takes | .stopped => []

/-- The worker has been woken up and has not yet looked into the list. -/
def Worker.woken : Worker → ℕ
  | .checks | .takes => 1
  | .unstarted | .waits | .handles _ | .stopped => 0

/-- The call is about to post the semaphore. -/
def Adder.isPosting : Adder → Bool
  | .posts => true
  | .inserts | .returned => false

/-- As long as nobody has destroyed the queue, every message is matched by a count of the
semaphore, a call that will post it or a worker that will look for it. -/
structure Serving (s : State) : Prop where
  frees : s.frees = 0
  matched : s.queue.msgs.length =
    s.queue.sem + s.adders.countP Adder.isPosting + s.worker.woken
  running : s.worker ≠ .stopped
  threaded : s.queue.start = true ∨ s.starter = .setsStart → s.worker ≠ .unstarted
  unthreaded : s.starter = .idle ∨ s.starter = .startsThread → s.worker = .unstarted
  seen : s.destroyer = .clearsStart → s.queue.start = true

/-- When the flag has been cleared, nobody uses the queue but the worker, which is woken up by
the call that has cleared it. -/
structure Closing (s : State) : Prop where
  quiet : s.quiet
  cleared : s.queue.start = false
  begun : s.begun ≠ none
  turn : (s.destroyer = .posts ∧ s.frees = 0 ∧ s.queue.sem = 0 ∧ s.worker.woken = 0 ∧
      s.worker ≠ .stopped ∧ s.worker ≠ .unstarted) ∨
    (s.destroyer = .returned ∧ s.frees = 0 ∧ s.queue.sem = 1 ∧ s.worker.woken = 0 ∧
      s.worker ≠ .stopped ∧ s.worker ≠ .unstarted) ∨
    (s.destroyer = .returned ∧ s.frees = 0 ∧ s.queue.sem = 0 ∧ s.worker = .checks) ∨
    (s.destroyer = .returned ∧ s.frees = 1 ∧ (s.worker = .stopped ∨ s.worker = .unstarted))

/-- What holds as long as all steps are orderly. -/
structure Kept (s : State) : Prop where
  order : s.handled ++ s.worker.held ++ s.queue.msgs = List.range s.added
  untouched : s.touched = false
  early : ∀ n ∈ s.begun, n ≤ s.added
  known : s.destroyer ≠ .idle → s.begun ≠ none
  phase : if s.destroyer.acted then Closing s else Serving s

section

variable {s t : State} {action : Action}

theorem touch_of_frees (untouched : s.touched = false) (alive : s.frees = 0) : s.touch = s := by
  have same : (s.touched || decide (0 < s.frees)) = s.touched := by simp [untouched, alive]
  rw [State.touch, same]

theorem Kept.created : Kept created where
  order := rfl
  untouched := rfl
  early _ none := by cases none
  known acted := absurd rfl acted
  phase := ⟨rfl, rfl, by decide, by decide, fun _ => rfl, by decide⟩

theorem Kept.serving (kept : Kept s) (open' : s.destroyer.acted = false) : Serving s := by
  have phase := kept.phase
  rwa [open', if_neg Bool.false_ne_true] at phase

theorem Kept.closing (kept : Kept s) (acted : s.destroyer.acted = true) : Closing s := by
  have phase := kept.phase
  rwa [acted, if_pos rfl] at phase

theorem Serving.phase (serving : Serving s) (unacted : s.destroyer.acted = false) :
    if s.destroyer.acted then Closing s else Serving s := by
  rwa [unacted, if_neg Bool.false_ne_true]

theorem Closing.phase (closing : Closing s) (acted : s.destroyer.acted = true) :
    if s.destroyer.acted then Closing s else Serving s := by
  rwa [acted, if_pos rfl]

/-- A step of a call that is under way is made before the flag is cleared. -/
theorem Kept.open_of_starter (kept : Kept s)
    (busy : s.starter = .startsThread ∨ s.starter = .setsStart) : s.destroyer.acted = false := by
  by_contra acted
  obtain ⟨-, idle, set, -⟩ := (kept.closing (Bool.not_eq_false _ ▸ acted)).quiet
  exact busy.elim idle set

theorem Kept.open_of_adder (kept : Kept s) {i : ℕ} {adder : Adder}
    (there : s.adders[i]? = some adder) (busy : adder ≠ .returned) :
    s.destroyer.acted = false := by
  by_contra acted
  obtain ⟨-, -, -, all⟩ := (kept.closing (Bool.not_eq_false _ ▸ acted)).quiet
  exact busy (all adder (List.mem_of_getElem? there))

theorem Kept.stepStarter (kept : Kept s) {succeeds : Bool}
    (stepped : stepStarter succeeds s = some t) : Kept t := by
  rw [Queue.stepStarter] at stepped
  split at stepped
  · rename_i starting
    have unacted := kept.open_of_starter (.inl starting)
    have serving := kept.serving unacted
    rw [touch_of_frees kept.untouched serving.frees] at stepped
    have unstarted := serving.unthreaded (.inr starting)
    split at stepped
    · cases stepped
      refine ⟨?_, kept.untouched, kept.early, kept.known, Serving.phase ?_ unacted⟩
      · have order := kept.order
        rw [unstarted] at order
        exact order
      · have matched := serving.matched
        rw [unstarted] at matched
        exact ⟨serving.frees, matched, by simp, by simp, by simp, serving.seen⟩
    · cases stepped
      refine ⟨kept.order, kept.untouched, kept.early, kept.known, Serving.phase ?_ unacted⟩
      refine ⟨serving.frees, serving.matched, serving.running, fun ready => ?_, by simp,
        serving.seen⟩
      exact serving.threaded (ready.imp_right (by simp))
  · rename_i setting
    have unacted := kept.open_of_starter (.inr setting)
    have serving := kept.serving unacted
    rw [touch_of_frees kept.untouched serving.frees] at stepped
    cases stepped
    refine ⟨kept.order, kept.untouched, kept.early, kept.known, Serving.phase ?_ unacted⟩
    exact ⟨serving.frees, serving.matched, serving.running,
      fun _ => serving.threaded (.inr setting), by simp, fun _ => rfl⟩
  · cases stepped
  · cases stepped

theorem Kept.stepAdder (kept : Kept s) {i : ℕ} (stepped : stepAdder i s = some t) : Kept t := by
  rw [Queue.stepAdder] at stepped
  split at stepped
  · rename_i there
    have unacted := kept.open_of_adder there (by simp)
    have serving := kept.serving unacted
    rw [touch_of_frees kept.untouched serving.frees] at stepped
    cases stepped
    have counted := countP_set_add Adder.isPosting .posts there
    have matched := serving.matched
    refine ⟨?_, kept.untouched, fun n begun => (kept.early n begun).trans (Nat.le_succ _),
      kept.known, Serving.phase ⟨serving.frees, ?_, serving.running, serving.threaded,
        serving.unthreaded, serving.seen⟩ unacted⟩
    · dsimp only
      rw [← List.append_assoc, kept.order, List.range_succ]
    · dsimp only
      simp only [Adder.isPosting, Bool.false_eq_true, if_false, if_true] at counted
      rw [List.length_append, List.length_singleton]
      omega
  · rename_i there
    have unacted := kept.open_of_adder there (by simp)
    have serving := kept.serving unacted
    rw [touch_of_frees kept.untouched serving.frees] at stepped
    cases stepped
    have counted := countP_set_add Adder.isPosting .returned there
    have matched := serving.matched
    refine ⟨kept.order, kept.untouched, kept.early, kept.known, Serving.phase ⟨serving.frees, ?_,
      serving.running, serving.threaded, serving.unthreaded, serving.seen⟩ unacted⟩
    dsimp only
    simp only [Adder.isPosting, Bool.false_eq_true, if_false, if_true] at counted
    omega
  · cases stepped
  · cases stepped

theorem Kept.stepDestroyer (kept : Kept s) (orderly : Orderly .destroyer s)
    (stepped : stepDestroyer s = some t) : Kept t := by
  rw [Queue.stepDestroyer] at stepped
  split at stepped
  · rename_i testing
    have serving := kept.serving (by rw [testing]; rfl)
    rw [touch_of_frees kept.untouched serving.frees] at stepped
    have known := kept.known (by rw [testing]; simp)
    cases stepped
    refine ⟨kept.order, kept.untouched, kept.early, fun _ => known, Serving.phase
      ⟨serving.frees, serving.matched, serving.running, serving.threaded, serving.unthreaded,
        fun clears => ?_⟩ (by dsimp only; split <;> rfl)⟩
    dsimp only at clears
    split at clears
    · assumption
    · cases clears
  · rename_i clearing
    have serving := kept.serving (by rw [clearing]; rfl)
    rw [touch_of_frees kept.untouched serving.frees] at stepped
    have known := kept.known (by rw [clearing]; simp)
    have quiet := orderly.1 clearing
    have matched := serving.matched
    rw [quiet.1, List.length_nil] at matched
    cases stepped
    refine ⟨kept.order, kept.untouched, kept.early, fun _ => known,
      Closing.phase ⟨quiet, rfl, known, .inl ⟨rfl, serving.frees, ?_, ?_, serving.running,
        serving.threaded (.inl (serving.seen clearing))⟩⟩ rfl⟩ <;> dsimp only <;> omega
  · rename_i posting
    have closing := kept.closing (by rw [posting]; rfl)
    obtain ⟨-, frees, sem, asleep, running, started⟩ | ⟨returned, -⟩ | ⟨returned, -⟩ |
      ⟨returned, -⟩ := closing.turn
    · rw [touch_of_frees kept.untouched frees] at stepped
      cases stepped
      refine ⟨kept.order, kept.untouched, kept.early, fun _ => closing.begun,
        Closing.phase ⟨closing.quiet, closing.cleared, closing.begun, .inr (.inl
          ⟨rfl, frees, by dsimp only; rw [sem], asleep, running, started⟩)⟩ rfl⟩
    all_goals cases posting.symm.trans returned
  · rename_i destroying
    have serving := kept.serving (by rw [destroying]; rfl)
    rw [State.doDestroy, touch_of_frees kept.untouched serving.frees] at stepped
    have known := kept.known (by rw [destroying]; simp)
    obtain ⟨quiet, unstarted⟩ := orderly.2 destroying
    have unset : s.queue.start = false := by
      by_contra set
      exact serving.threaded (.inl (Bool.not_eq_false _ ▸ set)) unstarted
    cases stepped
    refine ⟨kept.order, kept.untouched, kept.early, fun _ => known,
      Closing.phase ⟨quiet, unset, known, .inr (.inr (.inr ⟨rfl, ?_, .inr unstarted⟩))⟩ rfl⟩
    dsimp only
    rw [serving.frees]
  · cases stepped
  · cases stepped

/-- A worker that is there has not freed the queue. -/
theorem Kept.alive (kept : Kept s) (started : s.worker ≠ .unstarted)
    (running : s.worker ≠ .stopped) : s.frees = 0 := by
  by_cases acted : s.destroyer.acted = true
  · rcases (kept.closing acted).turn with ⟨-, frees, -⟩ | ⟨-, frees, -⟩ | ⟨-, frees, -⟩ |
      ⟨-, -, stopped | unstarted⟩
    · exact frees
    · exact frees
    · exact frees
    · exact absurd stopped running
    · exact absurd unstarted started
  · exact (kept.serving (Bool.not_eq_true _ ▸ acted)).frees

theorem Kept.waits (kept : Kept s) {succeeds : Bool} (waiting : s.worker = .waits)
    (stepped : stepWorker succeeds s = some t) : Kept t := by
  have order := kept.order
  rw [waiting] at order
  rw [stepWorker, waiting] at stepped
  dsimp only at stepped
  rw [touch_of_frees kept.untouched (kept.alive (by simp [waiting]) (by simp [waiting]))] at stepped
  split at stepped
  · cases stepped
    exact kept
  · split at stepped
    · rename_i posted
      cases stepped
      refine ⟨order, kept.untouched, kept.early, kept.known, ?_⟩
      by_cases acted : s.destroyer.acted = true
      · have closing := kept.closing acted
        refine Closing.phase ⟨closing.quiet, closing.cleared, closing.begun, ?_⟩ acted
        rcases closing.turn with ⟨-, -, sem, -⟩ | ⟨returned, frees, sem, -⟩ |
          ⟨-, -, -, checking⟩ | ⟨-, -, stopped | unstarted⟩
        · omega
        · exact .inr (.inr (.inl ⟨returned, frees, by dsimp only; omega, rfl⟩))
        · cases waiting.symm.trans checking
        · cases waiting.symm.trans stopped
        · cases waiting.symm.trans unstarted
      · rw [Bool.not_eq_true] at acted
        have serving := kept.serving acted
        have matched := serving.matched
        rw [waiting] at matched
        refine Serving.phase ⟨serving.frees, ?_, by simp, by simp, fun ready => ?_,
          serving.seen⟩ acted
        · simp only [Worker.woken] at matched ⊢
          omega
        · cases waiting.symm.trans (serving.unthreaded ready)
    · cases stepped

theorem Kept.checks (kept : Kept s) {succeeds : Bool} (checking : s.worker = .checks)
    (orderly : s.queue.start = true ∨ s.destroyer.acted = true)
    (stepped : stepWorker succeeds s = some t) : Kept t := by
  have order := kept.order
  rw [checking] at order
  have frees := kept.alive (by simp [checking]) (by simp [checking])
  rw [stepWorker, checking] at stepped
  dsimp only at stepped
  rw [State.doDestroy, touch_of_frees kept.untouched frees] at stepped
  split at stepped
  · rename_i unset
    have acted : s.destroyer.acted = true := by
      refine orderly.resolve_left fun set => ?_
      rw [set] at unset
      cases unset
    have closing := kept.closing acted
    cases stepped
    refine ⟨order, kept.untouched, kept.early, kept.known, Closing.phase ⟨closing.quiet,
      closing.cleared, closing.begun, .inr (.inr (.inr ?_))⟩ acted⟩
    rcases closing.turn with ⟨-, -, -, asleep, -⟩ | ⟨-, -, -, asleep, -⟩ |
      ⟨returned, -⟩ | ⟨-, freed, -⟩
    · rw [checking] at asleep
      cases asleep
    · rw [checking] at asleep
      cases asleep
    · exact ⟨returned, by dsimp only; rw [frees], .inl rfl⟩
    · omega
  · rename_i set
    have unacted : s.destroyer.acted = false := by
      by_contra acted
      have cleared := (kept.closing (Bool.not_eq_false _ ▸ acted)).cleared
      exact set (by rw [cleared]; rfl)
    have serving := kept.serving unacted
    have matched := serving.matched
    rw [checking] at matched
    cases stepped
    refine ⟨order, kept.untouched, kept.early, kept.known, Serving.phase ⟨serving.frees,
      matched, by simp, by simp, fun ready => ?_, serving.seen⟩ unacted⟩
    cases checking.symm.trans (serving.unthreaded ready)

theorem Kept.takes (kept : Kept s) {succeeds : Bool} (taking : s.worker = .takes)
    (stepped : stepWorker succeeds s = some t) : Kept t := by
  have order := kept.order
  rw [taking] at order
  have frees := kept.alive (by simp [taking]) (by simp [taking])
  have unacted : s.destroyer.acted = false := by
    by_contra acted
    have turn := (kept.closing (Bool.not_eq_false _ ▸ acted)).turn
    simp [taking, Worker.woken] at turn
  have serving := kept.serving unacted
  have matched := serving.matched
  rw [taking] at matched
  rw [stepWorker, taking] at stepped
  dsimp only at stepped
  rw [touch_of_frees kept.untouched frees] at stepped
  split at stepped
  · rename_i empty
    simp [empty, Worker.woken] at matched
  · rename_i msg rest listed
    rw [listed] at order matched
    cases stepped
    refine ⟨?_, kept.untouched, kept.early, kept.known, Serving.phase ⟨serving.frees, ?_, by simp,
      by simp, fun ready => ?_, serving.seen⟩ unacted⟩
    · dsimp only
      rw [Worker.held, List.append_assoc, List.singleton_append, ← order, Worker.held,
        List.append_nil]
    · simp only [List.length_cons, Worker.woken] at matched ⊢
      omega
    · cases taking.symm.trans (serving.unthreaded ready)

theorem Kept.handles (kept : Kept s) {succeeds : Bool} {msg : ℕ}
    (handling : s.worker = .handles msg) (stepped : stepWorker succeeds s = some t) : Kept t := by
  have order := kept.order
  rw [handling] at order
  rw [stepWorker, handling] at stepped
  dsimp only at stepped
  rw [touch_of_frees kept.untouched (kept.alive (by simp [handling]) (by simp [handling]))]
    at stepped
  cases stepped
  refine ⟨?_, kept.untouched, kept.early, kept.known, ?_⟩
  · dsimp only
    rw [← order, Worker.held, Worker.held, List.append_nil]
  · by_cases acted : s.destroyer.acted = true
    · have closing := kept.closing acted
      refine Closing.phase ⟨closing.quiet, closing.cleared, closing.begun, ?_⟩ acted
      rcases closing.turn with ⟨posting, frees, sem, -⟩ | ⟨returned, frees, sem, -⟩ |
        ⟨-, -, -, checking⟩ | ⟨-, -, stopped | unstarted⟩
      · exact .inl ⟨posting, frees, sem, rfl, by simp, by simp⟩
      · exact .inr (.inl ⟨returned, frees, sem, rfl, by simp, by simp⟩)
      · cases handling.symm.trans checking
      · cases handling.symm.trans stopped
      · cases handling.symm.trans unstarted
    · rw [Bool.not_eq_true] at acted
      have serving := kept.serving acted
      have matched := serving.matched
      rw [handling] at matched
      refine Serving.phase ⟨serving.frees, matched, by simp, by simp, fun ready => ?_,
        serving.seen⟩ acted
      cases handling.symm.trans (serving.unthreaded ready)

/-- One step. -/
theorem Kept.step (kept : Kept s) (orderly : Orderly action s) (stepped : step action s = some t) :
    Kept t := by
  cases action with
  | start =>
    rw [Queue.step] at stepped
    split at stepped
    · rename_i idle
      cases stepped
      have serving := kept.serving orderly
      refine ⟨kept.order, kept.untouched, kept.early, kept.known, Serving.phase ⟨serving.frees,
        serving.matched, serving.running, fun ready => ?_, fun _ => serving.unthreaded (.inl idle),
        serving.seen⟩ orderly⟩
      exact serving.threaded (ready.imp_right fun setting => by cases setting)
    · cases stepped
  | addMsg =>
    cases stepped
    have serving := kept.serving orderly
    refine ⟨kept.order, kept.untouched, kept.early, kept.known, Serving.phase ⟨serving.frees, ?_,
      serving.running, serving.threaded, serving.unthreaded, serving.seen⟩ orderly⟩
    dsimp only
    rw [countP_append_singleton]
    exact serving.matched
  | destroy =>
    rw [Queue.step] at stepped
    split at stepped
    · rename_i idle
      cases stepped
      have serving := kept.serving (by rw [idle]; rfl)
      refine ⟨kept.order, kept.untouched, ?_, fun _ => Option.some_ne_none _,
        Serving.phase ⟨serving.frees, serving.matched, serving.running, serving.threaded,
          serving.unthreaded, by simp⟩ rfl⟩
      rintro n ⟨⟩
      exact le_rfl
    · cases stepped
  | starter succeeds => exact kept.stepStarter stepped
  | adder i => exact kept.stepAdder stepped
  | destroyer => exact kept.stepDestroyer orderly stepped
  | worker succeeds =>
    replace stepped : stepWorker succeeds s = some t := stepped
    cases turn : s.worker with
    | waits => exact kept.waits turn stepped
    | checks => exact kept.checks turn (orderly turn) stepped
    | takes => exact kept.takes turn stepped
    | handles msg => exact kept.handles turn stepped
    | unstarted | stopped =>
      rw [stepWorker, turn] at stepped
      cases stepped

/-- Before it has freed the queue, the worker does not rest. -/
theorem Closing.freed (closing : Closing s) (returned : s.destroyer = .returned)
    (rest : stepWorker true s = none) : s.frees = 1 := by
  rcases closing.turn with ⟨posting, -⟩ | ⟨-, -, posted, unwoken, running, started⟩ |
    ⟨-, -, -, checks⟩ | ⟨-, freed, -⟩
  · rw [posting] at returned
    cases returned
  · rw [stepWorker] at rest
    cases turn : s.worker with
    | waits => simp [turn, posted] at rest
    | handles msg => simp [turn] at rest
    | checks | takes => simp [turn, Worker.woken] at unwoken
    | unstarted => exact absurd turn started
    | stopped => exact absurd turn running
  · rw [stepWorker, checks] at rest
    dsimp only at rest
    split at rest <;> cases rest
  · exact freed

theorem Kept.lifeCycle (kept : Kept s) : LifeCycle s := by
  have order := kept.order
  have front : s.handled <+: List.range s.added := by
    rw [← order, List.append_assoc]
    exact List.prefix_append _ _
  by_cases acted : s.destroyer.acted = true
  · have closing := kept.closing acted
    have empty := closing.quiet.1
    refine ⟨front, fun _ _ _ _ => empty, fun freed n begun => ?_, fun _ => closing.begun, ?_,
      closing.freed, kept.untouched⟩
    · -- whoever has freed the queue holds no message
      have idle : s.worker.held = [] := by
        rcases closing.turn with ⟨-, frees, -⟩ | ⟨-, frees, -⟩ | ⟨-, frees, -⟩ |
          ⟨-, -, stopped | unstarted⟩
        · omega
        · omega
        · omega
        · rw [stopped]
          rfl
        · rw [unstarted]
          rfl
      rw [empty, idle, List.append_nil, List.append_nil] at order
      rw [order]
      exact List.prefix_iff_eq_take.mpr (by
        rw [List.length_range, List.take_range, Nat.min_eq_left (kept.early n begun)])
    · rcases closing.turn with ⟨-, frees, -⟩ | ⟨-, frees, -⟩ | ⟨-, frees, -⟩ | ⟨-, frees, -⟩ <;>
        omega
  · have serving := kept.serving (Bool.not_eq_true _ ▸ acted)
    have frees := serving.frees
    refine ⟨front, fun _ waiting unposted nobody => ?_, fun freed => ?_, fun freed => ?_, ?_,
      fun returned => absurd (by rw [returned]; rfl) acted, kept.untouched⟩
    · have matched := serving.matched
      have none : s.adders.countP Adder.isPosting = 0 := by
        refine List.countP_eq_zero.mpr fun adder member posting => ?_
        cases adder with
        | posts => exact nobody member
        | inserts | returned => cases posting
      rw [waiting, unposted, none] at matched
      exact List.length_eq_zero_iff.mp matched
    · omega
    · omega
    · omega

/-- The life cycle of a queue whose steps are orderly. -/
theorem lifeCycle_of_runs {actions : List Action} (orderly : Meets step Orderly created actions)
    (ran : runs step created actions = some s) : LifeCycle s :=
  (runs_invariant (fun _ _ _ kept orderly stepped => kept.step orderly stepped) Kept.created
    orderly ran).lifeCycle

end

/-! ### Three lives -/

/-- A message is added to a queue that has been started, and handled before it is destroyed. -/
def orderlyLife : List Action :=
  [.start, .starter true, .starter true, .addMsg, .adder 0, .adder 0, .worker true, .worker true,
    .worker true, .worker true, .destroy, .destroyer, .destroyer, .destroyer, .worker true,
    .worker true]

theorem lifeCycle_orderlyLife : ∃ s, runs step created orderlyLife = some s ∧ LifeCycle s ∧
    s.handled = [0] ∧ s.frees = 1 :=
  ⟨_, rfl, @lifeCycle_of_runs _ orderlyLife (by decide) rfl, rfl, rfl⟩

/-- A message is added before the thread is started, and the flag is set when the worker has
already been woken up. -/
def hastyLife : List Action :=
  [.addMsg, .adder 0, .adder 0, .start, .starter true, .worker true, .worker true, .starter true]

/-- A queue is destroyed while a message is in it. -/
def shortLife : List Action :=
  [.start, .starter true, .starter true, .addMsg, .adder 0, .adder 0, .destroy, .destroyer,
    .destroyer, .worker true, .worker true, .destroyer]

/-- The worker frees the queue although nobody destroys it, and the call that starts it uses it
after that; or it frees it with a message in it, and the call that destroys it uses it after
that. -/
theorem freed_while_starting : (∃ s, runs step created hastyLife = some s ∧ s.frees = 1 ∧
      s.begun = none ∧ s.touched = true ∧ s.handled = []) ∧
    ∃ s, runs step created shortLife = some s ∧ s.frees = 1 ∧ s.begun = some 1 ∧
      s.handled = [] ∧ s.touched = true :=
  ⟨⟨_, rfl, rfl, rfl, rfl, rfl⟩, _, rfl, rfl, rfl, rfl, rfl⟩

end Hdf.Platform.Queue
