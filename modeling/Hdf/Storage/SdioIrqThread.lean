import Hdf.Lib.Runs
import Hdf.Lib.Threads

/-!
# The interrupt thread of an SDIO device

Notifications store that an interrupt is pending and post a semaphore; a worker waits for the
semaphore, handles the interrupt and stores that none is pending. Creating the worker initialises
the semaphore, destroying it destroys the semaphore. One flag tells notifications that there is
a worker.

Each operation of the semaphore and each access to a flag is a step. Creating and destroying do not
overlap. What destroying a thread does to one that still runs is left open.

## Main definitions

* `State`, `Act`, `step`: the device, the threads that use it, and their steps in any order
* `LifeCycle`: the semaphore is used while there is one, notifications are followed by a pass and
  are pending until then
* `Orderly`: the steps that keep this

## Main results

* `Kept.step`: what one step preserves
* `lifeCycle_of_orderly`: the life cycle in every run whose steps are orderly
* `notified_after_destroy`: a notification after the end uses the destroyed semaphore
-/

namespace Hdf.Storage.SdioIrq

open Threads

/-- `struct SdioDevice`: the semaphore while there is one, and the flags. -/
structure SdioDevice where
  sem : Option ℕ
  irqPending : Bool
  threadRunning : Bool
  deriving DecidableEq, Repr

/-- What `SdioIrqThreadWorker` does next: it waits, makes a pass, or clears the flag after it.
Passes are numbered in the order in which they begin. -/
inductive Worker
  | waits | handles (pass : ℕ) | clears (pass : ℕ) | ended
  deriving DecidableEq, Repr

/-- What a call of `MmcCntlrNotifySdioIrqThread` does next. It remembers how many passes had begun
when it stored the flag and when it returned, and the workers' steps until then. -/
inductive Place
  | checks | stores | posts (stored : ℕ) | returned (stored begun steps : ℕ) | skipped
  deriving DecidableEq, Repr

/-- A call of `MmcCntlrNotifySdioIrqThread`. If it has begun while there was a worker, it has the
number of times that the worker had been destroyed before. -/
structure Notifier where
  era : Option ℕ
  place : Place
  deriving DecidableEq, Repr

/-- What `MmcCntlrCreatSdioIrqThread` or `MmcCntlrDestroySdioIrqThread` does next. -/
inductive Main
  | idle | startsThread | undoes | setsRunning | destroysSem | setsRunningAgain
  deriving DecidableEq, Repr

/-- A device with the threads that use it. `thread` is the worker that the device knows; `created`
says that creating has succeeded and destroying has not begun since. Kept of the past are the passes
that have begun and finished, the steps of the workers, the number of times that the worker has been
destroyed, and whether the semaphore has been used while there was none. -/
structure State where
  device : SdioDevice
  workers : List Worker
  thread : Option ℕ
  notifiers : List Notifier
  main : Main
  created : Bool
  destroys : ℕ
  begun : ℕ
  finished : List ℕ
  steps : ℕ
  misused : Bool
  deriving DecidableEq, Repr

/-- A device that has just been allocated. -/
def fresh : State where
  device := { sem := none, irqPending := false, threadRunning := false }
  workers := []
  thread := none
  notifiers := []
  main := .idle
  created := false
  destroys := 0
  begun := 0
  finished := []
  steps := 0
  misused := false

/-- Who makes a step. Initialising the semaphore and starting the thread may fail, and destroying
the thread ends the worker or does not. -/
inductive Act
  | create (succeeds : Bool)
  | start (succeeds : Bool)
  | destroy (ends : Bool)
  | main
  | notify
  | notifier (i : ℕ)
  | worker (i : ℕ)
  deriving DecidableEq, Repr

/-- The workers after `OsalThreadDestroy`. -/
def State.threadDestroyed (s : State) (ends : Bool) : List Worker :=
  match s.thread with
  | some i => if ends then s.workers.set i .ended else s.workers
  | none => s.workers

/-- The remaining steps of `MmcCntlrCreatSdioIrqThread` and `MmcCntlrDestroySdioIrqThread`. -/
def mainStep (s : State) : Option State :=
  match s.main with
  | .undoes => some { s with device := { s.device with sem := none }, main := .idle }
  | .setsRunning => some { s with
      device := { s.device with threadRunning := true }
      main := .idle
      created := true }
  | .destroysSem =>
    some { s with device := { s.device with sem := none }, main := .setsRunningAgain }
  -- the flag is set once more where it should be cleared
  | .setsRunningAgain =>
    some { s with device := { s.device with threadRunning := true }, main := .idle }
  | .idle | .startsThread => none

/-- A step of `MmcCntlrNotifySdioIrqThread`. -/
def notifierStep (i : ℕ) (s : State) : Option State :=
  match s.notifiers[i]? with
  | some { era, place := .checks } =>
    let place := if s.device.threadRunning then .stores else .skipped
    some { s with notifiers := s.notifiers.set i { era, place } }
  | some { era, place := .stores } => some { s with
      device := { s.device with irqPending := true }
      notifiers := s.notifiers.set i { era, place := .posts s.begun } }
  | some { era, place := .posts stored } => some { s with
      device := { s.device with sem := s.device.sem.map (· + 1) }
      notifiers := s.notifiers.set i { era, place := .returned stored s.begun s.steps }
      misused := s.misused || s.device.sem.isNone }
  | some { place := .returned _ _ _, .. } | some { place := .skipped, .. } | none => none

/-- A step of `SdioIrqThreadWorker`. Waiting for a semaphore that is not there fails. -/
def workerStep (i : ℕ) (s : State) : Option State :=
  match s.workers[i]? with
  | some .waits =>
    match s.device.sem with
    | none => some { s with steps := s.steps + 1, misused := true }
    | some 0 => none
    | some (count + 1) => some { s with
        device := { s.device with sem := some count }
        workers := s.workers.set i (.handles s.begun)
        begun := s.begun + 1
        steps := s.steps + 1 }
  | some (.handles pass) =>
    some { s with workers := s.workers.set i (.clears pass), steps := s.steps + 1 }
  | some (.clears pass) => some { s with
      device := { s.device with irqPending := false }
      workers := s.workers.set i .waits
      finished := pass :: s.finished
      steps := s.steps + 1 }
  | some .ended | none => none

/-- One step. -/
def step : Act → State → Option State
  | .create succeeds, s =>
    if s.main = .idle then
      if succeeds then
        some { s with device := { s.device with sem := some 0 }, main := .startsThread }
      else some { s with device := { s.device with sem := none } }
    else none
  | .start succeeds, s =>
    if s.main = .startsThread then
      if succeeds then
        some { s with
          workers := s.workers ++ [.waits]
          thread := some s.workers.length
          main := .setsRunning }
      else some { s with thread := none, main := .undoes }
    else none
  | .destroy ends, s =>
    if s.main = .idle then
      some { s with
        workers := s.threadDestroyed ends
        thread := none
        main := .destroysSem
        created := false
        destroys := s.destroys + 1 }
    else none
  | .main, s => mainStep s
  | .notify, s =>
    let era := if s.created then some s.destroys else none
    some { s with notifiers := s.notifiers ++ [{ era, place := .checks }] }
  | .notifier i, s => notifierStep i s
  | .worker i, s => workerStep i s

/-! ### The life cycle and the steps that keep it -/

/-- The passes that had begun when the flag was stored. -/
def Place.stored : Place → Option ℕ
  | .posts stored | .returned stored _ _ => some stored
  | .checks | .stores | .skipped => none

/-- The flag has been found set, and the semaphore has not been posted yet. -/
def Place.underWay : Place → Bool
  | .stores | .posts _ => true
  | .checks | .returned _ _ _ | .skipped => false

/-- The pass that a worker is making. -/
def Worker.pass : Worker → Option ℕ
  | .handles pass | .clears pass => some pass
  | .waits | .ended => none

/-- The semaphore is only used between its initialisation and its destruction. A notification that
has begun while there was a worker is not skipped as long as there is, and once it has returned, a
pass begins within three steps of the worker, which can make them; the interrupt is pending until
a pass has finished that began after it was stored. -/
structure LifeCycle (s : State) : Prop where
  used : s.misused = false
  noticed : ∀ notifier ∈ s.notifiers, notifier.era = some s.destroys → notifier.place ≠ .skipped
  followed : ∀ notifier ∈ s.notifiers, notifier.era = some s.destroys →
    ∀ stored begun steps, notifier.place = .returned stored begun steps →
      begun < s.begun ∨ s.steps ≤ steps + 2 ∧ ∃ i k t, k ≤ 3 ∧
        runs step s (List.replicate k (.worker i)) = some t ∧ begun < t.begun
  pending : ∀ notifier ∈ s.notifiers, notifier.era ≠ none → ∀ stored ∈ notifier.place.stored,
    s.device.irqPending = true ∨ ∃ pass ∈ s.finished, stored ≤ pass

/-- The steps that keep the life cycle: the worker is created when there is none; when it is
destroyed, it ends, and no notification is under way; a notification that finds the flag set finds
a worker, and stores that an interrupt is pending while no pass is made. -/
def Orderly (act : Act) (s : State) : Prop :=
  match act with
  | .create _ => s.created = false
  | .destroy ends => (s.thread.isSome = true → ends = true) ∧
      ∀ notifier ∈ s.notifiers, notifier.place.underWay = false
  | .notifier i => ∀ notifier ∈ s.notifiers[i]?,
      (notifier.place = .checks → s.device.threadRunning = true → s.created = true) ∧
        (notifier.place = .stores → ∀ worker ∈ s.workers, worker.pass = none)
  | .start _ | .main | .notify | .worker _ => True

instance {act : Act} {s : State} : Decidable (Orderly act s) :=
  match act with
  | .create _ => inferInstanceAs (Decidable (_ = _))
  | .destroy _ => inferInstanceAs (Decidable (_ ∧ _))
  | .notifier _ => inferInstanceAs (Decidable (∀ _ ∈ _, _))
  | .start _ | .main | .notify | .worker _ => inferInstanceAs (Decidable True)

/-! ### The invariant -/

/-- The steps of a worker until it waits. -/
def Worker.left : Worker → ℕ
  | .handles _ => 2
  | .clears _ => 1
  | .waits | .ended => 0

theorem Worker.left_le (worker : Worker) : worker.left ≤ 2 := by
  cases worker <;> simp [Worker.left]

/-- What holds as long as all steps are orderly. Only the worker that the device knows runs, and
only while there is a semaphore. -/
structure Kept (s : State) : Prop where
  used : s.misused = false
  ready : s.created = true → s.main = .idle ∧ s.device.sem.isSome = true ∧
    s.device.threadRunning = true ∧ s.thread.isSome = true
  live : s.main = .startsThread ∨ s.main = .setsRunning → s.device.sem.isSome = true
  set : s.main = .setsRunning → s.thread.isSome = true
  known : s.thread.isSome = true → s.created = true ∨ s.main = .setsRunning
  alive : ∀ i worker, s.workers[i]? = some worker → worker ≠ .ended → s.thread = some i
  running : ∀ i, s.thread = some i → ∃ worker, s.workers[i]? = some worker ∧ worker ≠ .ended
  quiet : ∀ notifier ∈ s.notifiers, notifier.place.underWay = true → s.created = true
  eras : ∀ notifier ∈ s.notifiers, ∀ era ∈ notifier.era,
    era ≤ s.destroys ∧ (era = s.destroys → s.created = true)
  noticed : ∀ notifier ∈ s.notifiers, notifier.era = some s.destroys → notifier.place ≠ .skipped
  followed : ∀ notifier ∈ s.notifiers, notifier.era = some s.destroys →
    ∀ stored begun steps, notifier.place = .returned stored begun steps → begun < s.begun ∨
      begun = s.begun ∧ s.device.sem ≠ some 0 ∧
        ∀ (i : ℕ) (worker : Worker), s.workers[i]? = some worker → worker ≠ .ended →
          s.steps + worker.left ≤ steps + 2
  pending : ∀ notifier ∈ s.notifiers, ∀ stored ∈ notifier.place.stored,
    stored ≤ s.begun ∧ (s.device.irqPending = true ∨ ∃ pass ∈ s.finished, stored ≤ pass) ∧
      ∀ worker ∈ s.workers, ∀ pass ∈ worker.pass, stored ≤ pass

theorem Kept.fresh : Kept fresh where
  used := rfl
  ready created := by cases created
  live at' := by rcases at' with at' | at' <;> cases at'
  set at' := by cases at'
  known some := by cases some
  alive i worker there := by cases there
  running i knows := by cases knows
  quiet notifier member := by cases member
  eras notifier member := by cases member
  noticed notifier member := by cases member
  followed notifier member := by cases member
  pending notifier member := by cases member

section

variable {s t : State} {i : ℕ}

/-- While nothing is created, the device has no worker when nothing is under way. -/
theorem Kept.thread_eq_none (kept : Kept s) (none : s.created = false)
    (notSet : s.main ≠ .setsRunning) : s.thread = Option.none := by
  by_contra some
  rcases kept.known (Option.isSome_iff_ne_none.mpr some) with created | at'
  · rw [none] at created
    cases created
  · exact notSet at'

/-- Notifications of the present worker only exist while there is one. -/
theorem Kept.era_ne (kept : Kept s) (none : s.created = false) {notifier : Notifier}
    (member : notifier ∈ s.notifiers) : notifier.era ≠ some s.destroys := by
  intro era
  have created := (kept.eras notifier member s.destroys era).2 rfl
  rw [none] at created
  cases created

theorem Kept.create (kept : Kept s) {succeeds : Bool} (orderly : s.created = false)
    (stepped : step (.create succeeds) s = some t) : Kept t := by
  rw [step] at stepped
  split at stepped
  · rename_i idle
    have unknown := kept.thread_eq_none orderly (by rw [idle]; decide)
    split at stepped
    · cases stepped
      exact { kept with
        ready := fun created => absurd (orderly.symm.trans created) (by decide)
        live := fun _ => rfl
        set := fun at' => by cases at'
        known := fun some => by rw [unknown] at some; cases some
        followed := fun notifier member era => absurd era (kept.era_ne orderly member) }
    · cases stepped
      exact { kept with
        ready := fun created => absurd (orderly.symm.trans created) (by decide)
        live := fun at' => by rw [idle] at at'; rcases at' with at' | at' <;> cases at'
        followed := fun notifier member era => absurd era (kept.era_ne orderly member) }
  · cases stepped

theorem Kept.not_created (kept : Kept s) (busy : s.main ≠ .idle) : s.created = false :=
  Bool.eq_false_iff.mpr fun created => busy (kept.ready created).1

theorem Kept.start (kept : Kept s) {succeeds : Bool}
    (stepped : step (.start succeeds) s = some t) : Kept t := by
  rw [step] at stepped
  split at stepped
  · rename_i starts
    have orderly := kept.not_created (by rw [starts]; decide)
    have unknown := kept.thread_eq_none orderly (by rw [starts]; decide)
    split at stepped
    · cases stepped
      exact { kept with
        ready := fun created => absurd (orderly.symm.trans created) (by decide)
        live := fun _ => kept.live (.inl starts)
        set := fun _ => rfl
        known := fun _ => .inr rfl
        alive := fun i worker there runs => by
          rcases getElem?_append_singleton_iff.mp there with old | ⟨rfl, -⟩
          · have known := kept.alive i worker old runs
            rw [unknown] at known
            cases known
          · rfl
        running := fun i knows => by
          cases knows
          exact ⟨.waits, getElem?_append_singleton_iff.mpr (.inr ⟨rfl, rfl⟩), by decide⟩
        followed := fun notifier member era => absurd era (kept.era_ne orderly member)
        pending := fun notifier member stored has => by
          obtain ⟨early, pending, later⟩ := kept.pending notifier member stored has
          refine ⟨early, pending, fun worker listed pass making => ?_⟩
          rcases List.mem_append.mp listed with old | new
          · exact later worker old pass making
          · rw [List.mem_singleton.mp new] at making
            cases making }
    · cases stepped
      exact { kept with
        ready := fun created => absurd (orderly.symm.trans created) (by decide)
        live := fun at' => by rcases at' with at' | at' <;> cases at'
        set := fun at' => by cases at'
        known := fun some => by cases some
        alive := fun i worker there runs => by
          have known := kept.alive i worker there runs
          rw [unknown] at known
          cases known
        running := fun i knows => by cases knows }
  · cases stepped

/-- All workers have ended when the device knows none. -/
theorem Kept.ended_of_none (kept : Kept s) (unknown : s.thread = none) {worker : Worker}
    (there : s.workers[i]? = some worker) : worker = .ended := by
  by_contra runs
  have known := kept.alive i worker there runs
  rw [unknown] at known
  cases known

theorem Kept.threadDestroyed_ended (kept : Kept s) {ends : Bool}
    (orderly : s.thread.isSome = true → ends = true) {worker : Worker}
    (there : (s.threadDestroyed ends)[i]? = some worker) : worker = .ended := by
  rw [State.threadDestroyed] at there
  cases known : s.thread with
  | none =>
    rw [known] at there
    exact kept.ended_of_none known there
  | some j =>
    obtain ⟨old, listed, -⟩ := kept.running j known
    rw [known] at there orderly
    rw [orderly rfl] at there
    rcases (getElem?_set_iff listed).mp there with ⟨-, rfl⟩ | ⟨other, there⟩
    · rfl
    · by_contra runs
      have same := kept.alive i worker there runs
      rw [known] at same
      exact other (Option.some.inj same).symm

theorem Kept.destroy (kept : Kept s) {ends : Bool} (orderly : Orderly (.destroy ends) s)
    (stepped : step (.destroy ends) s = some t) : Kept t := by
  rw [step] at stepped
  split at stepped
  · cases stepped
    have newEra : ∀ notifier ∈ s.notifiers, notifier.era ≠ some (s.destroys + 1) := by
      intro notifier member era
      have le := (kept.eras notifier member _ era).1
      omega
    exact { kept with
      ready := fun created => by cases created
      live := fun at' => by rcases at' with at' | at' <;> cases at'
      set := fun at' => by cases at'
      known := fun some => by cases some
      alive := fun i worker there runs => absurd (kept.threadDestroyed_ended orderly.1 there) runs
      running := fun i knows => by cases knows
      quiet := fun notifier member underWay =>
        absurd ((orderly.2 notifier member).symm.trans underWay) (by decide)
      eras := fun notifier member era has => by
        have le := (kept.eras notifier member era has).1
        exact ⟨Nat.le_succ_of_le le, fun same => absurd same (Nat.ne_of_lt (Nat.lt_succ_of_le le))⟩
      noticed := fun notifier member era => absurd era (newEra notifier member)
      followed := fun notifier member era => absurd era (newEra notifier member)
      pending := fun notifier member stored has => by
        obtain ⟨early, pending, -⟩ := kept.pending notifier member stored has
        refine ⟨early, pending, fun worker listed pass making => ?_⟩
        obtain ⟨i, there⟩ := List.mem_iff_getElem?.mp listed
        rw [kept.threadDestroyed_ended orderly.1 there] at making
        cases making }
  · cases stepped

/-- While nothing is created and no thread known, the flag may be set and the semaphore be gone. -/
theorem Kept.rest (kept : Kept s) (none : s.created = false) (unknown : s.thread = Option.none)
    {device : SdioDevice} (same : device.irqPending = s.device.irqPending) {main : Main}
    (at' : main ≠ .startsThread ∧ main ≠ .setsRunning) :
    Kept { s with device, main } :=
  { kept with
    ready := fun created => absurd (none.symm.trans created) (by decide)
    live := fun here => absurd here (not_or.mpr at')
    set := fun here => absurd here at'.2
    known := fun some => by
      change s.thread.isSome = true at some
      rw [unknown] at some
      cases some
    followed := fun notifier member era => absurd era (kept.era_ne none member)
    pending := fun notifier member stored has => by
      change _ ∧ (device.irqPending = true ∨ _) ∧ _
      rw [same]
      exact kept.pending notifier member stored has }

theorem Kept.main (kept : Kept s) (stepped : step .main s = some t) : Kept t := by
  rw [step, mainStep] at stepped
  split at stepped
  case h_2 here =>
    cases stepped
    have none := kept.not_created (by rw [here]; decide)
    exact { kept with
      ready := fun _ => ⟨rfl, kept.live (.inr here), rfl, kept.set here⟩
      live := fun at' => by rcases at' with at' | at' <;> cases at'
      set := fun at' => by cases at'
      known := fun _ => .inl rfl
      quiet := fun _ _ _ => rfl
      eras := fun notifier member era has => ⟨(kept.eras notifier member era has).1, fun _ => rfl⟩
      noticed := fun notifier member era => absurd era (kept.era_ne none member)
      followed := fun notifier member era => absurd era (kept.era_ne none member) }
  case h_5 | h_6 => cases stepped
  all_goals
    rename_i here
    cases stepped
    have none := kept.not_created (by rw [here]; decide)
    have unknown := kept.thread_eq_none none (by rw [here]; decide)
  · exact @Kept.rest s kept none unknown { s.device with sem := Option.none } rfl .idle (by decide)
  · exact @Kept.rest s kept none unknown { s.device with sem := Option.none } rfl
      .setsRunningAgain (by decide)
  · exact @Kept.rest s kept none unknown { s.device with threadRunning := true } rfl .idle
      (by decide)

theorem Kept.notify (kept : Kept s) (stepped : step .notify s = some t) : Kept t := by
  cases stepped
  exact { kept with
    quiet := forall_mem_append_singleton kept.quiet fun underWay => by cases underWay
    eras := forall_mem_append_singleton kept.eras fun era has => by
      by_cases created : s.created = true
      · rw [if_pos created] at has
        cases has
        exact ⟨Nat.le_refl _, fun _ => created⟩
      · rw [if_neg created] at has
        cases has
    noticed := forall_mem_append_singleton kept.noticed fun _ skipped => by cases skipped
    followed := forall_mem_append_singleton kept.followed fun _ _ _ _ returned => by cases returned
    pending := forall_mem_append_singleton kept.pending fun _ has => by cases has }

theorem Kept.notifier (kept : Kept s) (orderly : Orderly (.notifier i) s)
    (stepped : step (.notifier i) s = some t) : Kept t := by
  rw [step, notifierStep] at stepped
  split at stepped
  · rename_i era there
    have member := List.mem_of_getElem? there
    obtain ⟨flag, -⟩ := orderly _ there
    cases stepped
    exact { kept with
      quiet := forall_mem_set kept.quiet fun underWay => by
        by_cases set : s.device.threadRunning = true
        · exact flag rfl set
        · rw [if_neg set] at underWay
          cases underWay
      eras := forall_mem_set kept.eras (kept.eras ⟨era, .checks⟩ member)
      noticed := forall_mem_set kept.noticed fun current skipped => by
        have created := (kept.eras _ member _ current).2 rfl
        rw [if_pos (kept.ready created).2.2.1] at skipped
        cases skipped
      followed := forall_mem_set kept.followed fun _ _ _ _ returned => by
        dsimp only at returned
        split at returned <;> cases returned
      pending := forall_mem_set kept.pending fun _ has => by
        dsimp only at has
        split at has <;> cases has }
  · rename_i era there
    have member := List.mem_of_getElem? there
    obtain ⟨-, noPass⟩ := orderly _ there
    cases stepped
    exact { kept with
      quiet := forall_mem_set kept.quiet fun _ => kept.quiet _ member rfl
      eras := forall_mem_set kept.eras (kept.eras ⟨era, .stores⟩ member)
      noticed := forall_mem_set kept.noticed fun _ skipped => by cases skipped
      followed := forall_mem_set kept.followed fun _ _ _ _ returned => by cases returned
      pending := forall_mem_set
        (fun notifier listed stored has =>
          ⟨(kept.pending notifier listed stored has).1, .inl rfl,
            (kept.pending notifier listed stored has).2.2⟩)
        fun stored has => by
          cases has
          refine ⟨Nat.le_refl _, .inl rfl, fun worker listed pass making => ?_⟩
          rw [noPass rfl worker listed] at making
          cases making }
  · rename_i era stored there
    have member := List.mem_of_getElem? there
    have created := kept.quiet _ member rfl
    obtain ⟨idle, live, running, known⟩ := kept.ready created
    obtain ⟨count, posts⟩ := Option.isSome_iff_exists.mp live
    rw [posts] at stepped
    cases stepped
    exact { kept with
      used := by rw [kept.used]; rfl
      ready := fun _ => ⟨idle, rfl, running, known⟩
      live := fun _ => rfl
      quiet := forall_mem_set kept.quiet fun underWay => by cases underWay
      eras := forall_mem_set kept.eras (kept.eras ⟨era, .posts stored⟩ member)
      noticed := forall_mem_set kept.noticed fun _ skipped => by cases skipped
      followed := forall_mem_set
        (fun notifier listed current stored begun steps returned =>
          (kept.followed notifier listed current stored begun steps returned).imp_right
            fun waits => ⟨waits.1, nofun, waits.2.2⟩)
        fun _ _ _ _ returned => by
          cases returned
          exact .inr ⟨rfl, nofun, fun _ worker _ _ => Nat.add_le_add_left worker.left_le _⟩
      pending := forall_mem_set kept.pending (kept.pending ⟨era, .posts stored⟩ member) }
  all_goals cases stepped

/-- A worker that makes a step is the one that the device knows, and there is a semaphore. -/
theorem Kept.live_of_alive (kept : Kept s) {worker : Worker} (there : s.workers[i]? = some worker)
    (runs : worker ≠ .ended) : s.thread = some i ∧ s.device.sem.isSome = true := by
  have known := kept.alive i worker there runs
  rcases kept.known (by rw [known]; rfl) with created | setting
  · exact ⟨known, (kept.ready created).2.1⟩
  · exact ⟨known, kept.live (.inr setting)⟩

/-- The worker that has made a step still is the one that runs. -/
theorem Kept.alive_set (kept : Kept s) {old new : Worker} (there : s.workers[i]? = some old)
    (runs : old ≠ .ended) (goesOn : new ≠ .ended) :
    (∀ j worker, (s.workers.set i new)[j]? = some worker → worker ≠ .ended →
      s.thread = some j) ∧
    ∀ j, s.thread = some j →
      ∃ worker, (s.workers.set i new)[j]? = some worker ∧ worker ≠ .ended := by
  obtain ⟨known, -⟩ := kept.live_of_alive there runs
  constructor
  · intro j worker listed alive
    rcases (getElem?_set_iff there).mp listed with ⟨rfl, -⟩ | ⟨-, before⟩
    · exact known
    · exact kept.alive j worker before alive
  · intro j knows
    rw [known] at knows
    cases knows
    exact ⟨new, (getElem?_set_iff there).mpr (.inl ⟨rfl, rfl⟩), goesOn⟩

/-- What is left to the worker that has made a step. -/
theorem Kept.left_set (kept : Kept s) {old new : Worker} (there : s.workers[i]? = some old)
    (runs : old ≠ .ended) {n : ℕ} (less : new.left + 1 = old.left)
    (bound : ∀ (j : ℕ) (worker : Worker), s.workers[j]? = some worker → worker ≠ .ended →
      s.steps + worker.left ≤ n) (j : ℕ) (worker : Worker)
    (listed : (s.workers.set i new)[j]? = some worker) (alive : worker ≠ .ended) :
    s.steps + 1 + worker.left ≤ n := by
  obtain ⟨known, -⟩ := kept.live_of_alive there runs
  rcases (getElem?_set_iff there).mp listed with ⟨-, rfl⟩ | ⟨other, before⟩
  · have here := bound i old there runs
    omega
  · have same := kept.alive j worker before alive
    rw [known] at same
    exact absurd (Option.some.inj same).symm other

theorem Kept.worker (kept : Kept s) (stepped : step (.worker i) s = some t) : Kept t := by
  rw [step, workerStep] at stepped
  split at stepped
  · rename_i there
    obtain ⟨known, live⟩ := kept.live_of_alive there (by decide)
    obtain ⟨alive, running⟩ :=
      @Kept.alive_set s i kept _ (.handles s.begun) there (by decide) (by simp)
    split at stepped
    · rename_i gone
      rw [gone] at live
      cases live
    · cases stepped
    · rename_i count counts
      cases stepped
      exact { kept with
        ready := fun created => ⟨(kept.ready created).1, rfl, (kept.ready created).2.2⟩
        live := fun _ => rfl
        alive := alive
        running := running
        followed := fun notifier member era stored begun steps returned => by
          refine .inl ?_
          rcases kept.followed notifier member era stored begun steps returned with
            before | ⟨now, -⟩
          · exact Nat.lt_succ_of_lt before
          · exact now ▸ Nat.lt_succ_self _
        pending := fun notifier member stored has => by
          obtain ⟨early, pending, later⟩ := kept.pending notifier member stored has
          refine ⟨Nat.le_succ_of_le early, pending, forall_mem_set later fun pass making => ?_⟩
          cases making
          exact early }
  · rename_i pass there
    obtain ⟨alive, running⟩ := @Kept.alive_set s i kept _ (.clears pass) there (by simp) (by simp)
    have making := List.mem_of_getElem? there
    cases stepped
    exact { kept with
      alive := alive
      running := running
      followed := fun notifier member era stored begun steps returned =>
        (kept.followed notifier member era stored begun steps returned).imp_right fun waits =>
          ⟨waits.1, waits.2.1, kept.left_set there (by simp) rfl waits.2.2⟩
      pending := fun notifier member stored has => by
        obtain ⟨early, pending, later⟩ := kept.pending notifier member stored has
        exact ⟨early, pending, forall_mem_set later fun pass' same =>
          later _ making pass' same⟩ }
  · rename_i pass there
    obtain ⟨alive, running⟩ := @Kept.alive_set s i kept _ .waits there (by simp) (by simp)
    have making := List.mem_of_getElem? there
    cases stepped
    exact { kept with
      ready := fun created => kept.ready created
      live := kept.live
      alive := alive
      running := running
      followed := fun notifier member era stored begun steps returned =>
        (kept.followed notifier member era stored begun steps returned).imp_right fun waits =>
          ⟨waits.1, waits.2.1, kept.left_set there (by simp) rfl waits.2.2⟩
      pending := fun notifier member stored has => by
        -- no notification has been stored since the pass began
        obtain ⟨early, -, later⟩ := kept.pending notifier member stored has
        exact ⟨early, .inr ⟨pass, List.mem_cons_self, later _ making pass rfl⟩,
          forall_mem_set later fun _ none => by cases none⟩ }
  all_goals cases stepped

theorem Kept.step (kept : Kept s) {act : Act} (orderly : Orderly act s)
    (stepped : step act s = some t) : Kept t := by
  cases act with
  | create succeeds => exact kept.create orderly stepped
  | start succeeds => exact kept.start stepped
  | destroy ends => exact kept.destroy orderly stepped
  | main => exact kept.main stepped
  | notify => exact kept.notify stepped
  | notifier i => exact kept.notifier orderly stepped
  | worker i => exact kept.worker stepped

/-! ### Runs -/

/-- A worker that is left alone begins a pass if the semaphore has been posted. -/
theorem exists_pass {worker : Worker} {count : ℕ} (there : s.workers[i]? = some worker)
    (alive : worker ≠ .ended) (counts : s.device.sem = some (count + 1)) :
    ∃ t, runs SdioIrq.step s (List.replicate (worker.left + 1) (.worker i)) = some t ∧
      t.begun = s.begun + 1 := by
  have goesOn (s : State) {n : ℕ} : runs SdioIrq.step s (List.replicate (n + 1) (.worker i)) =
      (workerStep i s).bind fun t => runs SdioIrq.step t (List.replicate n (.worker i)) := rfl
  have again (new : Worker) : (s.workers.set i new)[i]? = some new :=
    (getElem?_set_iff there).mpr (.inl ⟨rfl, rfl⟩)
  have twice (new newer : Worker) : ((s.workers.set i new).set i newer)[i]? = some newer :=
    (getElem?_set_iff (again new)).mpr (.inl ⟨rfl, rfl⟩)
  cases worker with
  | waits =>
    rw [Worker.left, goesOn, workerStep, there]
    dsimp only
    rw [counts]
    exact ⟨_, rfl, rfl⟩
  | clears pass =>
    rw [Worker.left, goesOn, workerStep, there, Option.bind_some, goesOn, workerStep]
    dsimp only
    rw [again]
    dsimp only
    rw [counts]
    exact ⟨_, rfl, rfl⟩
  | handles pass =>
    rw [Worker.left, goesOn, workerStep, there, Option.bind_some, goesOn, workerStep]
    dsimp only
    rw [again, Option.bind_some, goesOn, workerStep]
    dsimp only
    rw [twice]
    dsimp only
    rw [counts]
    exact ⟨_, rfl, rfl⟩
  | ended => exact absurd rfl alive

theorem Kept.lifeCycle (kept : Kept s) : LifeCycle s where
  used := kept.used
  noticed := kept.noticed
  followed notifier member era stored begun steps returned := by
    refine (kept.followed notifier member era stored begun steps returned).imp_right ?_
    rintro ⟨rfl, posted, bound⟩
    have created := (kept.eras notifier member _ era).2 rfl
    obtain ⟨-, live, -, knows⟩ := kept.ready created
    obtain ⟨i, known⟩ := Option.isSome_iff_exists.mp knows
    obtain ⟨worker, there, alive⟩ := kept.running i known
    obtain ⟨_ | count, counts⟩ := Option.isSome_iff_exists.mp live
    · exact absurd counts posted
    · have soon := bound i worker there alive
      obtain ⟨t, ran, more⟩ := exists_pass there alive counts
      exact ⟨by omega, i, worker.left + 1, t, Nat.succ_le_succ worker.left_le, ran, by omega⟩
  pending notifier member _ stored has := (kept.pending notifier member stored has).2.1

end

/-- The life cycle, in every run whose steps are orderly. -/
theorem lifeCycle_of_orderly {acts : List Act} {s : State} (ran : runs step fresh acts = some s)
    (orderly : Meets step Orderly fresh acts) : LifeCycle s :=
  (runs_invariant (fun _ _ _ kept orderly stepped => Kept.step kept orderly stepped) Kept.fresh
    orderly ran).lifeCycle

/-- The worker is created, serves a notification and is destroyed. -/
def servedOnce : List Act :=
  [.create true, .start true, .main, .notify, .notifier 0, .notifier 0, .notifier 0, .worker 0,
    .worker 0, .worker 0, .destroy true, .main, .main]

theorem lifeCycle_servedOnce :
    ∃ s, runs step fresh servedOnce = some s ∧ s.finished = [0] ∧ LifeCycle s :=
  ⟨_, rfl, rfl, @lifeCycle_of_orderly servedOnce _ rfl (by decide)⟩

/-- A notification after the worker has been destroyed posts the destroyed semaphore. -/
theorem notified_after_destroy : ¬ ∀ acts s, runs step fresh acts = some s → LifeCycle s := by
  intro always
  have lifeCycle := always [.create true, .start true, .main, .destroy true, .main, .main,
    .notify, .notifier 0, .notifier 0, .notifier 0] _ rfl
  exact absurd lifeCycle.used (by decide)

end Hdf.Storage.SdioIrq
