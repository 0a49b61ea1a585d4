import Hdf.Lib.Runs
import Hdf.Lib.Threads
import Mathlib.Logic.Relation

/-!
# Threads that take locks

A program takes and releases locks, acts on a state that all threads share, and calls
procedures by name, which may be recursive. A thread runs one operation. Every step of
every thread is one step of the system; a lock that is held cannot be taken.

Threads do not wait for each other in a cycle if every thread takes a lock only above
all it holds, or takes one that no other thread that runs at the same time can hold.

## Main results

* `deadlockFree_of_runs`: threads that follow a discipline do not deadlock
-/

namespace Hdf.Locks

open Relation Threads

variable {σ L O P α β : Type} {Result : P → Type}

/-- A program. Taking a lock may fail instead, and an action may go one way or the other;
which of the two happens is the outcome of the step. -/
inductive Program (σ L : Type) (Result : P → Type) (α : Type) : Type where
  | done (result : α)
  | acquire (lock : L) (next : Bool → Program σ L Result α)
  | release (lock : L) (next : Program σ L Result α)
  | act (write : σ → Bool → σ) (next : σ → Bool → Program σ L Result α)
  | call (p : P) (next : Result p → Program σ L Result α)

namespace Program

/-- One program after the other. -/
def bind : Program σ L Result α → (α → Program σ L Result β) → Program σ L Result β
  | done result, rest => rest result
  | acquire lock next, rest => acquire lock fun outcome => (next outcome).bind rest
  | release lock next, rest => release lock (next.bind rest)
  | act write next, rest => act write fun state outcome => (next state outcome).bind rest
  | call p next, rest => call p fun result => (next result).bind rest

instance : Monad (Program σ L Result) where
  pure := done
  bind := bind

end Program

/-- Takes a lock, and tells if that has been successful. -/
def lock (l : L) : Program σ L Result Bool := .acquire l .done

/-- Releases a lock. -/
def unlock (l : L) : Program σ L Result Unit := .release l (.done ())

/-- Reads something from the shared state. -/
def get (read : σ → α) : Program σ L Result α :=
  .act (fun state _ => state) fun state _ => .done (read state)

/-- An action whose effect depends on its outcome. -/
def attempt (write : σ → Bool → σ) : Program σ L Result Bool :=
  .act write fun _ outcome => .done outcome

/-- Calls a procedure. -/
def invoke (p : P) : Program σ L Result (Result p) := .call p .done

/-- A thread: the operation it runs, the locks it holds, the last one first, and what is left
to do. -/
structure Thread (σ L O : Type) (Result : P → Type) where
  op : O
  held : List L
  rest : Program σ L Result Unit

/-- A state and the threads that share it. -/
structure System (σ L O : Type) (Result : P → Type) where
  shared : σ
  threads : List (Thread σ L O Result)

/-- An operation begins, or a thread makes a step. -/
inductive Action (O : Type) where
  | start (op : O)
  | advance (i : ℕ) (outcome : Bool)

/-- A thread has not finished. -/
def Thread.Runs (thread : Thread σ L O Result) : Prop := ∀ result, thread.rest ≠ .done result

/-- A thread holds a lock. -/
def System.Held (s : System σ L O Result) (l : L) : Prop := ∃ thread ∈ s.threads, l ∈ thread.held

instance [DecidableEq L] (s : System σ L O Result) (l : L) : Decidable (s.Held l) :=
  inferInstanceAs (Decidable (∃ thread ∈ s.threads, l ∈ thread.held))

/-- A thread has made a step. -/
def System.set (s : System σ L O Result) (i : ℕ) (thread : Thread σ L O Result) :
    System σ L O Result :=
  { s with threads := s.threads.set i thread }

section

variable [DecidableEq L] (body : (p : P) → Program σ L Result (Result p))

/-- A step of a thread. -/
def advance (i : ℕ) (outcome : Bool) (s : System σ L O Result) : Option (System σ L O Result) :=
  match s.threads[i]? with
  | none => none
  | some thread =>
    match thread.rest with
    | .done _ => none
    | .acquire l next =>
      if outcome then
        if s.Held l then none
        else some (s.set i { thread with held := l :: thread.held, rest := next true })
      else some (s.set i { thread with rest := next false })
    | .release l next => some (s.set i { thread with held := thread.held.erase l, rest := next })
    | .act write next => some
      { s.set i { thread with rest := next s.shared outcome } with
        shared := write s.shared outcome }
    | .call p next => some (s.set i { thread with rest := (body p).bind next })

/-- A step of the system. -/
def step (code : O → Program σ L Result Unit) (action : Action O) (s : System σ L O Result) :
    Option (System σ L O Result) :=
  match action with
  | .start op => some { s with threads := s.threads ++ [⟨op, [], code op⟩] }
  | .advance i outcome => advance body i outcome s

end

/-! ### Deadlocks -/

/-- The lock that a thread is about to take. -/
def Thread.wants (thread : Thread σ L O Result) : Option L :=
  match thread.rest with
  | .acquire l _ => some l
  | _ => none

/-- A thread is about to take a lock that a thread holds. -/
def Waits (s : System σ L O Result) (i j : ℕ) : Prop :=
  ∃ l, (∃ thread, s.threads[i]? = some thread ∧ thread.wants = some l) ∧
    ∃ thread, s.threads[j]? = some thread ∧ l ∈ thread.held

/-- No thread waits for itself or in a cycle, and whoever has finished holds no lock. -/
structure DeadlockFree (s : System σ L O Result) : Prop where
  acyclic : ∀ i, ¬ TransGen (Waits s) i i
  released : ∀ thread ∈ s.threads, ¬ thread.Runs → thread.held = []

/-! ### Disciplines -/

/-- A program takes only locks that it may take, ends with the locks of `base` and a result as
`post` says, and calls only procedures that it may call. -/
inductive Follows (inv : σ → Prop) (may : L → List L → Prop) (pre : P → List L → Prop)
    (base : List L) (post : α → Prop) : List L → Program σ L Result α → Prop
  | done {result : α} (holds : post result) : Follows inv may pre base post base (.done result)
  | acquire {l : L} {held : List L} {next : Bool → Program σ L Result α} (allowed : may l held)
    (taken : Follows inv may pre base post (l :: held) (next true))
    (failed : Follows inv may pre base post held (next false)) :
    Follows inv may pre base post held (.acquire l next)
  | release {l : L} {held : List L} {next : Program σ L Result α}
    (rest : Follows inv may pre base post held next) :
    Follows inv may pre base post (l :: held) (.release l next)
  | act {held : List L} {write : σ → Bool → σ} {next : σ → Bool → Program σ L Result α}
    (keeps : ∀ state outcome, inv state → inv (write state outcome))
    (rest : ∀ state outcome, inv state → Follows inv may pre base post held (next state outcome)) :
    Follows inv may pre base post held (.act write next)
  | call {p : P} {held : List L} {next : Result p → Program σ L Result α}
    (allowed : pre p held) (rest : ∀ result, Follows inv may pre base post held (next result)) :
    Follows inv may pre base post held (.call p next)

/-- What the threads keep to: an invariant of the shared state, which locks an operation may
take while it holds which others, and which procedures it may call then. Locks are taken
upwards, or else they are safe from all operations that may run at the same time. -/
structure Discipline (σ L O : Type) (Result : P → Type)
    (body : (p : P) → Program σ L Result (Result p)) where
  inv : σ → Prop
  may : O → L → List L → Prop
  pre : O → P → List L → Prop
  rank : L → ℕ
  Safe : O → O → Prop
  bodies : ∀ op p held, pre op p held →
    Follows inv (may op) (pre op) held (fun _ => True) held (body p)
  fresh : ∀ op l held, may op l held → l ∉ held
  apart : ∀ op op' l held held', Safe op op' → may op l held → may op' l held' →
    (∀ l' ∈ held, rank l' < rank l) ∨ ∃ l' ∈ held, l' ∈ held'

section

variable {inv : σ → Prop} {may : L → List L → Prop} {pre : P → List L → Prop}
  {base held : List L} {l : L} {post : α → Prop} {post' : β → Prop}

theorem Follows.bind {program : Program σ L Result α} {rest : α → Program σ L Result β}
    {mid : List L} (first : Follows inv may pre mid post held program)
    (second : ∀ result, post result → Follows inv may pre base post' mid (rest result)) :
    Follows inv may pre base post' held (program.bind rest) := by
  induction first with
  | done holds => exact second _ holds
  | acquire allowed _ _ taken failed => exact .acquire allowed taken failed
  | release _ rest => exact .release rest
  | act keeps _ rest => exact .act keeps rest
  | call allowed _ rest => exact .call allowed rest

theorem Follows.of_done {result : α}
    (follows : Follows inv may pre base post held (.done result : Program σ L Result α)) :
    held = base := by
  cases follows
  rfl

theorem Follows.of_acquire {next : Bool → Program σ L Result α}
    (follows : Follows inv may pre base post held (.acquire l next)) :
    may l held ∧ Follows inv may pre base post (l :: held) (next true) ∧
      Follows inv may pre base post held (next false) := by
  cases follows with
  | acquire allowed taken failed => exact ⟨allowed, taken, failed⟩

theorem Follows.of_release {next : Program σ L Result α}
    (follows : Follows inv may pre base post held (.release l next)) :
    ∃ rest, held = l :: rest ∧ Follows inv may pre base post rest next := by
  cases follows with
  | release rest => exact ⟨_, rfl, rest⟩

theorem Follows.of_act {write : σ → Bool → σ} {next : σ → Bool → Program σ L Result α}
    (follows : Follows inv may pre base post held (.act write next)) :
    (∀ state outcome, inv state → inv (write state outcome)) ∧
      ∀ state outcome, inv state → Follows inv may pre base post held (next state outcome) := by
  cases follows with
  | act keeps rest => exact ⟨keeps, rest⟩

theorem Follows.of_call {p : P} {next : Result p → Program σ L Result α}
    (follows : Follows inv may pre base post held (.call p next)) :
    pre p held ∧ ∀ result, Follows inv may pre base post held (next result) := by
  cases follows with
  | call allowed rest => exact ⟨allowed, rest⟩

/-! ### The rules for programs -/

theorem Follows.pure {result : α} (holds : post result) :
    Follows inv may pre base post base (Pure.pure result : Program σ L Result α) :=
  .done holds

theorem Follows.lock {rest : Bool → Program σ L Result α} (allowed : may l held)
    (taken : Follows inv may pre base post (l :: held) (rest true))
    (failed : Follows inv may pre base post held (rest false)) :
    Follows inv may pre base post held (Locks.lock l >>= rest) :=
  .acquire allowed taken failed

theorem Follows.unlock {rest : Unit → Program σ L Result α}
    (next : Follows inv may pre base post held (rest ())) :
    Follows inv may pre base post (l :: held) (Locks.unlock l >>= rest) :=
  .release next

theorem Follows.get {read : σ → β} {rest : β → Program σ L Result α}
    (next : ∀ state, inv state → Follows inv may pre base post held (rest (read state))) :
    Follows inv may pre base post held (Locks.get read >>= rest) :=
  .act (fun _ _ => id) fun state _ => next state

theorem Follows.attempt {write : σ → Bool → σ} {rest : Bool → Program σ L Result α}
    (keeps : ∀ state outcome, inv state → inv (write state outcome))
    (next : ∀ outcome, Follows inv may pre base post held (rest outcome)) :
    Follows inv may pre base post held (Locks.attempt write >>= rest) :=
  .act keeps fun _ outcome _ => next outcome

theorem Follows.invoke {p : P} {rest : Result p → Program σ L Result α} (allowed : pre p held)
    (next : ∀ result, Follows inv may pre base post held (rest result)) :
    Follows inv may pre base post held (Locks.invoke p >>= rest) :=
  .call allowed next

/-- A block that gives back all locks it takes. -/
theorem Follows.seq {first : Program σ L Result α} {rest : α → Program σ L Result β}
    (block : Follows inv may pre held post held first)
    (next : ∀ result, post result → Follows inv may pre base post' held (rest result)) :
    Follows inv may pre base post' held (first >>= rest) :=
  block.bind next

end

/-! ### Runs that follow a discipline -/

section

variable {body : (p : P) → Program σ L Result (Result p)} {code : O → Program σ L Result Unit}
  {d : Discipline σ L O Result body} {s t : System σ L O Result} {i j : ℕ} {l : L}
  {thread before after : Thread σ L O Result}

/-- An operation may begin next to those that are running. -/
def Discipline.Begins (d : Discipline σ L O Result body) (code : O → Program σ L Result Unit)
    (op : O) (s : System σ L O Result) : Prop :=
  Follows d.inv (d.may op) (d.pre op) [] (fun _ => True) [] (code op) ∧
    ∀ thread ∈ s.threads, thread.Runs → d.Safe thread.op op ∧ d.Safe op thread.op

/-- The steps of threads that follow a discipline. -/
def Discipline.Orderly (d : Discipline σ L O Result body) (code : O → Program σ L Result Unit)
    (action : Action O) (s : System σ L O Result) : Prop :=
  match action with
  | .start op => d.Begins code op s
  | .advance _ _ => True

/-- What holds of a thread: it follows its discipline, and has taken every lock as it may. -/
structure Keeps (d : Discipline σ L O Result body) (thread : Thread σ L O Result) : Prop where
  follows : Follows d.inv (d.may thread.op) (d.pre thread.op) [] (fun _ => True) thread.held
    thread.rest
  stacked : ∀ l held, l :: held <:+ thread.held → d.may thread.op l held

/-- What holds of a system. -/
structure Kept (d : Discipline σ L O Result body) (s : System σ L O Result) : Prop where
  shared : d.inv s.shared
  threads : ∀ thread ∈ s.threads, Keeps d thread
  exclusive : ∀ (i j : ℕ) (thread thread' : Thread σ L O Result), i ≠ j →
    s.threads[i]? = some thread → s.threads[j]? = some thread' → ∀ l ∈ thread.held, l ∉ thread'.held
  safe : ∀ (i j : ℕ) (thread thread' : Thread σ L O Result), i ≠ j →
    s.threads[i]? = some thread → s.threads[j]? = some thread' → thread.Runs → thread'.Runs →
      d.Safe thread.op thread'.op

theorem Keeps.held_of_done (keeps : Keeps d thread) (finished : ¬ thread.Runs) :
    thread.held = [] := by
  obtain ⟨result, done⟩ := not_forall_not.mp finished
  have follows := keeps.follows
  rw [done] at follows
  exact follows.of_done

theorem Keeps.runs_of_mem (keeps : Keeps d thread) (holds : l ∈ thread.held) : thread.Runs := by
  by_contra finished
  rw [keeps.held_of_done finished] at holds
  exact List.not_mem_nil holds

/-- What a thread is about to take. -/
theorem Keeps.may_of_wants (keeps : Keeps d thread) (wants : thread.wants = some l) :
    d.may thread.op l thread.held ∧ thread.Runs := by
  have follows := keeps.follows
  unfold Thread.wants at wants
  split at wants
  · rename_i lock next rest
    cases wants
    rw [rest] at follows
    exact ⟨follows.of_acquire.1, fun result done => by cases rest.symm.trans done⟩
  · cases wants

theorem Kept.mem_of_wants (kept : Kept d s) (there : s.threads[i]? = some thread)
    (wants : thread.wants = some l) : d.may thread.op l thread.held ∧ thread.Runs :=
  (kept.threads thread (List.mem_of_getElem? there)).may_of_wants wants

/-- A thread that waits for a lock that is held waits upwards. -/
theorem Kept.upward (kept : Kept d s) {holder : Thread σ L O Result}
    (there : s.threads[i]? = some thread) (wants : thread.wants = some l)
    (there' : s.threads[j]? = some holder) (holds : l ∈ holder.held) :
    ∀ l' ∈ thread.held, d.rank l' < d.rank l := by
  obtain ⟨allowed, runs⟩ := kept.mem_of_wants there wants
  by_cases same : i = j
  · subst same
    obtain rfl := Option.some.inj (there.symm.trans there')
    exact absurd holds (d.fresh _ _ _ allowed)
  · have keeps := kept.threads holder (List.mem_of_getElem? there')
    obtain ⟨above, held, stack⟩ := List.append_of_mem holds
    have below : l :: held <:+ holder.held := ⟨above, stack.symm⟩
    have safe := kept.safe i j thread holder same there there' runs (keeps.runs_of_mem holds)
    refine (d.apart _ _ _ _ _ safe allowed (keeps.stacked l held below)).resolve_right ?_
    rintro ⟨l', first, second⟩
    exact kept.exclusive i j thread holder same there there' l' first
      (below.subset (List.mem_cons_of_mem _ second))

/-- Along a chain of threads that wait, the locks they wait for go up. -/
theorem Kept.climbs (kept : Kept d s) (chain : TransGen (Waits s) i j) {first last : L}
    (wants : ∃ thread, s.threads[i]? = some thread ∧ thread.wants = some first)
    (wants' : ∃ thread, s.threads[j]? = some thread ∧ thread.wants = some last)
    (held : ∃ (k : ℕ) (thread : Thread σ L O Result), s.threads[k]? = some thread ∧
      last ∈ thread.held) :
    d.rank first < d.rank last := by
  induction chain using TransGen.head_induction_on generalizing first with
  | single waits =>
    obtain ⟨l, ⟨thread, there, wanted⟩, holder, there', holds⟩ := waits
    obtain ⟨thread', there'', wanted'⟩ := wants
    obtain rfl := Option.some.inj (there.symm.trans there'')
    obtain rfl := Option.some.inj (wanted.symm.trans wanted')
    obtain ⟨holder', there''', wanted''⟩ := wants'
    obtain rfl := Option.some.inj (there'.symm.trans there''')
    obtain ⟨k, thread'', there'', holds'⟩ := held
    exact kept.upward there' wanted'' there'' holds' l holds
  | head waits chain ih =>
    obtain ⟨l, ⟨thread, there, wanted⟩, holder, there', holds⟩ := waits
    obtain ⟨thread', there'', wanted'⟩ := wants
    obtain rfl := Option.some.inj (there.symm.trans there'')
    obtain rfl := Option.some.inj (wanted.symm.trans wanted')
    -- the next thread in the chain waits as well
    obtain ⟨k, ⟨l', ⟨next, there'', wanted'⟩, holder', there''', holds'⟩, -⟩ :=
      TransGen.head'_iff.mp chain
    obtain rfl := Option.some.inj (there'.symm.trans there'')
    exact Nat.lt_trans (kept.upward there' wanted' there''' holds' l holds)
      (ih ⟨holder, there', wanted'⟩)

theorem Kept.deadlockFree (kept : Kept d s) : DeadlockFree s where
  acyclic i cycle := by
    obtain ⟨k, ⟨l, wants, holder, there, holds⟩, -⟩ := TransGen.head'_iff.mp cycle
    exact Nat.lt_irrefl _ (kept.climbs cycle wants wants ⟨k, holder, there, holds⟩)
  released thread member finished := (kept.threads thread member).held_of_done finished

/-! ### Steps -/

theorem Kept.of_set (kept : Kept d s) (there : s.threads[i]? = some before) (runs : before.Runs)
    (threads : t.threads = s.threads.set i after) (shared : d.inv t.shared)
    (op : after.op = before.op) (keeps : Keeps d after)
    (locks : ∀ l ∈ after.held, l ∈ before.held ∨ ¬ s.Held l) : Kept d t := by
  have held {j : ℕ} {thread : Thread σ L O Result} (other : s.threads[j]? = some thread)
      (differs : i ≠ j) : ∀ l ∈ after.held, l ∉ thread.held := by
    intro l holds holds'
    rcases locks l holds with old | new
    · exact kept.exclusive i j before thread differs there other l old holds'
    · exact new ⟨thread, List.mem_of_getElem? other, holds'⟩
  refine ⟨shared, fun thread member => ?_, fun j k thread thread' differs first second => ?_,
    fun j k thread thread' differs first second runs' runs'' => ?_⟩
  · rw [threads] at member
    rcases mem_set_cases member with rfl | member
    · exact keeps
    · exact kept.threads thread member
  · rw [threads, getElem?_set_iff there] at first second
    rcases first with ⟨rfl, rfl⟩ | ⟨other, first⟩
    · rcases second with ⟨rfl, -⟩ | ⟨other, second⟩
      · exact absurd rfl differs
      · exact held second differs
    · rcases second with ⟨rfl, rfl⟩ | ⟨-, second⟩
      · exact fun l holds holds' => held first other.symm l holds' holds
      · exact kept.exclusive j k thread thread' differs first second
  · rw [threads, getElem?_set_iff there] at first second
    rcases first with ⟨rfl, rfl⟩ | ⟨other, first⟩
    · rcases second with ⟨rfl, -⟩ | ⟨other, second⟩
      · exact absurd rfl differs
      · rw [op]
        exact kept.safe j k before thread' differs there second runs runs''
    · rcases second with ⟨rfl, rfl⟩ | ⟨-, second⟩
      · rw [op]
        exact kept.safe j k thread before differs first there runs' runs
      · exact kept.safe j k thread thread' differs first second runs' runs''

theorem Kept.start (kept : Kept d s) {op : O} (begins : d.Begins code op s) :
    Kept d { s with threads := s.threads ++ [⟨op, [], code op⟩] } := by
  obtain ⟨follows, safe⟩ := begins
  refine ⟨kept.shared, fun thread member => ?_, fun j k thread thread' differs first second => ?_,
    fun j k thread thread' differs first second runs runs' => ?_⟩
  · rcases List.mem_append.mp member with old | new
    · exact kept.threads thread old
    · obtain rfl := List.mem_singleton.mp new
      refine ⟨follows, fun l held suffix => ?_⟩
      exact absurd (suffix.subset (List.mem_cons_self ..)) List.not_mem_nil
  · rcases getElem?_append_singleton_iff.mp first with first | ⟨-, rfl⟩
    · rcases getElem?_append_singleton_iff.mp second with second | ⟨-, rfl⟩
      · exact kept.exclusive j k thread thread' differs first second
      · exact fun _ _ => List.not_mem_nil
    · exact fun l holds => absurd holds List.not_mem_nil
  · rcases getElem?_append_singleton_iff.mp first with first | ⟨here, rfl⟩
    · rcases getElem?_append_singleton_iff.mp second with second | ⟨-, rfl⟩
      · exact kept.safe j k thread thread' differs first second runs runs'
      · exact (safe thread (List.mem_of_getElem? first) runs).1
    · rcases getElem?_append_singleton_iff.mp second with second | ⟨here', -⟩
      · exact (safe thread' (List.mem_of_getElem? second) runs').2
      · exact absurd (here.trans here'.symm) differs

variable [DecidableEq L]

theorem Kept.advance (kept : Kept d s) {outcome : Bool}
    (stepped : Locks.advance body i outcome s = some t) : Kept d t := by
  rw [Locks.advance] at stepped
  split at stepped
  · cases stepped
  rename_i thread there
  have keeps := kept.threads thread (List.mem_of_getElem? there)
  have follows := keeps.follows
  split at stepped
  · cases stepped
  · rename_i l next rest
    rw [rest] at follows
    obtain ⟨allowed, taken, failed⟩ := follows.of_acquire
    have runs : thread.Runs := fun result done => by cases rest.symm.trans done
    split at stepped
    · split at stepped
      · cases stepped
      · rename_i free
        cases stepped
        refine kept.of_set there runs rfl kept.shared rfl ⟨taken, fun l' held suffix => ?_⟩ ?_
        · rcases List.suffix_cons_iff.mp suffix with same | below
          · cases same
            exact allowed
          · exact keeps.stacked l' held below
        · intro l' holds
          rcases List.mem_cons.mp holds with rfl | old
          · exact .inr free
          · exact .inl old
    · cases stepped
      exact kept.of_set there runs rfl kept.shared rfl ⟨failed, keeps.stacked⟩ fun _ => .inl
  · rename_i l next rest
    rw [rest] at follows
    obtain ⟨held, top, follows⟩ := follows.of_release
    have runs : thread.Runs := fun result done => by cases rest.symm.trans done
    have left : thread.held.erase l = held := by rw [top, List.erase_cons_head]
    cases stepped
    refine kept.of_set there runs rfl kept.shared rfl ⟨left ▸ follows, fun l' held' suffix => ?_⟩
      fun l' holds => .inl (List.mem_of_mem_erase holds)
    refine keeps.stacked l' held' ?_
    rw [top]
    exact (left ▸ suffix).trans (List.suffix_cons l held)
  · rename_i write next rest
    rw [rest] at follows
    obtain ⟨writes, follows⟩ := follows.of_act
    have runs : thread.Runs := fun result done => by cases rest.symm.trans done
    cases stepped
    exact kept.of_set there runs rfl (writes _ _ kept.shared) rfl
      ⟨follows _ _ kept.shared, keeps.stacked⟩ fun _ => .inl
  · rename_i p next rest
    rw [rest] at follows
    obtain ⟨allowed, follows⟩ := follows.of_call
    have runs : thread.Runs := fun result done => by cases rest.symm.trans done
    cases stepped
    exact kept.of_set there runs rfl kept.shared rfl
      ⟨(d.bodies _ p _ allowed).bind fun result _ => follows result, keeps.stacked⟩ fun _ => .inl

theorem Kept.step (kept : Kept d s) {action : Action O} (orderly : d.Orderly code action s)
    (stepped : Locks.step body code action s = some t) : Kept d t := by
  cases action with
  | start op =>
    cases stepped
    exact kept.start orderly
  | advance i outcome => exact kept.advance stepped

/-- Threads that follow a discipline do not deadlock. -/
theorem deadlockFree_of_runs {shared : σ} {actions : List (Action O)} (inv : d.inv shared)
    (orderly : Meets (Locks.step body code) (d.Orderly code) ⟨shared, []⟩ actions)
    (ran : runs (Locks.step body code) ⟨shared, []⟩ actions = some s) : DeadlockFree s := by
  have begun : Kept d ⟨shared, []⟩ :=
    ⟨inv, by simp, by simp, by simp⟩
  exact (runs_invariant (fun _ _ _ kept orderly stepped => kept.step orderly stepped) begun
    orderly ran).deadlockFree

end

end Hdf.Locks
