import Hdf.Core.Base
import Hdf.Lib.Runs
import Hdf.Lib.Threads

/-!
# The priority queue of a dispatcher

A priority queue has a bounded queue for every level and one semaphore. A producer
puts its message into the queue of a level and then posts the semaphore. A consumer
looks at the levels one after the other; if it finds nothing it waits for the
semaphore and looks at all of them once more.

A message carries the number of the `PushQueue` call that has put it into its queue,
a consumer that scans the levels the number of such calls when it began to. Every
access to a queue and to the semaphore is a step of its own.

## Main definitions

* `PriorityQueueImpl`, `createPriorityQueue`: the queues and the semaphore
* `Call`, `advance`: what a call does next
* `State`, `step`: any number of calls, and their steps in any order

## Main results

* `served_of_runs`: messages are taken once and in order, and no consumer sleeps over
  a message
* `sleeps_over_message`: a consumer may sleep while a push has not posted yet
-/

namespace Hdf.Wifi.PriorityQueue

open Hdf.Core Threads

/-- `MAX_PRIORITY_LEVEL`. -/
def maxPriorityLevel : ℕ := 8

/-- A message, with the number of the call that has put it into its queue. -/
structure Message where
  context : ℕ
  stamp : ℕ
  deriving DecidableEq, Repr

/-- `PriorityQueueImpl`. The queues have a common bound; `pushes` counts the messages that have
been put into a queue so far. -/
structure PriorityQueueImpl where
  queues : List (List Message)
  queueSize : ℕ
  messageSemaphore : ℕ
  pushes : ℕ
  deriving DecidableEq, Repr

/-- `CreatePriorityQueue`, if the allocations succeed. -/
def createPriorityQueue (queueSize : UInt16) (priorityLevelCount : UInt8) :
    Option PriorityQueueImpl :=
  if maxPriorityLevel < priorityLevelCount.toNat ∨ priorityLevelCount = 0 then none
  else some {
    queues := List.replicate priorityLevelCount.toNat []
    queueSize := queueSize.toNat
    messageSemaphore := 0
    pushes := 0 }

/-- The level that a priority stands for. -/
def PriorityQueueImpl.levelOf (queueImpl : PriorityQueueImpl) (priority : UInt8) : ℕ :=
  if queueImpl.queues.length ≤ priority.toNat then queueImpl.queues.length - 1
  else priority.toNat

/-- A call, and what it does next: `PushPriorityQueue` puts the message into its queue or posts
the semaphore, `PopPriorityQueue` looks at a level, before or after it has waited, or waits. -/
inductive Call where
  | push (priority : UInt8) (context : Option ℕ)
  | post (stamp : ℕ)
  | pushed (ret : HdfStatus)
  | scan (woken : Bool) (level since : ℕ) (waitInMS : UInt32)
  | wait (waitInMS : UInt32)
  | popped (message : Option Message)
  deriving DecidableEq, Repr

/-- The next step of a call. A call that has returned makes none, and one that waits only when
the semaphore has been posted. -/
def advance (queueImpl : PriorityQueueImpl) : Call → Option (PriorityQueueImpl × Call)
  | .push priority context =>
    match context with
    | none => some (queueImpl, .pushed .failure)
    | some context =>
      let pri := queueImpl.levelOf priority
      match queueImpl.queues[pri]? with
      | none => none
      | some queue =>
        if queue.length < queueImpl.queueSize then
          let message := { context := context, stamp := queueImpl.pushes }
          some ({ queueImpl with
            queues := queueImpl.queues.set pri (queue ++ [message])
            pushes := queueImpl.pushes + 1 }, .post queueImpl.pushes)
        else some (queueImpl, .pushed .failure)
  | .post _ =>
    some ({ queueImpl with messageSemaphore := queueImpl.messageSemaphore + 1 }, .pushed .success)
  | .scan woken level since waitInMS =>
    match queueImpl.queues[level]? with
    | some [] =>
      let since := if level = 0 then queueImpl.pushes else since
      some (queueImpl, .scan woken (level + 1) since waitInMS)
    | some (context :: rest) =>
      some ({ queueImpl with queues := queueImpl.queues.set level rest }, .popped (some context))
    | none => some (queueImpl, if woken || waitInMS == 0 then .popped none else .wait waitInMS)
  | .wait waitInMS =>
    if 0 < queueImpl.messageSemaphore then
      some ({ queueImpl with messageSemaphore := queueImpl.messageSemaphore - 1 },
        .scan true 0 0 waitInMS)
    else none
  | .pushed _ | .popped _ => none

/-- A priority queue and all calls that have been made so far. -/
structure State where
  queueImpl : PriorityQueueImpl
  calls : List Call
  deriving DecidableEq, Repr

/-- What happens next. -/
inductive Action where
  | pushPriorityQueue (priority : UInt8) (context : Option ℕ)
  | popPriorityQueue (waitInMS : UInt32)
  | advance (i : ℕ)
  | timeout (i : ℕ)
  deriving DecidableEq, Repr

/-- A new call, the next step of a call or the end of a wait without success. -/
def step (action : Action) (s : State) : Option State :=
  match action with
  | .pushPriorityQueue priority context =>
    some { s with calls := s.calls ++ [.push priority context] }
  | .popPriorityQueue waitInMS =>
    some { s with calls := s.calls ++ [.scan false 0 0 waitInMS] }
  | .advance i =>
    s.calls[i]?.bind fun call =>
      (advance s.queueImpl call).map fun (queueImpl, call) =>
        { queueImpl := queueImpl, calls := s.calls.set i call }
  | .timeout i =>
    match s.calls[i]? with
    | some (.wait _) => some { s with calls := s.calls.set i (.popped none) }
    | _ => none

/-- The state before the first call. -/
def start (queueImpl : PriorityQueueImpl) : State := { queueImpl := queueImpl, calls := [] }

/-! ### What holds in every state -/

/-- The call has got a message. -/
def Call.got (stamp : ℕ) : Call → Bool
  | .popped (some message) => message.stamp == stamp
  | _ => false

/-- The call has passed its wait and has levels from `l` on to look at, or none. -/
def Call.past (l : ℕ) : Call → Bool
  | .scan woken level _ _ => woken && decide (l ≤ level)
  | _ => false

/-- The call has put its message into a queue and has not posted the semaphore. -/
def Call.posts : Call → Bool
  | .post _ => true
  | _ => false

/-- The messages are taken once and in order, and no consumer sleeps over a message. -/
structure Served (s : State) : Prop where
  once : ∀ stamp, s.calls.countP (Call.got stamp) ≤ 1
  oldest : ∀ (i : ℕ) (t : State) (message : Message), step (.advance i) s = some t →
    t.calls[i]? = some (.popped (some message)) →
    ∃ woken level since waitInMS rest, s.calls[i]? = some (.scan woken level since waitInMS) ∧
      s.queueImpl.queues[level]? = some (message :: rest) ∧
      (∀ later ∈ rest, message.stamp < later.stamp) ∧
      ∀ higher < level, ∀ queue ∈ s.queueImpl.queues[higher]?, ∀ other ∈ queue,
        since ≤ other.stamp
  awake : ∀ (i : ℕ) (waitInMS : UInt32), s.calls[i]? = some (.wait waitInMS) →
    s.queueImpl.messageSemaphore = 0 →
    (∀ call ∈ s.calls, call.past 0 = false ∧ call.posts = false) →
    ∀ queue ∈ s.queueImpl.queues, queue = []

/-! ### The steps of a call -/

/-- What a call can do next. -/
inductive Moves (queueImpl : PriorityQueueImpl) : Call → PriorityQueueImpl → Call → Prop
  | refused {priority : UInt8} {context : Option ℕ} :
    Moves queueImpl (.push priority context) queueImpl (.pushed .failure)
  | pushes {priority : UInt8} {context pri : ℕ} {queue : List Message}
    (there : queueImpl.queues[pri]? = some queue) :
    Moves queueImpl (.push priority (some context))
      { queueImpl with
        queues := queueImpl.queues.set pri (queue ++ [⟨context, queueImpl.pushes⟩])
        pushes := queueImpl.pushes + 1 }
      (.post queueImpl.pushes)
  | posts {stamp : ℕ} :
    Moves queueImpl (.post stamp)
      { queueImpl with messageSemaphore := queueImpl.messageSemaphore + 1 } (.pushed .success)
  | passes {woken : Bool} {level since : ℕ} {waitInMS : UInt32}
    (there : queueImpl.queues[level]? = some []) :
    Moves queueImpl (.scan woken level since waitInMS) queueImpl
      (.scan woken (level + 1) (if level = 0 then queueImpl.pushes else since) waitInMS)
  | pops {woken : Bool} {level since : ℕ} {waitInMS : UInt32} {context : Message}
    {rest : List Message} (there : queueImpl.queues[level]? = some (context :: rest)) :
    Moves queueImpl (.scan woken level since waitInMS)
      { queueImpl with queues := queueImpl.queues.set level rest } (.popped (some context))
  | misses {level since : ℕ} {waitInMS : UInt32} {woken : Bool}
    (there : queueImpl.queues.length ≤ level) :
    Moves queueImpl (.scan woken level since waitInMS) queueImpl (.popped none)
  | sleeps {level since : ℕ} {waitInMS : UInt32} :
    Moves queueImpl (.scan false level since waitInMS) queueImpl (.wait waitInMS)
  | wakes {waitInMS : UInt32} (posted : 0 < queueImpl.messageSemaphore) :
    Moves queueImpl (.wait waitInMS)
      { queueImpl with messageSemaphore := queueImpl.messageSemaphore - 1 }
      (.scan true 0 0 waitInMS)

theorem moves_of_advance {queueImpl queueImpl' : PriorityQueueImpl} {call call' : Call}
    (moved : advance queueImpl call = some (queueImpl', call')) :
    Moves queueImpl call queueImpl' call' := by
  cases call with
  | push priority context =>
    cases context with
    | none =>
      cases moved
      exact .refused
    | some context =>
      rw [advance] at moved
      dsimp only at moved
      split at moved
      · cases moved
      · rename_i queue there
        split at moved
        · cases moved
          exact .pushes there
        · cases moved
          exact .refused
  | post stamp =>
    cases moved
    exact .posts
  | scan woken level since waitInMS =>
    rw [advance] at moved
    split at moved
    · rename_i there
      cases moved
      exact .passes there
    · rename_i context rest there
      cases moved
      exact .pops there
    · rename_i there
      have far := List.getElem?_eq_none_iff.mp there
      split at moved
      · cases moved
        exact .misses far
      · rename_i goes
        rw [Bool.or_eq_true, not_or, Bool.not_eq_true] at goes
        cases moved
        rw [goes.1]
        exact .sleeps
  | wait waitInMS =>
    rw [advance] at moved
    split at moved
    · rename_i posted
      cases moved
      exact .wakes posted
    · cases moved
  | pushed ret | popped message => cases moved

/-! ### The invariant -/

/-- The number of messages with a stamp in the queues. -/
def held (stamp : ℕ) (queues : List (List Message)) : ℕ :=
  (queues.map (List.countP fun message => message.stamp == stamp)).sum

/-- The number of messages on the levels from `l` on. -/
def below (l : ℕ) (queues : List (List Message)) : ℕ := ((queues.drop l).map List.length).sum

/-- What a scan has passed has been put there after it began. -/
def Call.Sees (queueImpl : PriorityQueueImpl) : Call → Prop
  | .scan _ level since _ => 0 < level → since ≤ queueImpl.pushes ∧
    ∀ higher < level, ∀ queue ∈ queueImpl.queues[higher]?, ∀ other ∈ queue, since ≤ other.stamp
  | _ => True

/-- The queues are in order, no message is in two places, and the semaphore makes up for every
message that no consumer will come by. -/
structure Kept (queueImpl : PriorityQueueImpl) (calls : List Call) : Prop where
  sorted : ∀ queue ∈ queueImpl.queues, queue.Pairwise fun a b => a.stamp < b.stamp
  fresh : ∀ queue ∈ queueImpl.queues, ∀ message ∈ queue, message.stamp < queueImpl.pushes
  sees : ∀ call ∈ calls, call.Sees queueImpl
  unique : ∀ stamp, calls.countP (Call.got stamp) + held stamp queueImpl.queues ≤
    if stamp < queueImpl.pushes then 1 else 0
  covered : ∀ l ≤ queueImpl.queues.length,
    calls.countP (Call.past l) + below 0 queueImpl.queues ≤ below l queueImpl.queues +
      queueImpl.messageSemaphore + calls.countP (Call.past 0) + calls.countP Call.posts

section

variable {queueImpl queueImpl' : PriorityQueueImpl} {calls : List Call} {call call' other : Call}
  {queues : List (List Message)} {queue queue' : List Message} {k l i stamp : ℕ}

theorem held_set (stamp : ℕ) (queue' : List Message) (there : queues[k]? = some queue) :
    held stamp (queues.set k queue') + queue.countP (fun message => message.stamp == stamp) =
      held stamp queues + queue'.countP fun message => message.stamp == stamp :=
  sum_map_set _ there

theorem below_set (l : ℕ) (queue' : List Message) (there : queues[k]? = some queue) :
    below l (queues.set k queue') + (if l ≤ k then queue.length else 0) =
      below l queues + if l ≤ k then queue'.length else 0 := by
  unfold below
  rw [List.drop_set]
  by_cases inside : l ≤ k
  · have moved : (queues.drop l)[k - l]? = some queue := by
      rw [List.getElem?_drop, Nat.add_sub_of_le inside, there]
    rw [if_neg (Nat.not_lt.mpr inside), if_pos inside, if_pos inside]
    exact sum_map_set _ moved
  · rw [if_pos (Nat.not_le.mp inside), if_neg inside, if_neg inside]

theorem below_of_empty (there : queues[k]? = some []) : below k queues = below (k + 1) queues := by
  obtain ⟨inside, empty⟩ := List.getElem?_eq_some_iff.mp there
  unfold below
  rw [List.drop_eq_getElem_cons inside, empty, List.map_cons, List.sum_cons, List.length_nil,
    Nat.zero_add]

/-- A queue after a step is one from before, or has lost its first message or got a new one. -/
theorem Moves.queue_cases (moves : Moves queueImpl call queueImpl' call')
    (there : queueImpl'.queues[k]? = some queue') :
    ∃ queue, queueImpl.queues[k]? = some queue ∧
      (queue' <:+ queue ∨ ∃ context, queue' = queue ++ [⟨context, queueImpl.pushes⟩] ∧
        queueImpl.pushes < queueImpl'.pushes) := by
  cases moves with
  | @pushes priority context pri old found =>
    dsimp only at there
    rw [List.getElem?_set] at there
    split at there
    · rename_i same
      subst same
      split at there
      · cases there
        exact ⟨old, found, .inr ⟨context, rfl, Nat.lt_succ_self _⟩⟩
      · cases there
    · exact ⟨queue', there, .inl (List.suffix_refl _)⟩
  | @pops woken level since waitInMS context rest found =>
    dsimp only at there
    rw [List.getElem?_set] at there
    split at there
    · rename_i same
      subst same
      split at there
      · cases there
        exact ⟨_, found, .inl (List.suffix_cons _ _)⟩
      · cases there
    · exact ⟨queue', there, .inl (List.suffix_refl _)⟩
  | refused | posts | passes | misses | sleeps | wakes =>
    exact ⟨queue', there, .inl (List.suffix_refl _)⟩

theorem Moves.pushes_le (moves : Moves queueImpl call queueImpl' call') :
    queueImpl.pushes ≤ queueImpl'.pushes := by
  cases moves with
  | pushes => exact Nat.le_succ _
  | refused | posts | passes | pops | misses | sleeps | wakes => exact le_rfl

theorem Kept.sorted_of_moves (kept : Kept queueImpl calls)
    (moves : Moves queueImpl call queueImpl' call') :
    ∀ queue ∈ queueImpl'.queues, queue.Pairwise fun a b => a.stamp < b.stamp := by
  intro queue' member
  obtain ⟨k, there⟩ := List.getElem?_of_mem member
  obtain ⟨queue, before, suffix | ⟨context, rfl, _⟩⟩ := moves.queue_cases there
  · exact (kept.sorted queue (List.mem_of_getElem? before)).sublist suffix.sublist
  · have old := List.mem_of_getElem? before
    rw [List.pairwise_append]
    refine ⟨kept.sorted queue old, List.pairwise_singleton _ _, fun message there new newest => ?_⟩
    rw [List.mem_singleton.mp newest]
    exact kept.fresh queue old message there

theorem Kept.fresh_of_moves (kept : Kept queueImpl calls)
    (moves : Moves queueImpl call queueImpl' call') :
    ∀ queue ∈ queueImpl'.queues, ∀ message ∈ queue, message.stamp < queueImpl'.pushes := by
  intro queue' member message inside
  obtain ⟨k, there⟩ := List.getElem?_of_mem member
  obtain ⟨queue, before, suffix | ⟨context, rfl, more⟩⟩ := moves.queue_cases there
  · exact (kept.fresh queue (List.mem_of_getElem? before) message (suffix.subset inside)).trans_le
      moves.pushes_le
  · rcases List.mem_append.mp inside with old | new
    · exact (kept.fresh queue (List.mem_of_getElem? before) message old).trans more
    · rw [List.mem_singleton.mp new]
      exact more

/-- Messages that come later do not disturb a scan. -/
theorem Moves.sees (moves : Moves queueImpl call queueImpl' call') (sees : other.Sees queueImpl) :
    other.Sees queueImpl' := by
  cases other with
  | scan woken level since waitInMS =>
    intro positive
    obtain ⟨early, passed⟩ := sees positive
    refine ⟨early.trans moves.pushes_le, fun higher above queue' there message inside => ?_⟩
    obtain ⟨queue, before, suffix | ⟨context, rfl, more⟩⟩ := moves.queue_cases there
    · exact passed higher above queue before message (suffix.subset inside)
    · rcases List.mem_append.mp inside with old | new
      · exact passed higher above queue before message old
      · rw [List.mem_singleton.mp new]
        exact early
  | push | post | pushed | wait | popped => trivial

theorem Kept.sees_of_moves (kept : Kept queueImpl calls) (member : call ∈ calls)
    (moves : Moves queueImpl call queueImpl' call') : call'.Sees queueImpl' := by
  have before := kept.sees call member
  have after := moves.sees before
  cases moves with
  | @passes woken level since waitInMS there =>
    intro _
    by_cases first : level = 0
    · subst first
      refine ⟨le_rfl, fun higher above queue found => ?_⟩
      obtain rfl : higher = 0 := Nat.lt_one_iff.mp above
      rw [there] at found
      cases found
      exact fun _ inside => absurd inside List.not_mem_nil
    · obtain ⟨early, passed⟩ := before (Nat.pos_of_ne_zero first)
      rw [if_neg first]
      refine ⟨early, fun higher above queue found => ?_⟩
      rcases Nat.lt_succ_iff_lt_or_eq.mp above with above | rfl
      · exact passed higher above queue found
      · rw [there] at found
        cases found
        exact fun _ inside => absurd inside List.not_mem_nil
  | wakes => exact fun positive => absurd positive (lt_irrefl 0)
  | refused | pushes | posts | pops | misses | sleeps => trivial

theorem Kept.unique_of_moves (kept : Kept queueImpl calls) (there : calls[i]? = some call)
    (moves : Moves queueImpl call queueImpl' call') (stamp : ℕ) :
    (calls.set i call').countP (Call.got stamp) + held stamp queueImpl'.queues ≤
      if stamp < queueImpl'.pushes then 1 else 0 := by
  have before := kept.unique stamp
  have counted := countP_set_add (Call.got stamp) call' there
  cases moves with
  | @pushes priority context pri queue found =>
    have moved := held_set stamp (queue ++ [⟨context, queueImpl.pushes⟩]) found
    rw [List.countP_append, List.countP_singleton] at moved
    simp only [Call.got, Bool.false_eq_true, ↓reduceIte, beq_iff_eq] at counted moved
    dsimp only
    split at before <;> split at moved <;> split <;> omega
  | @pops woken level since waitInMS context rest found =>
    have moved := held_set stamp rest found
    rw [List.countP_cons] at moved
    simp only [Call.got, Bool.false_eq_true, ↓reduceIte, beq_iff_eq] at counted moved
    dsimp only
    omega
  | refused | posts | passes | misses | sleeps | wakes =>
    simp only [Call.got, Bool.false_eq_true, ↓reduceIte, Nat.add_zero] at counted
    rw [counted]
    exact before

theorem Kept.covered_of_moves (kept : Kept queueImpl calls) (there : calls[i]? = some call)
    (moves : Moves queueImpl call queueImpl' call') (inside : l ≤ queueImpl'.queues.length) :
    (calls.set i call').countP (Call.past l) + below 0 queueImpl'.queues ≤
      below l queueImpl'.queues + queueImpl'.messageSemaphore +
        (calls.set i call').countP (Call.past 0) + (calls.set i call').countP Call.posts := by
  have ahead := countP_set_add (Call.past l) call' there
  have woken := countP_set_add (Call.past 0) call' there
  have posting := countP_set_add Call.posts call' there
  cases moves with
  | refused | sleeps =>
    have before := kept.covered l inside
    simp only [Call.past, Call.posts, Bool.false_and, Bool.false_eq_true, ↓reduceIte,
      Nat.add_zero] at ahead woken posting
    rw [ahead, woken, posting]
    exact before
  | @pushes priority context pri queue found =>
    dsimp only at inside
    rw [List.length_set] at inside
    have before := kept.covered l inside
    have more := below_set l (queue ++ [⟨context, queueImpl.pushes⟩]) found
    have total := below_set 0 (queue ++ [⟨context, queueImpl.pushes⟩]) found
    rw [List.length_append, List.length_singleton] at more total
    rw [if_pos (Nat.zero_le _), if_pos (Nat.zero_le _)] at total
    simp only [Call.past, Call.posts, Bool.false_eq_true, ↓reduceIte] at ahead woken posting
    dsimp only
    split at more <;> omega
  | posts =>
    have before := kept.covered l inside
    simp only [Call.past, Call.posts, Bool.false_eq_true, ↓reduceIte] at ahead woken posting
    dsimp only
    omega
  | @passes scanning level since waitInMS found =>
    have before := kept.covered l inside
    simp only [Call.posts, Bool.false_eq_true, ↓reduceIte, Nat.add_zero] at posting
    cases scanning with
    | false =>
      simp only [Call.past, Bool.false_and, Bool.false_eq_true, ↓reduceIte, Nat.add_zero]
        at ahead woken
      rw [ahead, woken, posting]
      exact before
    | true =>
      simp only [Call.past, Bool.true_and, Nat.zero_le, decide_true, ↓reduceIte,
        decide_eq_true_iff] at ahead woken
      by_cases next : l = level + 1
      · -- the scan has been ahead of `level` before, where it has found nothing
        subst next
        have here := kept.covered level (by omega)
        have empty := below_of_empty found
        have stays := countP_set_add (Call.past level) (.scan true (level + 1)
          (if level = 0 then queueImpl.pushes else since) waitInMS) there
        have weaker : (calls.set i (.scan true (level + 1)
            (if level = 0 then queueImpl.pushes else since) waitInMS)).countP
              (Call.past (level + 1)) ≤ (calls.set i (.scan true (level + 1)
            (if level = 0 then queueImpl.pushes else since) waitInMS)).countP
              (Call.past level) := by
          refine List.countP_mono_left fun other _ ahead => ?_
          cases other with
          | scan woken position since waitInMS =>
            simp only [Call.past, Bool.and_eq_true, decide_eq_true_iff] at ahead ⊢
            exact ⟨ahead.1, by omega⟩
          | push | post | pushed | wait | popped => cases ahead
        simp only [Call.past, Bool.true_and, decide_eq_true_iff, Nat.le_refl, Nat.le_succ,
          ↓reduceIte] at stays
        omega
      · have same : l ≤ level + 1 ↔ l ≤ level := by omega
        rw [if_congr same rfl rfl] at ahead
        omega
  | @pops scanning level since waitInMS context rest found =>
    dsimp only at inside
    rw [List.length_set] at inside
    have before := kept.covered l inside
    have fewer := below_set l rest found
    have total := below_set 0 rest found
    rw [List.length_cons] at fewer total
    rw [if_pos (Nat.zero_le _), if_pos (Nat.zero_le _)] at total
    simp only [Call.past, Call.posts, Bool.false_eq_true, ↓reduceIte, Nat.zero_le, decide_true,
      Bool.and_true, Bool.and_eq_true, decide_eq_true_iff] at ahead woken posting
    dsimp only
    cases scanning <;> split at fewer <;>
      simp only [*, Bool.false_eq_true, true_and, false_and, ↓reduceIte] at ahead woken <;> omega
  | @misses level since waitInMS scanning far =>
    have before := kept.covered l inside
    have reached := inside.trans far
    cases scanning <;>
      simp only [Call.past, Call.posts, Bool.false_eq_true, ↓reduceIte,
        Nat.zero_le, decide_true, Bool.and_true, reached] at ahead woken posting <;> omega
  | wakes posted =>
    have before := kept.covered l inside
    simp only [Call.past, Call.posts, Bool.false_eq_true, ↓reduceIte, Nat.zero_le, decide_true,
      Bool.and_true, Bool.true_and, decide_eq_true_iff] at ahead woken posting
    dsimp only
    rcases Nat.eq_zero_or_pos l with rfl | positive
    · omega
    · rw [if_neg (Nat.not_le.mpr positive)] at ahead
      omega

theorem Kept.of_moves (kept : Kept queueImpl calls) (there : calls[i]? = some call)
    (moves : Moves queueImpl call queueImpl' call') : Kept queueImpl' (calls.set i call') where
  sorted := kept.sorted_of_moves moves
  fresh := kept.fresh_of_moves moves
  sees := by
    intro other member
    rcases mem_set_cases member with rfl | old
    · exact kept.sees_of_moves (List.mem_of_getElem? there) moves
    · exact moves.sees (kept.sees other old)
  unique := kept.unique_of_moves there moves
  covered _ inside := kept.covered_of_moves there moves inside

/-- A call that has just been made counts for nothing. -/
theorem Kept.append (kept : Kept queueImpl calls) (sees : call.Sees queueImpl)
    (got : ∀ stamp, call.got stamp = false) (past : ∀ l, call.past l = false)
    (posts : call.posts = false) : Kept queueImpl (calls ++ [call]) where
  sorted := kept.sorted
  fresh := kept.fresh
  sees := by
    intro other member
    rcases List.mem_append.mp member with old | new
    · exact kept.sees other old
    · rw [List.mem_singleton.mp new]
      exact sees
  unique stamp := by
    rw [countP_append_singleton, got, if_neg Bool.false_ne_true]
    exact kept.unique stamp
  covered l inside := by
    rw [countP_append_singleton, countP_append_singleton, countP_append_singleton, past, past,
      posts, if_neg Bool.false_ne_true]
    exact kept.covered l inside

/-- A wait that ends without success. -/
theorem Kept.timeout {waitInMS : UInt32} (kept : Kept queueImpl calls)
    (there : calls[i]? = some (.wait waitInMS)) :
    Kept queueImpl (calls.set i (.popped none)) where
  sorted := kept.sorted
  fresh := kept.fresh
  sees := by
    intro other member
    rcases mem_set_cases member with rfl | old
    · trivial
    · exact kept.sees other old
  unique stamp := by
    have counted := countP_set_add (Call.got stamp) (.popped none) there
    simp only [Call.got, Bool.false_eq_true, ↓reduceIte, Nat.add_zero] at counted
    rw [counted]
    exact kept.unique stamp
  covered l inside := by
    have ahead := countP_set_add (Call.past l) (.popped none) there
    have woken := countP_set_add (Call.past 0) (.popped none) there
    have posting := countP_set_add Call.posts (.popped none) there
    simp only [Call.past, Call.posts, Bool.false_eq_true, ↓reduceIte, Nat.add_zero]
      at ahead woken posting
    rw [ahead, woken, posting]
    exact kept.covered l inside

theorem Kept.step {action : Action} {s t : State} (kept : Kept s.queueImpl s.calls)
    (stepped : step action s = some t) : Kept t.queueImpl t.calls := by
  cases action with
  | pushPriorityQueue priority context =>
    cases stepped
    exact kept.append trivial (fun _ => rfl) (fun _ => rfl) rfl
  | popPriorityQueue waitInMS =>
    cases stepped
    exact kept.append (fun positive => absurd positive (lt_irrefl 0)) (fun _ => rfl)
      (fun _ => rfl) rfl
  | advance i =>
    obtain ⟨call, there, stepped⟩ := Option.bind_eq_some_iff.mp stepped
    obtain ⟨⟨queueImpl', call'⟩, moved, rfl⟩ := Option.map_eq_some_iff.mp stepped
    exact kept.of_moves there (moves_of_advance moved)
  | timeout i =>
    rw [PriorityQueue.step] at stepped
    split at stepped
    · rename_i waitInMS there
      cases stepped
      exact kept.timeout there
    · cases stepped

theorem Kept.empty (levels size : ℕ) : Kept ⟨List.replicate levels [], size, 0, 0⟩ [] where
  sorted queue member := by
    rw [List.eq_of_mem_replicate member]
    exact List.Pairwise.nil
  fresh queue member message inside := by
    rw [List.eq_of_mem_replicate member] at inside
    exact absurd inside List.not_mem_nil
  sees _ member := absurd member List.not_mem_nil
  unique stamp := by simp [held]
  covered l inside := by simp [below]

/-- What an order of steps cannot break. -/
theorem Kept.served {s : State} (kept : Kept s.queueImpl s.calls) : Served s where
  once stamp := by
    have unique := kept.unique stamp
    split at unique <;> omega
  oldest i t message stepped result := by
    obtain ⟨call, there, stepped⟩ := Option.bind_eq_some_iff.mp stepped
    obtain ⟨⟨queueImpl', call'⟩, moved, rfl⟩ := Option.map_eq_some_iff.mp stepped
    dsimp only at result
    have inside := (List.getElem?_eq_some_iff.mp there).1
    rw [List.getElem?_set_self inside] at result
    obtain rfl := Option.some.inj result
    have sees := kept.sees call (List.mem_of_getElem? there)
    cases moves_of_advance moved with
    | @pops woken level since waitInMS _ rest found =>
      have sorted := kept.sorted _ (List.mem_of_getElem? found)
      refine ⟨woken, level, since, waitInMS, rest, there, found,
        (List.pairwise_cons.mp sorted).1, fun higher above => ?_⟩
      exact (sees (Nat.zero_lt_of_lt above)).2 higher above
  awake i waitInMS blocked unposted others := by
    have covered := kept.covered s.queueImpl.queues.length le_rfl
    have nobody : s.calls.countP (Call.past 0) = 0 :=
      List.countP_eq_zero.mpr fun call member => by simp [(others call member).1]
    have posting : s.calls.countP Call.posts = 0 :=
      List.countP_eq_zero.mpr fun call member => by simp [(others call member).2]
    have lowest : below s.queueImpl.queues.length s.queueImpl.queues = 0 := by
      rw [below, List.drop_length]
      rfl
    have none : below 0 s.queueImpl.queues = 0 := by omega
    intro queue member
    rw [below, List.drop_zero, ← List.length_flatten, List.length_eq_zero_iff] at none
    exact List.flatten_eq_nil_iff.mp none queue member

/-- Messages are taken once, the oldest of a level first, and no scan leaves out a message that
it could see. A consumer sleeps while there are messages only as long as another one or a
producer is still to come by. -/
theorem served_of_runs {queueSize : UInt16} {priorityLevelCount : UInt8}
    {actions : List Action} {s : State}
    (created : createPriorityQueue queueSize priorityLevelCount = some queueImpl)
    (ran : runs step (start queueImpl) actions = some s) : Served s := by
  have first : Kept (start queueImpl).queueImpl (start queueImpl).calls := by
    unfold createPriorityQueue at created
    split at created
    · cases created
    · cases created
      exact Kept.empty _ _
  have meets : Meets step (fun _ _ => True) (start queueImpl) actions :=
    meets_of_forall (P := fun _ => True) fun _ _ => trivial
  exact (runs_invariant (I := fun s => Kept s.queueImpl s.calls)
    (fun _ _ _ kept _ stepped => kept.step stepped) first meets ran).served

end

/-! ### A consumer that sleeps over a message -/

/-- Two consumers find nothing. The first one gets the message of a push that has not posted,
after a push to a lower level has. -/
def overtaken : List Action :=
  [.popPriorityQueue 1000, .advance 0, .advance 0, .advance 0,
    .popPriorityQueue 1000, .advance 1, .advance 1, .advance 1,
    .pushPriorityQueue 1 (some 7), .advance 2, .advance 2, .advance 0,
    .pushPriorityQueue 0 (some 8), .advance 3, .advance 0]

theorem served_overtaken : ∃ queueImpl s, createPriorityQueue 4 2 = some queueImpl ∧
    runs step (start queueImpl) overtaken = some s ∧ Served s :=
  ⟨_, _, rfl, rfl, @served_of_runs _ 4 2 overtaken _ rfl rfl⟩

/-- The second consumer is blocked, the message of a push that has returned is in its queue, and
no consumer is between its wait and its pop. -/
theorem sleeps_over_message : ∃ queueImpl s, createPriorityQueue 4 2 = some queueImpl ∧
    runs step (start queueImpl) overtaken = some s ∧
    s.calls[1]? = some (.wait 1000) ∧ s.queueImpl.messageSemaphore = 0 ∧
    (∀ call ∈ s.calls, call.past 0 = false) ∧
    s.calls[2]? = some (.pushed .success) ∧ s.queueImpl.queues = [[], [⟨7, 0⟩]] :=
  ⟨_, _, rfl, rfl, rfl, rfl, by decide, rfl, rfl⟩

end Hdf.Wifi.PriorityQueue
