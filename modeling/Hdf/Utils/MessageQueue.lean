import Hdf.Lib.Runs
import Hdf.Utils.SList
import Mathlib.Algebra.Group.Nat.Defs
import Mathlib.Algebra.Ring.Int.Defs
import Mathlib.Data.Int.Notation
import Mathlib.Data.List.Perm.Subperm

/-!
# The message queue

Messages wait in a list that is kept ordered by their time stamps. The stamp of a
message is what its sender has left there and the time at which it is put in; the
delay that the sender passes beside the message has no effect. Where the two are the
same, the queue hands out the messages in the order of their due times.

## Main results

* `enqueue_splits`, `next_splits`: what one call does to the list
* `inOrder_of_stamped`: the order holds as long as the stamps are the delays
-/

namespace Hdf.Utils.MessageQueue

open Hdf.Chain SList

variable {α : Type*} [DecidableEq α]

/-! ## The two calls -/

/-- The loop of `HdfMessageQueueEnqueue`, and the append behind it. -/
def enqueueFrom (fuel : ℕ) (list message : α) (timeStamp : α → ℕ) :
    ℕ → (α → Option α) → HdfSListIterator α → Option (α → Option α)
  | 0, _, _ => none
  | passes + 1, next, iterator =>
    if hdfSListIteratorHasNext next iterator then
      let (iterator, returned) := hdfSListIteratorNext next iterator
      returned.bind fun other =>
        if timeStamp other > timeStamp message then
          (hdfSListIteratorInsert next iterator message).map Prod.fst
        else enqueueFrom fuel list message timeStamp passes next iterator
    else hdfSListAddTail fuel next list message

/-- `HdfMessageQueueEnqueue`: the pointers and the time stamps. The delay is not used. -/
def hdfMessageQueueEnqueue (fuel : ℕ) (list : α) (now : ℕ) (next : α → Option α)
    (timeStamp : α → ℕ) (message : α) (_delayed : ℤ) : Option ((α → Option α) × (α → ℕ)) :=
  let timeStamp := Function.update timeStamp message ((timeStamp message + now) % 2 ^ 64)
  (enqueueFrom fuel list message timeStamp fuel next (hdfSListIteratorInit next (some list))).map
    fun next => (next, timeStamp)

/-- The loop of `HdfMessageQueueNext`. -/
def nextFrom (currentTime : ℕ) (timeStamp : α → ℕ) :
    ℕ → (α → Option α) → HdfSListIterator α → Option ((α → Option α) × Option α)
  | 0, _, _ => none
  | passes + 1, next, iterator =>
    if hdfSListIteratorHasNext next iterator then
      let (iterator, returned) := hdfSListIteratorNext next iterator
      returned.bind fun message =>
        if timeStamp message ≤ currentTime then
          some ((hdfSListIteratorRemove next iterator).1, some message)
        else nextFrom currentTime timeStamp passes next iterator
    else some (next, none)

/-- `HdfMessageQueueNext`: the pointers and the message. Where no message is due it waits for
the semaphore before it returns nothing. -/
def hdfMessageQueueNext (fuel : ℕ) (list : α) (now : ℕ) (next : α → Option α)
    (timeStamp : α → ℕ) : Option ((α → Option α) × Option α) :=
  nextFrom now timeStamp fuel next (hdfSListIteratorInit next (some list))

/-! ## A queue in use -/

/-- A message that was put in: when it is due, and how many were put in before it. -/
structure Request (α : Type*) where
  message : α
  due : ℤ
  order : ℕ

/-- The order of the messages: by due time, and at the same due time as they were put in. -/
def Request.Before (a b : Request α) : Prop := a.due < b.due ∨ a.due = b.due ∧ a.order < b.order

/-- A call of `HdfMessageQueueNext`: what was pending at which time, and what it returned. -/
structure Answer (α : Type*) where
  pending : List (Request α)
  time : ℕ
  message : Option α

/-- A queue in use: the memory, the clock, the messages that were put in so far, those that are
still pending, and the answers. -/
structure Traffic (α : Type*) where
  next : α → Option α
  timeStamp : α → ℕ
  clock : ℕ
  sent : List α
  pending : List (Request α)
  answers : List (Answer α)

/-- What happens to a queue: a call, or time goes by. -/
inductive Call (α : Type*)
  | enqueue (message : α) (delayed : ℤ)
  | next
  | wait (ms : ℕ)

/-- One call. The walks take at most one step for every message that was put in, and one. -/
def step (list : α) : Call α → Traffic α → Option (Traffic α)
  | .enqueue message delayed, s =>
    (hdfMessageQueueEnqueue (s.sent.length + 1) list s.clock s.next s.timeStamp message
      delayed).map fun after =>
        { s with
          next := after.1
          timeStamp := after.2
          sent := s.sent ++ [message]
          pending := s.pending ++ [⟨message, s.clock + delayed, s.sent.length⟩] }
  | .next, s =>
    (hdfMessageQueueNext (s.sent.length + 1) list s.clock s.next s.timeStamp).map fun after =>
      { s with
        next := after.1
        pending := s.pending.filter fun request => some request.message ≠ after.2
        answers := s.answers ++ [⟨s.pending, s.clock, after.2⟩] }
  | .wait ms, s => some { s with clock := s.clock + ms }

/-- An empty queue and some memory. -/
def start (list : α) (next : α → Option α) (timeStamp : α → ℕ) (clock : ℕ) : Traffic α where
  next := Function.update next list none
  timeStamp
  clock
  sent := []
  pending := []
  answers := []

/-- An answer is right: the first message among those that are due, or nothing if none is. -/
def Answer.Right (answer : Answer α) : Prop :=
  match answer.message with
  | none => ∀ request ∈ answer.pending, answer.time < request.due
  | some message => ∃ request ∈ answer.pending, request.message = message ∧
      request.due ≤ answer.time ∧
      ∀ other ∈ answer.pending, other.due ≤ answer.time → other = request ∨ request.Before other

/-- The order that a queue owes: the list is sorted and holds what is pending, every answer is
right, and no message is returned twice. -/
structure InOrder (list : α) (s : Traffic α) : Prop where
  sorted : ∃ queue : List (Request α), Leads s.next list (queue.map Request.message) none ∧
    queue.Pairwise Request.Before ∧ queue.Perm s.pending
  right : ∀ answer ∈ s.answers, answer.Right
  once : (s.answers.filterMap Answer.message).Nodup

/-- The messages are distinct: one that is put in was not put in before. -/
def Distinct (list : α) : Call α → Traffic α → Prop
  | .enqueue message _, s => message ∉ list :: s.sent
  | _, _ => True

/-- The sender has left the delay in the message, as an unsigned number of 64 bits, and the due
time fits the time stamp. -/
def Stamped : Call α → Traffic α → Prop
  | .enqueue message delayed, s =>
    (s.timeStamp message : ℤ) % 2 ^ 64 = delayed % 2 ^ 64 ∧
      0 ≤ s.clock + delayed ∧ s.clock + delayed < 2 ^ 64
  | _, _ => True

instance {list : α} {call : Call α} {s : Traffic α} : Decidable (Distinct list call s) :=
  match call with
  | .enqueue message _ => inferInstanceAs (Decidable (message ∉ list :: s.sent))
  | .next | .wait _ => inferInstanceAs (Decidable True)

instance {call : Call α} {s : Traffic α} : Decidable (Stamped call s) :=
  match call with
  | .enqueue message delayed => inferInstanceAs
      (Decidable ((s.timeStamp message : ℤ) % 2 ^ 64 = delayed % 2 ^ 64 ∧
        0 ≤ s.clock + delayed ∧ s.clock + delayed < 2 ^ 64))
  | .next | .wait _ => inferInstanceAs (Decidable True)

/-! ## One call -/

variable {list message : α} {next : α → Option α} {timeStamp : α → ℕ} {now fuel passes : ℕ}
  {iterator : HdfSListIterator α} {done rest queue : List α}

/-- `HdfSListAddTail` walks to the last node. -/
theorem hdfSListAddTailFrom_eq {p : α} (leads : Leads next p queue none)
    (fresh : message ∉ queue) (enough : queue.length < fuel) :
    hdfSListAddTailFrom next message fuel p =
      some (Function.update (Function.update next message none) (queue.getLastD p)
        (some message)) := by
  induction queue generalizing p fuel with
  | nil =>
    obtain ⟨fuel, rfl⟩ : ∃ n, fuel = n + 1 := ⟨fuel - 1, by simp at enough; omega⟩
    rw [hdfSListAddTailFrom, leads_nil.mp leads, List.getLastD_nil]
  | cons a queue ih =>
    obtain ⟨fuel, rfl⟩ : ∃ n, fuel = n + 1 := ⟨fuel - 1, by simp at enough; omega⟩
    have other : a ≠ message := fun same => fresh (same ▸ List.mem_cons_self)
    rw [hdfSListAddTailFrom, leads.1, List.getLastD_cons]
    simp only [other, if_false]
    exact ih leads.2 (fun mem => fresh (List.mem_cons_of_mem a mem)) (by simpa using enough)

/-- A new message goes behind those whose stamp is not greater, and before those whose stamp
is. -/
theorem enqueueFrom_splits (paused : Paused list next iterator done rest)
    (distinct : (list :: (done ++ rest)).Nodup) (fresh : message ∉ list :: (done ++ rest))
    (earlier : ∀ a ∈ done, timeStamp a ≤ timeStamp message) (many : rest.length < passes)
    (enough : (done ++ rest).length < fuel) :
    ∃ next' before after,
      enqueueFrom fuel list message timeStamp passes next iterator = some next' ∧
      done ++ rest = before ++ after ∧ Leads next' list (before ++ message :: after) none ∧
      (∀ a ∈ before, timeStamp a ≤ timeStamp message) ∧
      ∀ a ∈ after.head?, timeStamp message < timeStamp a := by
  induction rest generalizing done iterator passes with
  | nil =>
    obtain ⟨passes, rfl⟩ : ∃ n, passes = n + 1 := ⟨passes - 1, by simp at many; omega⟩
    have last : ¬ hdfSListIteratorHasNext next iterator = true := by
      simpa using paused.hasNext.not
    -- no message has a greater stamp, so that the loop falls through to the tail
    have leads : Leads next list done none := by simpa using paused.leads
    rw [List.append_nil] at distinct fresh enough
    have appended := hdfSListAddTailFrom_eq leads
      (fun mem => fresh (List.mem_cons_of_mem list mem)) enough
    refine ⟨_, done, [], ?_, by simp, leads.link_last distinct fresh, earlier, by simp⟩
    rw [enqueueFrom, if_neg last, hdfSListAddTail, appended]
  | cons other rest ih =>
    obtain ⟨passes, rfl⟩ : ∃ n, passes = n + 1 := ⟨passes - 1, by simp at many; omega⟩
    have more : hdfSListIteratorHasNext next iterator = true := by
      simpa using paused.hasNext
    obtain ⟨iterator', returned, current⟩ := paused.iteratorNext
    rw [enqueueFrom, if_pos more]
    simp only [returned, Option.bind_some]
    split_ifs with greater
    · -- the message is put in before the first one with a greater stamp
      obtain ⟨next', iterator'', put, paused'⟩ := current.iteratorInsert distinct fresh
      refine ⟨next', done, other :: rest, by rw [put, Option.map_some], rfl, ?_, earlier, by simpa⟩
      simpa using paused'.leads
    · -- the next message is passed over, and is one of those with earlier stamps
      have moved : done ++ other :: rest = (done ++ [other]) ++ rest := by simp
      rw [moved] at distinct fresh enough ⊢
      refine ih current.kept distinct fresh ?_ (by simpa using many) enough
      intro a mem
      rcases List.mem_append.mp mem with old | new
      · exact earlier a old
      · exact List.mem_singleton.mp new ▸ Nat.le_of_not_lt greater

/-- The first message whose stamp has passed is taken out. -/
theorem nextFrom_splits (paused : Paused list next iterator done rest)
    (distinct : (list :: (done ++ rest)).Nodup) (later : ∀ a ∈ done, now < timeStamp a)
    (many : rest.length < passes) :
    (nextFrom now timeStamp passes next iterator = some (next, none) ∧
      ∀ a ∈ done ++ rest, now < timeStamp a) ∨
    ∃ next' before message after,
      nextFrom now timeStamp passes next iterator = some (next', some message) ∧
      done ++ rest = before ++ message :: after ∧ Leads next' list (before ++ after) none ∧
      timeStamp message ≤ now ∧ ∀ a ∈ before, now < timeStamp a := by
  induction rest generalizing done iterator passes with
  | nil =>
    obtain ⟨passes, rfl⟩ : ∃ n, passes = n + 1 := ⟨passes - 1, by simp at many; omega⟩
    have last : ¬ hdfSListIteratorHasNext next iterator = true := by
      simpa using paused.hasNext.not
    exact .inl ⟨by rw [nextFrom, if_neg last], by simpa using later⟩
  | cons message rest ih =>
    obtain ⟨passes, rfl⟩ : ∃ n, passes = n + 1 := ⟨passes - 1, by simp at many; omega⟩
    have more : hdfSListIteratorHasNext next iterator = true := by
      simpa using paused.hasNext
    obtain ⟨iterator', returned, current⟩ := paused.iteratorNext
    rw [nextFrom, if_pos more]
    simp only [returned, Option.bind_some]
    split_ifs with due
    · exact .inr ⟨_, done, message, rest, rfl, rfl, (current.iteratorRemove distinct).leads, due,
        later⟩
    · -- the message is not due and stays where it is
      have moved : done ++ message :: rest = (done ++ [message]) ++ rest := by simp
      rw [moved] at distinct ⊢
      refine ih current.kept distinct ?_ (by simpa using many)
      intro a mem
      rcases List.mem_append.mp mem with old | new
      · exact later a old
      · exact List.mem_singleton.mp new ▸ Nat.lt_of_not_le due

/-! ## Every run -/

/-- The list at some moment: a sorted queue of the messages that are pending, with their due
times as time stamps. -/
structure Kept (list : α) (s : Traffic α) (queue : List (Request α)) : Prop where
  leads : Leads s.next list (queue.map Request.message) none
  sorted : queue.Pairwise Request.Before
  perm : queue.Perm s.pending
  stamps : ∀ request ∈ queue, (s.timeStamp request.message : ℤ) = request.due
  distinct : (list :: queue.map Request.message).Nodup
  known : ∀ request ∈ queue, request.message ∈ s.sent ∧ request.order < s.sent.length
  answered : ∀ message ∈ s.answers.filterMap Answer.message,
    message ∈ s.sent ∧ message ∉ queue.map Request.message
  right : ∀ answer ∈ s.answers, answer.Right
  once : (s.answers.filterMap Answer.message).Nodup

variable {s t : Traffic α} {requests before after : List (Request α)} {request : Request α}
  {delayed : ℤ}

omit [DecidableEq α] in
theorem Kept.inOrder (kept : Kept list s requests) : InOrder list s :=
  ⟨⟨requests, kept.leads, kept.sorted, kept.perm⟩, kept.right, kept.once⟩

omit [DecidableEq α] in
theorem Kept.length_le (kept : Kept list s requests) : requests.length ≤ s.sent.length := by
  have sub : requests.map Request.message ⊆ s.sent := by
    intro message mem
    obtain ⟨request, there, rfl⟩ := List.mem_map.mp mem
    exact (kept.known request there).1
  simpa using (List.subperm_of_subset (List.nodup_cons.mp kept.distinct).2 sub).length_le

theorem kept_start {clock : ℕ} : Kept list (start list next timeStamp clock) [] where
  leads := by simp [start]
  sorted := .nil
  perm := .nil
  stamps := by simp
  distinct := by simp
  known := by simp
  answered := by simp [start]
  right := by simp [start]
  once := by simp [start]

omit [DecidableEq α] in
/-- A request that is newer than all others may go between those that are not due later and
those that are. -/
theorem pairwise_before_insert (sorted : (before ++ after).Pairwise Request.Before)
    (newer : ∀ other ∈ before, other.order < request.order)
    (earlier : ∀ other ∈ before, other.due ≤ request.due)
    (later : ∀ other ∈ after.head?, request.due < other.due) :
    (before ++ request :: after).Pairwise Request.Before := by
  obtain ⟨sortedBefore, sortedAfter, across⟩ := List.pairwise_append.mp sorted
  have allLater : ∀ other ∈ after, request.Before other := by
    cases after with
    | nil => simp
    | cons first after =>
      have soon : request.due < first.due := later first rfl
      intro other mem
      rcases List.mem_cons.mp mem with rfl | mem
      · exact .inl soon
      · rcases (List.pairwise_cons.mp sortedAfter).1 other mem with less | ⟨same, -⟩
        · exact .inl (Int.lt_trans soon less)
        · exact .inl (same ▸ soon)
  refine List.pairwise_append.mpr ⟨sortedBefore, List.pairwise_cons.mpr ⟨allLater, sortedAfter⟩, ?_⟩
  intro other mem next mem'
  rcases List.mem_cons.mp mem' with rfl | mem'
  · rcases Int.lt_or_eq_of_le (earlier other mem) with less | same
    · exact .inl less
    · exact .inr ⟨same, newer other mem⟩
  · exact across other mem next mem'

/-- Putting in a message. -/
theorem Kept.enqueue (kept : Kept list s requests) (new : message ∉ list :: s.sent)
    (fits : Stamped (.enqueue message delayed) s) :
    ∃ t requests', step list (.enqueue message delayed) s = some t ∧ Kept list t requests' := by
  obtain ⟨leads, sorted, perm, stamps, distinct, known, answered, right, once⟩ := id kept
  generalize stamped : Function.update s.timeStamp message
    ((s.timeStamp message + s.clock) % 2 ^ 64) = timeStamp
  have notThere : message ∉ requests.map Request.message := by
    intro mem
    obtain ⟨other, there, rfl⟩ := List.mem_map.mp mem
    exact new (List.mem_cons_of_mem list (known other there).1)
  have fresh : message ∉ list :: ([] ++ requests.map Request.message) := by
    rw [List.nil_append, List.mem_cons, not_or]
    exact ⟨fun same => new (same ▸ List.mem_cons_self), notThere⟩
  -- nothing wraps around in the sum, as the stamp fits
  have own : (timeStamp message : ℤ) = s.clock + delayed := by
    obtain ⟨same, notBefore, small⟩ := fits
    rw [← stamped, Function.update_self, Int.natCast_emod, Int.natCast_add]
    omega
  have others : ∀ other ∈ requests, (timeStamp other.message : ℤ) = other.due := by
    intro other mem
    have apart : other.message ≠ message := by
      exact fun same => notThere (same ▸ List.mem_map_of_mem mem)
    rw [← stamped, Function.update_of_ne apart, stamps other mem]
  have short : (requests.map Request.message).length < s.sent.length + 1 := by
    rw [List.length_map]
    exact Nat.lt_succ_of_le kept.length_le
  obtain ⟨next', front, back, ran, split, leads', earlier, later⟩ :=
    enqueueFrom_splits (paused_init leads) distinct fresh (by simp : ∀ a ∈ [], timeStamp a ≤ _)
      short short
  rw [List.nil_append] at split
  obtain ⟨before, after, rfl, rfl, rfl⟩ := List.map_eq_append_iff.mp split
  let request : Request α := ⟨message, s.clock + delayed, s.sent.length⟩
  -- stamps are compared as unsigned numbers, which is how the times due are ordered
  have compared : ∀ other ∈ before ++ after, timeStamp other.message ≤ timeStamp message ↔
      other.due ≤ request.due := by
    intro other mem
    rw [← others other mem, ← show (timeStamp message : ℤ) = request.due from own]
    exact Int.ofNat_le.symm
  have moved : (before ++ request :: after).Perm (request :: (before ++ after)) := List.perm_middle
  have stepped : step list (.enqueue message delayed) s = some
      { s with
        next := next'
        timeStamp
        sent := s.sent ++ [message]
        pending := s.pending ++ [request] } := by
    rw [step, hdfMessageQueueEnqueue]
    simp only [stamped, ran, Option.map_some, request]
  refine ⟨_, before ++ request :: after, stepped, ?_, ?_, ?_, ?_, ?_, ?_, ?_, right, once⟩
  · simpa using leads'
  · refine pairwise_before_insert sorted ?_ ?_ ?_
    · exact fun other mem => (known other (List.mem_append_left after mem)).2
    · intro other mem
      exact (compared other (List.mem_append_left after mem)).mp
        (earlier _ (List.mem_map_of_mem mem))
    · intro other first
      have mem : other ∈ after := List.mem_of_head? first
      have less : timeStamp message < timeStamp other.message := by
        exact later _ (by rw [List.head?_map]; exact Option.mem_map_of_mem _ first)
      have notLess := (compared other (List.mem_append_right before mem)).not.mp
        (Nat.not_le_of_lt less)
      omega
  · exact moved.trans ((perm.cons request).trans (List.perm_append_singleton _ _).symm)
  · intro other mem
    rcases List.mem_cons.mp (moved.mem_iff.mp mem) with rfl | mem
    · exact own
    · exact others other mem
  · have shape : (list :: (before ++ request :: after).map Request.message).Perm
        (message :: list :: (before ++ after).map Request.message) := by
      exact ((moved.map Request.message).cons list).trans (List.Perm.swap _ _ _)
    exact shape.nodup_iff.mpr (List.nodup_cons.mpr ⟨by simpa using fresh, distinct⟩)
  · intro other mem
    rw [List.length_append, List.length_singleton]
    rcases List.mem_cons.mp (moved.mem_iff.mp mem) with rfl | mem
    · exact ⟨List.mem_append_right _ List.mem_cons_self, Nat.lt_succ_self _⟩
    · exact ⟨List.mem_append_left _ (known other mem).1, Nat.lt_succ_of_lt (known other mem).2⟩
  · intro other mem
    obtain ⟨old, gone⟩ := answered other mem
    refine ⟨List.mem_append_left _ old, fun back => ?_⟩
    rcases List.mem_cons.mp ((moved.map Request.message).mem_iff.mp back) with rfl | back
    · exact new (List.mem_cons_of_mem list old)
    · exact gone back

/-- Asking for the next message. -/
theorem Kept.answer (kept : Kept list s requests) :
    ∃ t requests', step list .next s = some t ∧ Kept list t requests' := by
  obtain ⟨leads, sorted, perm, stamps, distinct, known, answered, right, once⟩ := id kept
  have short : (requests.map Request.message).length < s.sent.length + 1 := by
    rw [List.length_map]
    exact Nat.lt_succ_of_le kept.length_le
  -- the queue compares stamps with the clock, and the books compare times due with it
  have later_iff : ∀ request ∈ requests,
      s.clock < s.timeStamp request.message ↔ (s.clock : ℤ) < request.due := by
    intro request mem
    rw [← stamps request mem]
    exact Int.ofNat_lt.symm
  have stepped {next' : α → Option α} {returned : Option α}
      (ran : nextFrom s.clock s.timeStamp (s.sent.length + 1) s.next
        (hdfSListIteratorInit s.next (some list)) = some (next', returned)) :
      step list .next s = some
        { s with
          next := next'
          pending := s.pending.filter fun request => some request.message ≠ returned
          answers := s.answers ++ [⟨s.pending, s.clock, returned⟩] } := by
    rw [step, hdfMessageQueueNext, ran, Option.map_some]
  have allRight {last : Answer α} (lastRight : last.Right) :
      ∀ answer ∈ s.answers ++ [last], answer.Right := by
    intro answer mem
    rcases List.mem_append.mp mem with old | new
    · exact right answer old
    · exact List.mem_singleton.mp new ▸ lastRight
  rcases nextFrom_splits (paused_init leads) distinct
    (by simp : ∀ a ∈ [], s.clock < s.timeStamp a) short with
    ⟨ran, later⟩ | ⟨next', front, message, back, ran, split, leads', due, later⟩
  · refine ⟨_, requests, stepped ran, leads, sorted, ?_, stamps, distinct, known, ?_, ?_, ?_⟩
    · simpa using perm
    · simpa using answered
    · refine allRight fun request pending => ?_
      have mem := perm.mem_iff.mpr pending
      exact (later_iff request mem).mp (later _ (by simpa using List.mem_map_of_mem mem))
    · simpa using once
  · rw [List.nil_append] at split
    obtain ⟨before, rest, rfl, rfl, rest_eq⟩ := List.map_eq_append_iff.mp split
    obtain ⟨request, after, rfl, rfl, rfl⟩ := List.map_eq_cons_iff.mp rest_eq
    have moved : (before ++ request :: after).Perm (request :: (before ++ after)) :=
      List.perm_middle
    have fewer : (before ++ after).Sublist (before ++ request :: after) :=
      (List.sublist_cons_self request after).append_left before
    have apart : request.message ∉ (before ++ after).map Request.message := by
      have distinct' := (moved.map Request.message).nodup_iff.mp (List.nodup_cons.mp distinct).2
      exact (List.nodup_cons.mp distinct').1
    have here : request ∈ before ++ request :: after := by simp
    refine ⟨_, before ++ after, stepped ran, by simpa using leads', sorted.sublist fewer, ?_, ?_,
      ?_, ?_, ?_, ?_, ?_⟩
    · have others : (before ++ after).filter
          (fun other => some other.message ≠ some request.message) = before ++ after := by
        refine List.filter_eq_self.mpr fun other mem => ?_
        have differs : other.message ≠ request.message := by
          exact fun same => apart (same ▸ List.mem_map_of_mem mem)
        simpa using differs
      have left := (moved.symm.trans perm).filter
        fun other => decide (some other.message ≠ some request.message)
      rw [List.filter_cons_of_neg (by simp), others] at left
      exact left
    · exact fun other mem => stamps other (fewer.subset mem)
    · exact distinct.sublist ((fewer.map Request.message).cons_cons list)
    · exact fun other mem => known other (fewer.subset mem)
    · intro other mem
      rw [List.filterMap_append] at mem
      rcases List.mem_append.mp mem with old | last
      · obtain ⟨sent, gone⟩ := answered other old
        exact ⟨sent, fun back => gone ((fewer.map Request.message).subset back)⟩
      · obtain rfl : other = request.message := by simpa using last
        exact ⟨(known request here).1, apart⟩
    · refine allRight ⟨request, perm.mem_iff.mp here, rfl, ?_, fun other pending soon => ?_⟩
      · exact Int.not_lt.mp ((later_iff request here).not.mp (Nat.not_lt_of_le due))
      · rcases List.mem_append.mp (perm.mem_iff.mpr pending) with earlier | mem
        · -- a message in front of the one returned is not due
          have notDue := (later_iff other (List.mem_append_left _ earlier)).mp
            (later _ (List.mem_map_of_mem earlier))
          exact absurd soon (Int.not_le.mpr notDue)
        · rcases List.mem_cons.mp mem with same | mem
          · exact .inl same
          · have behind := (List.pairwise_append.mp sorted).2.1
            exact .inr ((List.pairwise_cons.mp behind).1 other mem)
    · have new : request.message ∉ s.answers.filterMap Answer.message := by
        exact fun old => (answered _ old).2 (List.mem_map_of_mem here)
      simpa [List.filterMap_append] using
        List.nodup_append.mpr ⟨once, List.nodup_singleton _, fun a mem b last =>
          fun same => new (by rw [← List.mem_singleton.mp last, ← same]; exact mem)⟩

/-- Every call of a queue keeps it sorted, as long as the messages are distinct and their
stamps are their delays. -/
theorem exists_step (call : Call α) (kept : ∃ requests, Kept list s requests)
    (met : Distinct list call s ∧ Stamped call s) :
    ∃ t, step list call s = some t ∧ ∃ requests, Kept list t requests := by
  obtain ⟨requests, kept⟩ := kept
  cases call with
  | enqueue message delayed =>
    obtain ⟨t, requests', stepped, kept'⟩ := kept.enqueue met.1 met.2
    exact ⟨t, stepped, requests', kept'⟩
  | next =>
    obtain ⟨t, requests', stepped, kept'⟩ := kept.answer
    exact ⟨t, stepped, requests', kept'⟩
  | wait ms => exact ⟨_, rfl, requests, { kept with }⟩

/-- A queue whose messages carry their delays as time stamps is sorted after every run, and
has returned each message at most once, when it was due, and as the first that was. -/
theorem inOrder_of_stamped {clock : ℕ} {calls : List (Call α)}
    (distinct : Meets (step list) (Distinct list) (start list next timeStamp clock) calls)
    (stamped : Meets (step list) Stamped (start list next timeStamp clock) calls) :
    ∃ s, runs (step list) (start list next timeStamp clock) calls = some s ∧ InOrder list s := by
  obtain ⟨s, ran, requests, kept⟩ :=
    exists_runs (fun call s => exists_step call) ⟨[], kept_start⟩ (distinct.and stamped)
  exact ⟨s, ran, kept.inOrder⟩

/-- Two messages, one of them due five milliseconds later, and two calls for them. -/
theorem inOrder_of_stamped_two :
    ∃ s, runs (step 0) (start 0 (fun _ : ℕ => none) (fun a => if a = 1 then 5 else 0) 7)
        [.enqueue 1 5, .enqueue 2 0, .next, .wait 5, .next] = some s ∧ InOrder 0 s :=
  inOrder_of_stamped (by decide +kernel) (by decide +kernel)

/-- A message that is sent with a delay of a hundred milliseconds is returned at once. -/
theorem delay_ignored :
    Meets (step 0) (Distinct 0) (start 0 (fun _ : ℕ => none) (fun _ => 0) 0)
        [.enqueue 1 100, .next] ∧
      ∃ s, runs (step 0) (start 0 (fun _ : ℕ => none) (fun _ => 0) 0)
        [.enqueue 1 100, .next] = some s ∧ ¬ InOrder 0 s := by
  refine ⟨by decide +kernel, _, rfl, fun inOrder => ?_⟩
  obtain ⟨request, pending, -, due, -⟩ :=
    inOrder.right ⟨[⟨1, 100, 0⟩], 0, some 1⟩ List.mem_cons_self
  obtain rfl := List.mem_singleton.mp pending
  exact absurd due (by decide)

end Hdf.Utils.MessageQueue
