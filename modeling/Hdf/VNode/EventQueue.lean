import Hdf.VNode.Client
import Mathlib.Data.List.Infix
import Mathlib.Tactic.Linarith

/-!
# Event queue accounting

The queue counter of a client is the length of its queue as long as the queue is
never cleared with events in it: `HdfVnodeCleanEventQueue` frees the events but
leaves the counter. Under that condition the queue is a bounded queue: events are
read in the order sent, and one is lost only by being the oldest of
`EVENT_QUEUE_MAX` events when another one is sent.

## Main results

* `Sound.step`: operations keep the books, but for clearing a queue with events in it
* `accounted_iff`: when the counter is right throughout a run
* `counter_stale`: stopping with events in the queue
-/

namespace Hdf.VNode

/-- An operation on a client, with its arguments and the outcomes of what it depends on. -/
inductive Op where
  | startListening
  | stopListening
  | exitListening
  | wakeup
  | sendEvent (eventAlloc sbufAlloc : Bool) (event : HdfDevEvent)
  | readEvent (request : ReadRequest)
  | poll
  deriving DecidableEq

/-- The operation clears the event queue. -/
def Op.clears : Op → Bool
  | stopListening => true
  | exitListening => true
  | _ => false

/-- Why an event has left the queue. -/
inductive Fate where
  | read
  | dropped (queued : ℕ)
  | cleared
  deriving DecidableEq, Repr

/-- A client, the events that were put into its queue, and those that have left it. -/
structure History where
  client : HdfVNodeAdapterClient
  sent : List HdfDevEvent
  gone : List (HdfDevEvent × Fate)
  deriving DecidableEq, Repr

/-- The history of a new client. -/
def newHistory : History := { client := newClient, sent := [], gone := [] }

/-- The event that a successful reply hands over. -/
def ReadReply.event (reply : ReadReply) : List HdfDevEvent :=
  match reply.ret, reply.bwr with
  | .success, some bwr => [⟨bwr.cmdCode.toUInt32, reply.data⟩]
  | _, _ => []

/-- An operation, with what it does to the history. Sent events are those that a listening
client accepts; read events are those that the user gets. -/
def step (op : Op) (h : History) : Option History :=
  match op with
  | .startListening => some { h with client := startListening h.client }
  | .stopListening =>
    let left := stopListening h.client
    some { h with client := left.2, gone := h.gone ++ left.1.map fun e => (e, .cleared) }
  | .exitListening =>
    let left := exitListening h.client
    some { h with client := left.2, gone := h.gone ++ left.1.map fun e => (e, .cleared) }
  | .wakeup => some { h with client := wakeup h.client }
  | .sendEvent eventAlloc sbufAlloc event =>
    (sendDevEvent eventAlloc sbufAlloc event h.client).map fun left => {
      client := left.2.2
      sent := h.sent ++ if left.1 = .success ∧ h.client.status = .listening then [event] else []
      gone := h.gone ++ left.2.1.map fun e => (e, .dropped h.client.eventQueue.length) }
  | .readEvent request =>
    let left := readDevEvent request h.client
    some { h with client := left.2.2, gone := h.gone ++ left.1.event.map fun e => (e, .read) }
  | .poll => some { h with client := (poll h.client).2 }

/-- The history after a sequence of operations. -/
def runs (h : History) : List Op → Option History
  | [] => some h
  | op :: ops => (step op h).bind fun h => runs h ops

/-- The counter is the length of the queue, which is bounded. -/
def Accounted (client : HdfVNodeAdapterClient) : Prop :=
  client.eventQueueSize = client.eventQueue.length ∧ client.eventQueue.length ≤ eventQueueMax

/-- Every event that was sent has left the queue, in the order of sending, or is still there,
and one is dropped only when the queue is full. -/
structure Ledger (h : History) : Prop where
  order : h.sent = h.gone.map Prod.fst ++ h.client.eventQueue
  dropped : ∀ e n, (e, Fate.dropped n) ∈ h.gone → n = eventQueueMax

section

variable {h h' : History} {op : Op} {client : HdfVNodeAdapterClient}

/-! ### Single operations -/

theorem readDevEvent_spec (request : ReadRequest) (client : HdfVNodeAdapterClient) :
    (readDevEvent request client).2.2 = client ∧ (readDevEvent request client).1.event = [] ∨
      ∃ event rest, client.eventQueue = event :: rest ∧
        (readDevEvent request client).1.event = [event] ∧
        (readDevEvent request client).2.2 =
          { client with eventQueue := rest, eventQueueSize := client.eventQueueSize - 1 } := by
  unfold readDevEvent
  cases request.bwrUser with
  | none => exact .inl ⟨rfl, rfl⟩
  | some bwr =>
    dsimp only
    split
    case isTrue => exact .inl ⟨rfl, rfl⟩
    case isFalse =>
      split
      case isTrue => exact .inl ⟨rfl, rfl⟩
      case isFalse =>
        split
        case h_1 => exact .inl ⟨rfl, rfl⟩
        case h_2 event rest queue =>
          split
          case isTrue => split <;> exact .inl ⟨rfl, rfl⟩
          case isFalse =>
            split
            case isTrue => exact .inl ⟨rfl, rfl⟩
            case isFalse =>
              split
              case isTrue => exact .inr ⟨event, rest, queue, by simp [ReadReply.event], rfl⟩
              case isFalse => exact .inl ⟨rfl, rfl⟩

/-- Events are queued at the end, if at all. -/
theorem queueEvent_spec (eventAlloc sbufAlloc : Bool) (event : HdfDevEvent)
    (client : HdfVNodeAdapterClient) :
    (queueEvent eventAlloc sbufAlloc event client).1 ≠ .success ∧
        (queueEvent eventAlloc sbufAlloc event client).2 = client ∨
      (queueEvent eventAlloc sbufAlloc event client).1 = .success ∧
        (queueEvent eventAlloc sbufAlloc event client).2 = {
          client with
          eventQueue := client.eventQueue ++ [event],
            eventQueueSize := client.eventQueueSize + 1 } := by
  cases eventAlloc <;> cases sbufAlloc <;> simp [queueEvent]

theorem poll_spec (client : HdfVNodeAdapterClient) :
    (poll client).2.eventQueue = client.eventQueue ∧
      (poll client).2.eventQueueSize = client.eventQueueSize := by
  unfold poll
  split
  · exact ⟨rfl, rfl⟩
  · split
    · exact ⟨rfl, rfl⟩
    · split <;> exact ⟨rfl, rfl⟩

theorem wakeup_spec (client : HdfVNodeAdapterClient) :
    (wakeup client).eventQueue = client.eventQueue ∧
      (wakeup client).eventQueueSize = client.eventQueueSize := by
  unfold wakeup
  split <;> exact ⟨rfl, rfl⟩

/-- What is kept in every state of a run. -/
structure Sound (h : History) : Prop where
  accounted : Accounted h.client
  ledger : Ledger h

theorem sound_new : Sound newHistory :=
  ⟨⟨rfl, Nat.zero_le _⟩, rfl, by simp [newHistory]⟩

/-- A change of the client that leaves the queue alone. -/
theorem Sound.of_same {client : HdfVNodeAdapterClient} (sound : Sound h)
    (queue : client.eventQueue = h.client.eventQueue)
    (size : client.eventQueueSize = h.client.eventQueueSize) :
    Sound { h with client := client } := by
  obtain ⟨⟨counted, bound⟩, order, dropped⟩ := sound
  refine ⟨⟨?_, ?_⟩, ?_, dropped⟩
  · dsimp only
    rw [queue, size, counted]
  · dsimp only
    rwa [queue]
  · dsimp only
    rw [queue, order]

/-- Sending appends to the books what it appends to the queue. -/
theorem Sound.queued (freed : List HdfDevEvent) (n : ℕ) {eventAlloc sbufAlloc : Bool}
    {event : HdfDevEvent}
    (order : h.sent = h.gone.map Prod.fst ++ (freed ++ client.eventQueue))
    (dropped : ∀ e m, (e, Fate.dropped m) ∈ h.gone → m = eventQueueMax)
    (counted : client.eventQueueSize = client.eventQueue.length)
    (room : client.eventQueue.length < eventQueueMax)
    (full : freed ≠ [] → n = eventQueueMax)
    (result : h'.client = (queueEvent eventAlloc sbufAlloc event client).2)
    (sent : h'.sent = h.sent ++
      if (queueEvent eventAlloc sbufAlloc event client).1 = .success then [event] else [])
    (gone : h'.gone = h.gone ++ freed.map fun e => (e, .dropped n)) : Sound h' := by
  have left : h'.gone.map Prod.fst = h.gone.map Prod.fst ++ freed := by
    rw [gone, List.map_append, List.map_map]
    simp [Function.comp_def]
  have fates (e : HdfDevEvent) (m : ℕ) (inside : (e, Fate.dropped m) ∈ h'.gone) :
      m = eventQueueMax := by
    rw [gone] at inside
    rcases List.mem_append.mp inside with old | new
    · exact dropped e m old
    · obtain ⟨e', member, same⟩ := List.mem_map.mp new
      cases same
      exact full (List.ne_nil_of_mem member)
  rcases queueEvent_spec eventAlloc sbufAlloc event client with ⟨fails, same⟩ | ⟨succeeds, same⟩
  · rw [← result] at same
    refine ⟨⟨by rw [same, counted], by rw [same]; exact room.le⟩, ?_, fates⟩
    rw [same, sent, if_neg fails, List.append_nil, order, left, List.append_assoc]
  · rw [← result] at same
    refine ⟨⟨?_, ?_⟩, ?_, fates⟩
    · rw [same]
      simp [counted]
    · rw [same, List.length_append]
      exact room
    · rw [sent, if_pos succeeds, order, left, same]
      simp

/-- Every operation keeps the books, but for clearing a queue with events in it. -/
theorem Sound.step (sound : Sound h) (op : Op)
    (empty : op.clears = true → h.client.eventQueue = []) :
    ∃ h', VNode.step op h = some h' ∧ Sound h' := by
  obtain ⟨⟨counted, bound⟩, order, dropped⟩ := sound
  have sound : Sound h := ⟨⟨counted, bound⟩, order, dropped⟩
  cases op with
  | startListening => exact ⟨_, rfl, sound.of_same rfl rfl⟩
  | wakeup =>
    obtain ⟨queue, size⟩ := wakeup_spec h.client
    exact ⟨_, rfl, sound.of_same queue size⟩
  | poll =>
    obtain ⟨queue, size⟩ := poll_spec h.client
    exact ⟨_, rfl, sound.of_same queue size⟩
  | stopListening =>
    have empty := empty rfl
    refine ⟨_, rfl, ?_⟩
    have same : Sound { h with client := { h.client with status := .stopped } } :=
      sound.of_same rfl rfl
    simpa [stopListening, cleanEventQueue, empty] using same
  | exitListening =>
    have empty := empty rfl
    refine ⟨_, rfl, ?_⟩
    have same : Sound { h with client := { h.client with status := .exited } } :=
      sound.of_same rfl rfl
    simpa [exitListening, cleanEventQueue, empty] using same
  | readEvent request =>
    refine ⟨_, rfl, ?_⟩
    rcases readDevEvent_spec request h.client with ⟨same, nothing⟩ | ⟨event, rest, queue, got, left⟩
    · rw [same, nothing]
      simpa using sound
    · rw [queue] at counted bound order
      rw [List.length_cons] at counted bound
      rw [got, left]
      refine ⟨⟨?_, ?_⟩, ?_, fun e n inside => ?_⟩
      · dsimp only
        push_cast at counted
        omega
      · dsimp only
        omega
      · dsimp only
        rw [order]
        simp
      · dsimp only at inside
        rcases List.mem_append.mp inside with old | new
        · exact dropped e n old
        · simp at new
  | sendEvent eventAlloc sbufAlloc event =>
    rw [VNode.step, sendDevEvent]
    by_cases void : event.data.length = 0
    · rw [if_pos void]
      exact ⟨_, rfl, by simpa using sound⟩
    · rw [if_neg void, sendDevEventToClient]
      by_cases deaf : h.client.status ≠ .listening
      · rw [if_pos deaf]
        exact ⟨_, rfl, by simpa [deaf] using sound⟩
      · rw [if_neg deaf]
        have listening : h.client.status = .listening := not_not.mp deaf
        by_cases full : (eventQueueMax : ℤ) ≤ h.client.eventQueueSize
        · -- a full queue is not empty, so there is an oldest event
          rw [if_pos full]
          rw [counted] at full
          have full : h.client.eventQueue.length = eventQueueMax :=
            le_antisymm bound (by exact_mod_cast full)
          cases queue : h.client.eventQueue with
          | nil =>
            rw [queue] at full
            cases full
          | cons first rest =>
            rw [queue] at order counted full bound
            rw [dropOldEventLocked, queue]
            have counted : h.client.eventQueueSize - 1 = rest.length := by rw [counted]; simp
            have room : rest.length < eventQueueMax := by rwa [List.length_cons] at bound
            exact ⟨_, rfl, Sound.queued [first] (first :: rest).length order dropped counted room
              (fun _ => full) rfl (by simp only [listening, and_true]) rfl⟩
        · rw [if_neg full]
          rw [counted] at full
          have room : h.client.eventQueue.length < eventQueueMax := by exact_mod_cast not_le.mp full
          exact ⟨_, rfl, Sound.queued [] 0 order dropped counted room (by simp) rfl
            (by simp only [listening, and_true]) rfl⟩

/-! ### Runs -/

theorem runs_append (h : History) (ops ops' : List Op) :
    runs h (ops ++ ops') = (runs h ops).bind fun h => runs h ops' := by
  induction ops generalizing h with
  | nil => rfl
  | cons op ops ih =>
    rw [List.cons_append, runs, runs, Option.bind_assoc]
    congr 1
    funext h
    exact ih h

theorem runs_concat (h : History) (ops : List Op) (op : Op) :
    runs h (ops ++ [op]) = (runs h ops).bind (step op) := by
  rw [runs_append]
  congr 1
  funext h
  rw [runs]
  cases step op h <;> rfl

/-- Clearing leaves the counter as it is. -/
theorem step_clears (clears : op.clears = true) :
    ∃ h', step op h = some h' ∧ h'.client.eventQueue = [] ∧
      h'.client.eventQueueSize = h.client.eventQueueSize := by
  cases op with
  | stopListening | exitListening => exact ⟨_, rfl, rfl, rfl⟩
  | startListening | wakeup | sendEvent _ _ _ | readEvent _ | poll => cases clears

/-- The counter is right, the queue bounded and every event accounted for after
each operation of a run, exactly when stopping and exiting find the queue empty. -/
theorem accounted_iff (ops : List Op) :
    (∀ pre, pre <+: ops → ∃ h, runs newHistory pre = some h ∧ Accounted h.client ∧ Ledger h) ↔
      ∀ pre op, pre ++ [op] <+: ops → op.clears = true →
        ∀ h, runs newHistory pre = some h → h.client.eventQueue = [] := by
  constructor
  · intro accounted pre op inside clears h ran
    -- the counter is the same before and after, and the queue is empty after
    obtain ⟨h₁, ran₁, ⟨counted, -⟩, -⟩ := accounted pre ((List.prefix_append _ _).trans inside)
    cases ran.symm.trans ran₁
    obtain ⟨h₂, ran₂, ⟨counted', -⟩, -⟩ := accounted (pre ++ [op]) inside
    obtain ⟨h', goes, queue, size⟩ := step_clears (h := h) clears
    rw [runs_concat, ran, Option.bind_some, goes] at ran₂
    cases ran₂
    rw [queue, size, counted] at counted'
    simpa using counted'
  · intro empty pre
    induction pre using List.reverseRecOn with
    | nil => exact fun _ => ⟨newHistory, rfl, sound_new.accounted, sound_new.ledger⟩
    | append_singleton pre op ih =>
      intro inside
      obtain ⟨h, ran, accounted, ledger⟩ := ih ((List.prefix_append _ _).trans inside)
      obtain ⟨h', goes, sound⟩ := Sound.step ⟨accounted, ledger⟩ op fun clears =>
        empty pre op inside clears h ran
      exact ⟨h', by rw [runs_concat, ran]; exact goes, sound.accounted, sound.ledger⟩

end

/-! ### Examples -/

/-- An event with one byte. -/
def oneEvent : HdfDevEvent := { id := 7, data := [1] }

/-- The client stops listening with as many events in its queue. -/
def stopsWith (n : ℕ) : List Op :=
  .startListening :: List.replicate n (.sendEvent true true oneEvent) ++ [.stopListening]

/-- A queue that is cleared with an event in it, and one that is cleared when it is full: the
next event sent takes the list head for the oldest event. -/
theorem counter_stale :
    (∃ h, runs newHistory (stopsWith 1) = some h ∧ ¬ Accounted h.client) ∧
      runs newHistory (stopsWith 100 ++ [.startListening, .sendEvent true true oneEvent]) =
        none := by
  constructor
  · have stale : ((runs newHistory (stopsWith 1)).map fun h =>
        (h.client.eventQueueSize, h.client.eventQueue)) = some (1, []) := rfl
    obtain ⟨h, ran, left⟩ := Option.map_eq_some_iff.mp stale
    obtain ⟨size, queue⟩ := Prod.mk.inj left
    refine ⟨h, ran, fun accounted => ?_⟩
    have counted := accounted.1
    rw [size, queue] at counted
    cases counted
  · rfl

end Hdf.VNode
