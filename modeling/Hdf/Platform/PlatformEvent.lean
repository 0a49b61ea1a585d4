import Hdf.Lib.BitSet
import Hdf.Lib.Runs
import Hdf.Lib.Threads

/-!
# Waiting for platform events

A platform event is a word of event bits and a list of waiters. A post sets bits and
selects the first waiter in the list that is satisfied by the word. A listener is
called with its bits, which are cleared; a waiting call is taken out of the list,
woken up, and then reads and clears its bits by itself.

A call is numbered by its position among all calls and begins with its first step.
Every section under the lock and every use of a semaphore is a step. A waiter record
belongs to a call that waits, or has been allocated for a listener; a post that comes
to a record whose call has returned or whose listener has been removed is noted.

## Main definitions

* `State`, `step`: an event and any number of calls, and their steps in any order
* `Unforgotten`: no call waits for what is there, and only events are returned
* `Orderly`: the steps that leave nobody behind

## Main results

* `unforgotten_of_runs`: nobody is forgotten if all steps are orderly
* `forgets_waiter`: a post that satisfies two calls wakes up one
-/

namespace Hdf.Platform.Event

open BitSet Threads

/-- Who a waiter record belongs to: a call, or a listener with the number of the record. -/
inductive Owner where
  | wait (i : ℕ)
  | listener (listener record : ℕ)
  deriving DecidableEq, Repr

/-- `struct PlatformEventWaiter`; `all` stands for `PLAT_EVENT_MODE_AND`. -/
structure Waiter where
  mask : UInt32
  all : Bool
  owner : Owner
  deriving DecidableEq, Repr

/-- A call that has been made and what it does next. -/
inductive Call where
  | delivers (waiter : Waiter)
  | delivered
  | inserts (mask : UInt32) (all : Bool) (tms : UInt32)
  | blocks (mask : UInt32) (all : Bool) (tms : UInt32) (sem : ℕ)
  | readsAgain (mask : UInt32) (all : Bool)
  | removes (mask : UInt32) (all : Bool)
  | waited (mask : UInt32) (all : Bool) (events : Option UInt32)
  deriving DecidableEq, Repr

/-- An event and the calls. A call that has waited has no events if it has returned an error.
`records` counts the records of listeners that have been allocated, those in `freed` have been
freed. -/
structure State where
  eventsWord : UInt32
  waiters : List Waiter
  calls : List Call
  records : ℕ
  freed : List Owner
  touched : Bool
  deriving DecidableEq, Repr

/-- After `PlatformEventInit`. -/
def init : State where
  eventsWord := 0
  waiters := []
  calls := []
  records := 0
  freed := []
  touched := false

/-- `HDF_WAIT_FOREVER`. -/
def hdfWaitForever : UInt32 := 0xffffffff

/-- The events are there that a mask and a mode ask for. -/
def satisfies (eventsWord mask : UInt32) (all : Bool) : Bool :=
  if all then eventsWord &&& mask == mask else eventsWord &&& mask != 0

/-- `PlatformEventRead`: the events that are read, and the word without them. -/
def platformEventRead (eventsWord mask : UInt32) (all : Bool) : UInt32 × UInt32 :=
  let masked := if satisfies eventsWord mask all then eventsWord &&& mask else 0
  (masked, eventsWord &&& ~~~masked)

/-- The waiter that a post selects. -/
def selects (eventsWord : UInt32) (waiters : List Waiter) : Option Waiter :=
  waiters.find? fun pos => satisfies eventsWord pos.mask pos.all

/-- The first record of a listener. -/
def recordOf (listener : ℕ) (waiters : List Waiter) : Option Waiter :=
  waiters.find? fun waiter =>
    match waiter.owner with
    | .wait _ => false
    | .listener listener' _ => listener' == listener

/-- A record has been freed, with its call or on its own. -/
def State.dead (s : State) : Owner → Bool
  | .wait i =>
    match s.calls[i]? with
    | some (.waited _ _ _) => true
    | _ => false
  | .listener listener record => s.freed.contains (.listener listener record)

/-- The locked section of `PlatformEventPost`. -/
def platformEventPost (events : UInt32) (s : State) : State :=
  if events = 0 then s
  else
    let eventsWord := s.eventsWord ||| events
    match selects eventsWord s.waiters with
    | none => { s with eventsWord := eventsWord }
    | some waiter =>
      match waiter.owner with
      | .wait _ => { s with
          eventsWord := eventsWord
          waiters := s.waiters.erase waiter
          calls := s.calls ++ [.delivers waiter] }
      | .listener _ _ => { s with
          eventsWord := eventsWord &&& ~~~(eventsWord &&& waiter.mask)
          calls := s.calls ++ [.delivers waiter] }

/-- `PlatformEventWait` up to its first locked section. -/
def platformEventWait (mask : UInt32) (all : Bool) (tms : UInt32) (s : State) : State :=
  if mask = 0 then s
  else
    let (eventsRead, eventsWord) := platformEventRead s.eventsWord mask all
    let call : Call :=
      if eventsRead ≠ 0 then .waited mask all (some eventsRead)
      else if tms = 0 then .waited mask all none
      else .inserts mask all tms
    { s with eventsWord := eventsWord, calls := s.calls ++ [call] }

/-- `PlatformEventListen`, if the record can be allocated. -/
def platformEventListen (mask : UInt32) (listener : ℕ) (s : State) : State :=
  if mask = 0 then s
  else { s with
    waiters := s.waiters ++ [⟨mask, false, .listener listener s.records⟩]
    records := s.records + 1 }

/-- `PlatformEventUnlisten`. -/
def platformEventUnlisten (listener : ℕ) (s : State) : State :=
  match recordOf listener s.waiters with
  | none => s
  | some waiter =>
    { s with
      waiters := s.waiters.erase waiter
      freed := s.freed ++ [waiter.owner] }

/-- What a post does to the record that it has selected: `OsalSemPost` or the callback. -/
def deliver (waiter : Waiter) (s : State) : State :=
  if s.dead waiter.owner then { s with touched := true }
  else
    match waiter.owner with
    | .wait i =>
      match s.calls[i]? with
      | some (.blocks mask all tms sem) =>
        { s with calls := s.calls.set i (.blocks mask all tms (sem + 1)) }
      | _ => s
    | .listener _ _ => s

/-- The next step of a call. -/
def advance (i : ℕ) (s : State) : Option State :=
  match s.calls[i]? with
  | some (.delivers waiter) =>
    let s := deliver waiter s
    some { s with calls := s.calls.set i .delivered }
  | some (.inserts mask all tms) => some { s with
      waiters := s.waiters ++ [⟨mask, all, .wait i⟩]
      calls := s.calls.set i (.blocks mask all tms 0) }
  | some (.blocks mask all _ sem) =>
    if 0 < sem then some { s with calls := s.calls.set i (.readsAgain mask all) } else none
  | some (.readsAgain mask all) =>
    let (events, eventsWord) := platformEventRead s.eventsWord mask all
    some { s with
      eventsWord := eventsWord
      calls := s.calls.set i (.waited mask all (some events)) }
  | some (.removes mask all) => some { s with
      waiters := s.waiters.filter fun waiter => waiter.owner ≠ .wait i
      calls := s.calls.set i (.waited mask all none) }
  | some .delivered | some (.waited _ _ _) | none => none

/-- A wait for the semaphore that times out. -/
def timeout (i : ℕ) (s : State) : Option State :=
  match s.calls[i]? with
  | some (.blocks mask all tms 0) =>
    if tms = hdfWaitForever then none
    else some { s with calls := s.calls.set i (.removes mask all) }
  | _ => none

/-- What happens next: a call, or a step of one. -/
inductive Action where
  | post (events : UInt32)
  | wait (mask : UInt32) (all : Bool) (tms : UInt32)
  | listen (mask : UInt32) (listener : ℕ)
  | unlisten (listener : ℕ)
  | advance (i : ℕ)
  | timeout (i : ℕ)
  deriving DecidableEq, Repr

/-- One step. -/
def step (action : Action) (s : State) : Option State :=
  match action with
  | .post events => some (platformEventPost events s)
  | .wait mask all tms => some (platformEventWait mask all tms s)
  | .listen mask listener => some (platformEventListen mask listener s)
  | .unlisten listener => some (platformEventUnlisten listener s)
  | .advance i => advance i s
  | .timeout i => timeout i s

/-! ### Nobody is forgotten -/

/-- A call makes no step of its own accord: it has returned, or waits for its semaphore. -/
def Call.Rests : Call → Prop
  | .delivered | .waited _ _ _ => True
  | .blocks _ _ _ sem => sem = 0
  | .delivers _ | .inserts _ _ _ | .readsAgain _ _ | .removes _ _ => False

/-- When all calls rest, none of them waits for events that are there; a call returns events
that it has asked for; and no post comes to a record that is gone. -/
structure Unforgotten (s : State) : Prop where
  heard : (∀ call ∈ s.calls, call.Rests) → ∀ mask all tms sem,
    .blocks mask all tms sem ∈ s.calls → satisfies s.eventsWord mask all = false
  asked : ∀ mask all events, .waited mask all (some events) ∈ s.calls →
    events ≠ 0 ∧ satisfies events mask all = true
  untouched : s.touched = false

/-! ### The steps that leave nobody behind -/

/-- A call is in the list of waiters. -/
def Listed (waiters : List Waiter) (i : ℕ) : Prop := ∃ waiter ∈ waiters, waiter.owner = .wait i

/-- A call has been selected and has not yet read its events. -/
def Woken (s : State) (i : ℕ) (mask : UInt32) (all : Bool) : Prop :=
  s.calls[i]? = some (.readsAgain mask all) ∨
    (∃ tms sem, s.calls[i]? = some (.blocks mask all tms sem)) ∧ ¬ Listed s.waiters i

/-- A call waits in the list. -/
def Waits (s : State) (i : ℕ) (mask : UInt32) (all : Bool) : Prop :=
  (∃ tms sem, s.calls[i]? = some (.blocks mask all tms sem)) ∧ Listed s.waiters i

/-- No call that has been woken up is about to take a bit. -/
def Unclaimed (s : State) (b : ℕ) : Prop := ∀ i mask all, Woken s i mask all → ¬ HasBit mask b

/-- Some bits are enough for a mask and a mode. -/
def Covers (bits : ℕ → Prop) (mask : UInt32) (all : Bool) : Prop :=
  if all then ∀ b, HasBit mask b → bits b else ∃ b, HasBit mask b ∧ bits b

/-- Calls that have been woken up still find their events in a word, except for one call. -/
def Spares (s : State) (reader : Option ℕ) (eventsWord : UInt32) : Prop :=
  ∀ i mask all, Woken s i mask all → some i ≠ reader → satisfies eventsWord mask all = true

/-- A read that finds its events leaves those of the calls that have been woken up. -/
def ReadsOrderly (s : State) (reader : Option ℕ) (mask : UInt32) (all : Bool) : Prop :=
  satisfies s.eventsWord mask all = true → Spares s reader (s.eventsWord &&& ~~~mask)

/-- The post selects a call that has not timed out, and leaves no other call that waits with
bits that are enough for it; a listener takes no bits from a call that has been woken up. -/
def PostsOrderly (eventsWord : UInt32) (s : State) (waiter : Waiter) : Prop :=
  (∀ i mask all, Waits s i mask all → waiter.owner ≠ .wait i →
    ¬ Covers (fun b => HasBit eventsWord b ∧ Unclaimed s b ∧ ¬ HasBit waiter.mask b) mask all) ∧
  match waiter.owner with
  | .wait i => ∀ mask all, s.calls[i]? ≠ some (.removes mask all)
  | .listener _ _ => Spares s none (eventsWord &&& ~~~waiter.mask)

/-- The steps that leave nobody behind. -/
def Orderly (action : Action) (s : State) : Prop :=
  match action with
  | .post events => events ≠ 0 → ∀ waiter ∈ selects (s.eventsWord ||| events) s.waiters,
      PostsOrderly (s.eventsWord ||| events) s waiter
  | .wait mask all _ => mask ≠ 0 → ReadsOrderly s none mask all
  | .listen _ _ => True
  | .unlisten listener => ∀ waiter ∈ recordOf listener s.waiters,
      ∀ waiter', .delivers waiter' ∈ s.calls → waiter'.owner ≠ waiter.owner
  | .advance i =>
    match s.calls[i]? with
    | some (.inserts mask all _) =>
      ¬ Covers (fun b => HasBit s.eventsWord b ∧ Unclaimed s b) mask all
    | some (.readsAgain mask all) => ReadsOrderly s (some i) mask all
    | _ => True
  | .timeout i => Listed s.waiters i

/-! ### Bits -/

section

variable {bits bits' : ℕ → Prop} {mask eventsWord : UInt32} {all : Bool}

theorem satisfies_iff : satisfies eventsWord mask all = true ↔
    Covers (HasBit eventsWord) mask all := by
  cases all with
  | false => simp [satisfies, Covers, and_ne_zero_iff]
  | true => simp [satisfies, Covers, and_eq_right_iff]

theorem Covers.mono (covers : Covers bits mask all)
    (more : ∀ b, HasBit mask b → bits b → bits' b) : Covers bits' mask all := by
  cases all with
  | false =>
    obtain ⟨b, asked, there⟩ := covers
    exact ⟨b, asked, more b asked there⟩
  | true => exact fun b asked => more b asked (covers b asked)

theorem exists_hasBit (nonzero : mask ≠ 0) : ∃ b, HasBit mask b := by
  by_contra none
  rw [not_exists] at none
  exact nonzero (ext_iff.mpr fun b => iff_of_false (none b) not_hasBit_zero)

/-- Events that are enough are some of those asked for. -/
theorem Covers.exists_bit (covers : Covers bits mask all) (nonzero : mask ≠ 0) :
    ∃ b, HasBit mask b ∧ bits b := by
  cases all with
  | false => exact covers
  | true =>
    obtain ⟨b, asked⟩ := exists_hasBit nonzero
    exact ⟨b, asked, covers b asked⟩

theorem hasBit_read {b : ℕ} : HasBit (platformEventRead eventsWord mask all).1 b ↔
    satisfies eventsWord mask all = true ∧ HasBit eventsWord b ∧ HasBit mask b := by
  rw [platformEventRead]
  split
  · rename_i enough
    simp [enough]
  · rename_i missing
    simp [missing]

theorem hasBit_rest {b : ℕ} : HasBit (platformEventRead eventsWord mask all).2 b ↔
    HasBit eventsWord b ∧ ¬ (satisfies eventsWord mask all = true ∧ HasBit mask b) := by
  have clear : (platformEventRead eventsWord mask all).2 =
    eventsWord &&& ~~~(platformEventRead eventsWord mask all).1 := rfl
  rw [clear, hasBit_clear, hasBit_read]
  tauto

/-- A read that finds its events returns some, and they are enough. -/
theorem read_of_satisfies (enough : satisfies eventsWord mask all = true) (nonzero : mask ≠ 0) :
    (platformEventRead eventsWord mask all).1 ≠ 0 ∧
      satisfies (platformEventRead eventsWord mask all).1 mask all = true := by
  have covers := satisfies_iff.mp enough
  constructor
  · obtain ⟨b, asked, there⟩ := covers.exists_bit nonzero
    intro none
    have read : HasBit (platformEventRead eventsWord mask all).1 b :=
      hasBit_read.mpr ⟨enough, there, asked⟩
    rw [none] at read
    exact not_hasBit_zero read
  · exact satisfies_iff.mpr
      (covers.mono fun b asked there => hasBit_read.mpr ⟨enough, there, asked⟩)

theorem satisfies_of_read (found : (platformEventRead eventsWord mask all).1 ≠ 0) :
    satisfies eventsWord mask all = true := by
  by_contra missing
  exact found (by simp [platformEventRead, missing])

end

/-! ### The invariant -/

/-- A post is about to come to a call. -/
def Call.deliversTo (i : ℕ) : Call → Bool
  | .delivers waiter => waiter.owner == .wait i
  | _ => false

/-- The posts that are about to come to a call. -/
def posts (s : State) (i : ℕ) : ℕ := s.calls.countP (Call.deliversTo i)

/-- The mask of a call that waits is not empty. -/
def Call.Asks : Call → Prop
  | .inserts mask _ _ | .blocks mask _ _ _ | .readsAgain mask _ => mask ≠ 0
  | .delivers _ | .delivered | .removes _ _ | .waited _ _ _ => True

/-- A call that is blocked is in the list, or a post is about to come to it or has posted its
semaphore; nobody else is in the list or has a post coming to it. -/
def Custody : Option Call → Prop → ℕ → Prop
  | some (.blocks _ _ _ sem), listed, posts =>
    (listed ∧ posts = 0 ∧ sem = 0) ∨ (¬ listed ∧ posts + sem = 1)
  | some (.removes _ _), listed, posts => listed ∧ posts = 0
  | some (.inserts _ _ _), listed, posts | some (.readsAgain _ _), listed, posts
  | some (.waited _ _ _), listed, posts | some (.delivers _), listed, posts
  | some .delivered, listed, posts | none, listed, posts => ¬ listed ∧ posts = 0

/-- The records in the list have different owners and have not been freed. -/
structure Roster (s : State) : Prop where
  distinct : (s.waiters.map Waiter.owner).Nodup
  fresh : ∀ waiter ∈ s.waiters, waiter.owner ∉ s.freed
  old : ∀ listener record, ((∃ waiter ∈ s.waiters, waiter.owner = .listener listener record) ∨
    .listener listener record ∈ s.freed) → record < s.records
  unowned : ∀ i, .wait i ∉ s.freed

/-- What holds as long as all steps are orderly. -/
structure Kept (s : State) : Prop extends Roster s where
  owned : ∀ waiter ∈ s.waiters, ∀ i, waiter.owner = .wait i →
    (∃ tms sem, s.calls[i]? = some (.blocks waiter.mask waiter.all tms sem)) ∨
      s.calls[i]? = some (.removes waiter.mask waiter.all)
  custody : ∀ i, Custody s.calls[i]? (Listed s.waiters i) (posts s i)
  delivered : ∀ waiter, .delivers waiter ∈ s.calls → waiter.owner ∉ s.freed
  asks : ∀ call ∈ s.calls, call.Asks
  spared : Spares s none s.eventsWord
  heard : ∀ i mask all, Waits s i mask all →
    ¬ Covers (fun b => HasBit s.eventsWord b ∧ Unclaimed s b) mask all
  asked : ∀ mask all events, .waited mask all (some events) ∈ s.calls →
    events ≠ 0 ∧ satisfies events mask all = true
  untouched : s.touched = false

section

variable {s t : State} {action : Action} {i : ℕ}

theorem Kept.init : Kept init where
  distinct := List.nodup_nil
  fresh _ member := absurd member List.not_mem_nil
  old listener record known := by simp [Event.init] at known
  unowned _ member := absurd member List.not_mem_nil
  owned _ member := absurd member List.not_mem_nil
  custody i := ⟨fun ⟨_, member, _⟩ => absurd member List.not_mem_nil, rfl⟩
  delivered _ member := absurd member List.not_mem_nil
  asks _ member := absurd member List.not_mem_nil
  spared i mask all woken := by simp [Woken, Event.init] at woken
  heard i mask all waits := by simp [Waits, Event.init] at waits
  asked _ _ _ member := absurd member List.not_mem_nil
  untouched := rfl

theorem Kept.unforgotten (kept : Kept s) : Unforgotten s where
  heard rests mask all tms sem member := by
    obtain ⟨i, there⟩ := List.getElem?_of_mem member
    have idle : sem = 0 := rests _ member
    have nobody (i : ℕ) : posts s i = 0 := by
      refine List.countP_eq_zero.mpr fun call member coming => ?_
      have rest := rests call member
      cases call with
      | delivers waiter => exact rest
      | delivered | inserts | blocks | readsAgain | removes | waited => cases coming
    -- when all calls rest, a blocked call is in the list
    have listed {i : ℕ} {mask : UInt32} {all : Bool} {tms : UInt32} {sem : ℕ}
        (there : s.calls[i]? = some (.blocks mask all tms sem)) : Listed s.waiters i := by
      have custody := kept.custody i
      have idle : sem = 0 := rests _ (List.mem_of_getElem? there)
      rw [there, nobody, idle] at custody
      rcases custody with ⟨listed, -⟩ | ⟨-, none⟩
      · exact listed
      · cases none
    have unclaimed (b : ℕ) : Unclaimed s b := by
      rintro j mask all (reading | ⟨⟨tms, sem, blocked⟩, unlisted⟩)
      · exact (rests _ (List.mem_of_getElem? reading)).elim
      · exact absurd (listed blocked) unlisted
    have missed := kept.heard i mask all ⟨⟨tms, sem, there⟩, listed there⟩
    rw [← Bool.not_eq_true, satisfies_iff]
    exact fun covers => missed (covers.mono fun b _ set => ⟨set, unclaimed b⟩)
  asked := kept.asked
  untouched := kept.untouched

/-! ### The list of waiters -/

theorem Roster.sublist (roster : Roster s) (fewer : t.waiters.Sublist s.waiters)
    (freed : t.freed = s.freed) (records : t.records = s.records) : Roster t where
  distinct := roster.distinct.sublist (fewer.map _)
  fresh waiter member := freed ▸ roster.fresh waiter (fewer.subset member)
  old listener record known := by
    rw [freed] at known
    rw [records]
    exact roster.old listener record
      (known.imp_left fun ⟨waiter, member, owner⟩ => ⟨waiter, fewer.subset member, owner⟩)
  unowned i := freed ▸ roster.unowned i

/-- A record that is new has no owner in the list yet. -/
theorem Roster.append (roster : Roster s) {waiter : Waiter}
    (waiters : t.waiters = s.waiters ++ [waiter]) (freed : t.freed = s.freed)
    (new : waiter.owner ∉ s.waiters.map Waiter.owner) (unfreed : waiter.owner ∉ s.freed)
    (young : ∀ listener record, waiter.owner = .listener listener record → record < t.records)
    (records : s.records ≤ t.records) : Roster t where
  distinct := by
    rw [waiters, List.map_append, List.map_singleton, List.nodup_append_comm]
    exact List.nodup_cons.mpr ⟨new, roster.distinct⟩
  fresh waiter' member := by
    rw [waiters, List.mem_append, List.mem_singleton] at member
    rw [freed]
    rcases member with member | rfl
    · exact roster.fresh waiter' member
    · exact unfreed
  old listener record known := by
    rw [freed] at known
    rcases known with ⟨waiter', member, owner⟩ | gone
    · rw [waiters, List.mem_append, List.mem_singleton] at member
      rcases member with member | rfl
      · exact (roster.old _ _ (.inl ⟨waiter', member, owner⟩)).trans_le records
      · exact young _ _ owner
    · exact (roster.old _ _ (.inr gone)).trans_le records
  unowned i := freed ▸ roster.unowned i

/-! ### Calls that a step leaves alone -/

/-- A call looks the same after a step. -/
structure Alike (s t : State) (i : ℕ) : Prop where
  call : t.calls[i]? = s.calls[i]?
  listed : Listed t.waiters i ↔ Listed s.waiters i
  posts : posts t i = posts s i

theorem Alike.woken {mask : UInt32} {all : Bool} (alike : Alike s t i) :
    Woken t i mask all ↔ Woken s i mask all := by
  rw [Woken, Woken, alike.call, alike.listed]

theorem Alike.waits {mask : UInt32} {all : Bool} (alike : Alike s t i) :
    Waits t i mask all ↔ Waits s i mask all := by
  rw [Waits, Waits, alike.call, alike.listed]

/-- Every call is in custody if the others look the same. -/
theorem Kept.custody_of_alike (kept : Kept s) (others : ∀ j ≠ i, Alike s t j)
    (here : Custody t.calls[i]? (Listed t.waiters i) (posts t i)) (j : ℕ) :
    Custody t.calls[j]? (Listed t.waiters j) (posts t j) := by
  by_cases same : j = i
  · rwa [same]
  · have alike := others j same
    rw [alike.call, propext alike.listed, alike.posts]
    exact kept.custody j

/-- A listed waiter belongs to a call, and has its mask and mode. -/
theorem Kept.exists_waiter (kept : Kept s) {mask : UInt32} {all : Bool}
    (waits : Waits s i mask all) :
    ∃ waiter ∈ s.waiters, waiter.owner = .wait i ∧ waiter.mask = mask ∧ waiter.all = all := by
  obtain ⟨⟨tms, sem, there⟩, waiter, member, owner⟩ := waits
  refine ⟨waiter, member, owner, ?_⟩
  rcases kept.owned waiter member i owner with ⟨tms', sem', blocked⟩ | removing
  · rw [there] at blocked
    cases blocked
    exact ⟨rfl, rfl⟩
  · rw [there] at removing
    cases removing

theorem Kept.nodup (kept : Kept s) : s.waiters.Nodup := kept.distinct.of_map

theorem Kept.eq_of_owner (kept : Kept s) {waiter waiter' : Waiter} (member : waiter ∈ s.waiters)
    (member' : waiter' ∈ s.waiters) (same : waiter.owner = waiter'.owner) : waiter = waiter' :=
  List.inj_on_of_nodup_map kept.distinct member member' same

/-- The waiters after one has been taken out. -/
theorem Kept.mem_erase (kept : Kept s) {waiter waiter' : Waiter} (member : waiter ∈ s.waiters) :
    waiter' ∈ s.waiters.erase waiter ↔ waiter' ∈ s.waiters ∧ waiter'.owner ≠ waiter.owner := by
  rw [kept.nodup.mem_erase_iff, and_comm]
  refine and_congr_right fun member' => not_congr ⟨congrArg Waiter.owner, ?_⟩
  exact kept.eq_of_owner member' member

theorem Kept.listed_erase (kept : Kept s) {waiter : Waiter} (member : waiter ∈ s.waiters) :
    Listed (s.waiters.erase waiter) i ↔ Listed s.waiters i ∧ waiter.owner ≠ .wait i := by
  simp only [Listed, kept.mem_erase member]
  constructor
  · rintro ⟨waiter', ⟨member', other⟩, owner⟩
    exact ⟨⟨waiter', member', owner⟩, fun same => other (owner.trans same.symm)⟩
  · rintro ⟨⟨waiter', member', owner⟩, other⟩
    exact ⟨waiter', ⟨member', fun same => other (same.symm.trans owner)⟩, owner⟩

theorem listed_append {waiters : List Waiter} {waiter : Waiter} :
    Listed (waiters ++ [waiter]) i ↔ Listed waiters i ∨ waiter.owner = .wait i := by
  simp only [Listed, List.mem_append, List.mem_singleton, or_and_right, exists_or,
    exists_eq_left]

/-- The number that the next call gets is not in use. -/
theorem Kept.unlisted (kept : Kept s) : ¬ Listed s.waiters s.calls.length ∧
    posts s s.calls.length = 0 := by
  have custody := kept.custody s.calls.length
  rwa [List.getElem?_eq_none (le_refl _)] at custody

/-! ### Calls that begin -/

theorem posts_append {new : Call} (same : t.calls = s.calls ++ [new]) :
    posts t i = posts s i + if new.deliversTo i then 1 else 0 := by
  rw [posts, same, countP_append_singleton, posts]

theorem getElem?_of_append {new : Call} (same : t.calls = s.calls ++ [new])
    (other : i ≠ s.calls.length) : t.calls[i]? = s.calls[i]? := by
  ext call
  rw [same, getElem?_append_singleton_iff]
  exact or_iff_left fun ⟨last, _⟩ => other last

theorem getElem?_last {new : Call} (same : t.calls = s.calls ++ [new]) :
    t.calls[s.calls.length]? = some new := by
  rw [same, List.getElem?_concat_length]

theorem mem_calls {new call : Call} (same : t.calls = s.calls ++ [new]) (member : call ∈ t.calls) :
    call ∈ s.calls ∨ call = new := by
  rw [same, List.mem_append, List.mem_singleton] at member
  exact member

theorem Woken.lt_length {mask : UInt32} {all : Bool} (woken : Woken s i mask all) :
    i < s.calls.length := by
  rcases woken with reading | ⟨⟨tms, sem, blocked⟩, -⟩
  · exact (List.getElem?_eq_some_iff.mp reading).1
  · exact (List.getElem?_eq_some_iff.mp blocked).1

/-! ### Posts -/

theorem satisfies_mono {word word' mask : UInt32} {all : Bool}
    (enough : satisfies word mask all = true) (more : ∀ b, HasBit word b → HasBit word' b) :
    satisfies word' mask all = true :=
  satisfies_iff.mpr ((satisfies_iff.mp enough).mono fun b _ => more b)

theorem selects_some {word : UInt32} {waiters : List Waiter} {waiter : Waiter}
    (selected : selects word waiters = some waiter) :
    waiter ∈ waiters ∧ satisfies word waiter.mask waiter.all = true :=
  ⟨List.mem_of_find?_eq_some selected,
    List.find?_some (p := fun pos : Waiter => satisfies word pos.mask pos.all) selected⟩

/-- A post that finds nobody. -/
theorem Kept.unselected (kept : Kept s) {word : UInt32} (more : ∀ b, HasBit s.eventsWord b →
    HasBit word b) (nobody : selects word s.waiters = none) :
    Kept { s with eventsWord := word } := by
  refine { kept with spared := ?_, heard := ?_ }
  · intro j mask all woken other
    exact satisfies_mono (kept.spared j mask all woken other) more
  · intro j mask all waits covers
    obtain ⟨waiter, member, -, rfl, rfl⟩ := kept.exists_waiter waits
    refine List.find?_eq_none.mp nobody waiter member (satisfies_iff.mpr ?_)
    exact covers.mono fun b _ there => there.1

/-- A post that takes a call out of the list. -/
theorem Kept.selectWait (kept : Kept s) {word : UInt32} {waiter : Waiter} (more : ∀ b,
    HasBit s.eventsWord b → HasBit word b) (selected : selects word s.waiters = some waiter)
    (owner : waiter.owner = .wait i) (orderly : PostsOrderly word s waiter) :
    Kept { s with
      eventsWord := word
      waiters := s.waiters.erase waiter
      calls := s.calls ++ [.delivers waiter] } := by
  obtain ⟨member, enough⟩ := selects_some selected
  obtain ⟨others, timely⟩ := orderly
  rw [owner] at timely
  have custody := kept.custody i
  have listed : Listed s.waiters i := ⟨waiter, member, owner⟩
  obtain ⟨tms, sem, blocked⟩ :=
    (kept.owned waiter member i owner).resolve_right (timely _ _)
  rw [blocked] at custody
  obtain ⟨-, unposted, idle⟩ := custody.resolve_right fun ⟨unlisted, _⟩ => unlisted listed
  generalize sameCalls : s.calls ++ [Call.delivers waiter] = calls
  have inside : i ≠ s.calls.length := by
    rintro rfl
    exact kept.unlisted.1 listed
  set t : State := { s with
    eventsWord := word
    waiters := s.waiters.erase waiter
    calls := calls } with sameState
  have appended : t.calls = s.calls ++ [Call.delivers waiter] := sameCalls.symm
  have unlisted : ¬ Listed t.waiters i := fun there => ((kept.listed_erase member).mp there).2 owner
  have alike (j : ℕ) (other : j ≠ i) (old : j ≠ s.calls.length) : Alike s t j := by
    have apart : waiter.owner ≠ .wait j := by
      rw [owner]
      exact fun same => other (Owner.wait.inj same).symm
    refine ⟨getElem?_of_append appended old, ?_, ?_⟩
    · exact (kept.listed_erase member).trans (and_iff_left apart)
    · rw [posts_append appended]
      simp [Call.deliversTo, apart]
  have here : t.calls[i]? = some (.blocks waiter.mask waiter.all tms sem) :=
    (getElem?_of_append appended inside).trans blocked
  have last := getElem?_last appended
  have awake : Woken t i waiter.mask waiter.all := .inr ⟨⟨tms, sem, here⟩, unlisted⟩
  -- only the call that has been selected wakes up
  have woken {j : ℕ} {mask : UInt32} {all : Bool} (woken : Woken t j mask all) :
      mask = waiter.mask ∧ all = waiter.all ∨ Woken s j mask all := by
    by_cases same : j = i
    · subst same
      rw [Woken, here] at woken
      rcases woken with reading | ⟨⟨_, _, blocked⟩, -⟩
      · cases reading
      · cases blocked
        exact .inl ⟨rfl, rfl⟩
    · by_cases new : j = s.calls.length
      · subst new
        rw [Woken, last] at woken
        rcases woken with reading | ⟨⟨_, _, blocked⟩, -⟩
        · cases reading
        · cases blocked
      · exact .inr ((alike j same new).woken.mp woken)
  have still {j : ℕ} {mask : UInt32} {all : Bool} (woken : Woken s j mask all) :
      Woken t j mask all := by
    refine (alike j ?_ (ne_of_lt woken.lt_length)).woken.mpr woken
    rintro rfl
    rw [Woken, blocked] at woken
    rcases woken with reading | ⟨-, unlisted⟩
    · cases reading
    · exact unlisted listed
  have waits {j : ℕ} {mask : UInt32} {all : Bool} (waits : Waits t j mask all) :
      Waits s j mask all ∧ waiter.owner ≠ .wait j := by
    have found := (kept.listed_erase member).mp waits.2
    obtain ⟨tms, sem, there⟩ := waits.1
    refine ⟨⟨⟨tms, sem, ?_⟩, found.1⟩, found.2⟩
    rw [← getElem?_of_append appended]
    · exact there
    · rintro rfl
      cases there.symm.trans last
  constructor
  case toRoster => exact kept.toRoster.sublist List.erase_sublist rfl rfl
  case owned =>
    intro waiter' kept' j owner'
    have there := kept.owned waiter' ((kept.mem_erase member).mp kept').1 j owner'
    rwa [getElem?_of_append appended]
    rintro rfl
    rw [List.getElem?_eq_none (le_refl _)] at there
    simp at there
  case custody =>
    intro j
    by_cases same : j = i
    · subst same
      rw [here]
      refine .inr ⟨unlisted, ?_⟩
      rw [posts_append appended, unposted, idle]
      simp [Call.deliversTo, owner]
    · by_cases new : j = s.calls.length
      · subst new
        rw [last]
        refine ⟨fun there => kept.unlisted.1 ((kept.listed_erase member).mp there).1, ?_⟩
        rw [posts_append appended, kept.unlisted.2]
        simp [Call.deliversTo, owner, inside]
      · have alike := alike j same new
        rw [alike.call, propext alike.listed, alike.posts]
        exact kept.custody j
  case delivered =>
    intro waiter' coming
    rcases mem_calls appended coming with old | new
    · exact kept.delivered waiter' old
    · cases new
      exact kept.fresh waiter member
  case asks =>
    intro call there
    rcases mem_calls appended there with old | rfl
    · exact kept.asks call old
    · trivial
  case spared =>
    intro j mask all awake other
    rcases woken awake with ⟨rfl, rfl⟩ | old
    · exact enough
    · exact satisfies_mono (kept.spared j mask all old other) more
  case heard =>
    intro j mask all waiting covers
    obtain ⟨before, apart⟩ := waits waiting
    refine others j mask all before apart (covers.mono fun b _ there => ⟨there.1, ?_, ?_⟩)
    · exact fun k mask all claimed => there.2 k mask all (still claimed)
    · exact there.2 i waiter.mask waiter.all awake
  case asked =>
    intro mask all events there
    rcases mem_calls appended there with old | new
    · exact kept.asked mask all events old
    · cases new
  case untouched => exact kept.untouched

/-! ### What the calls that have been woken up find -/

theorem Spares.mono {reader : Option ℕ} {word word' : UInt32} (spares : Spares s reader word)
    (more : ∀ b, HasBit word b → HasBit word' b) : Spares s reader word' :=
  fun j mask all woken other => satisfies_mono (spares j mask all woken other) more

theorem Spares.except {reader : Option ℕ} {word : UInt32} (spares : Spares s none word) :
    Spares s reader word :=
  fun j mask all woken _ => spares j mask all woken (by simp)

theorem Kept.spares_read (kept : Kept s) {reader : Option ℕ} {mask : UInt32} {all : Bool}
    (orderly : ReadsOrderly s reader mask all) :
    Spares s reader (platformEventRead s.eventsWord mask all).2 := by
  by_cases enough : satisfies s.eventsWord mask all = true
  · refine (orderly enough).mono fun b left => ?_
    obtain ⟨set, other⟩ := hasBit_clear.mp left
    exact hasBit_rest.mpr ⟨set, fun ⟨_, taken⟩ => other taken⟩
  · exact kept.spared.except.mono fun b set => hasBit_rest.mpr ⟨set, fun ⟨found, _⟩ => enough found⟩

/-! ### Steps of one call -/

/-- A step that other calls do not notice. -/
theorem Kept.of_alike (kept : Kept s) {new : Call} (roster : Roster t)
    (here : t.calls[i]? = some new) (alike : ∀ j ≠ i, Alike s t j)
    (members : ∀ call ∈ t.calls, call ∈ s.calls ∨ call = new) (freed : t.freed = s.freed)
    (untouched : t.touched = s.touched)
    (older : ∀ waiter ∈ t.waiters, ∀ j ≠ i, waiter.owner = .wait j → waiter ∈ s.waiters)
    (owned : ∀ waiter ∈ t.waiters, waiter.owner = .wait i →
      (∃ tms sem, new = .blocks waiter.mask waiter.all tms sem) ∨
        new = .removes waiter.mask waiter.all)
    (custody : Custody (some new) (Listed t.waiters i) (posts t i))
    (delivered : ∀ waiter, new = .delivers waiter → waiter.owner ∉ s.freed) (asks : new.Asks)
    (asked : ∀ mask all events, new = .waited mask all (some events) →
      events ≠ 0 ∧ satisfies events mask all = true)
    (spared : Spares s (some i) t.eventsWord)
    (woken : ∀ mask all, Woken t i mask all → satisfies t.eventsWord mask all = true)
    (heard : ∀ j mask all, Waits t j mask all →
      ¬ Covers (fun b => HasBit t.eventsWord b ∧ Unclaimed t b) mask all) : Kept t := by
  refine ⟨roster, ?_, ?_, ?_, ?_, ?_, heard, ?_, untouched.trans kept.untouched⟩
  · intro waiter member j owner
    by_cases same : j = i
    · subst same
      rw [here]
      exact (owned waiter member owner).imp
        (fun ⟨tms, sem, eq⟩ => ⟨tms, sem, congrArg some eq⟩) (congrArg some)
    · rw [(alike j same).call]
      exact kept.owned waiter (older waiter member j same owner) j owner
  · exact kept.custody_of_alike alike (here ▸ custody)
  · intro waiter coming
    rw [freed]
    rcases members _ coming with old | new
    · exact kept.delivered waiter old
    · exact delivered waiter new.symm
  · intro call there
    rcases members call there with old | rfl
    · exact kept.asks call old
    · exact asks
  · intro j mask all awake other
    by_cases same : j = i
    · exact woken mask all (same ▸ awake)
    · exact spared j mask all ((alike j same).woken.mp awake) fun eq => same (Option.some.inj eq)
  · intro mask all events there
    rcases members _ there with old | new
    · exact kept.asked mask all events old
    · exact asked mask all events new.symm

/-- If no bits are added, no call that waits has more to expect. -/
theorem Kept.heard_of_fewer (kept : Kept s)
    (waits : ∀ j mask all, Waits t j mask all → Waits s j mask all)
    (fewer : ∀ b, HasBit t.eventsWord b → Unclaimed t b → HasBit s.eventsWord b ∧ Unclaimed s b)
    (j : ℕ) (mask : UInt32) (all : Bool) (waiting : Waits t j mask all) :
    ¬ Covers (fun b => HasBit t.eventsWord b ∧ Unclaimed t b) mask all :=
  fun covers => kept.heard j mask all (waits j mask all waiting)
    (covers.mono fun b _ there => fewer b there.1 there.2)

/-- A call that begins without being in the list. -/
theorem Kept.begin (kept : Kept s) {new : Call} {word : UInt32}
    (asleep : ∀ mask all tms sem, new ≠ .blocks mask all tms sem)
    (reads : ∀ mask all, new ≠ .readsAgain mask all)
    (removes : ∀ mask all, new ≠ .removes mask all)
    (unnoticed : ∀ j, new.deliversTo j = false)
    (delivered : ∀ waiter, new = .delivers waiter → waiter.owner ∉ s.freed) (asks : new.Asks)
    (asked : ∀ mask all events, new = .waited mask all (some events) →
      events ≠ 0 ∧ satisfies events mask all = true)
    (spared : Spares s none word)
    (heard : ∀ j mask all, Waits s j mask all →
      ¬ Covers (fun b => HasBit word b ∧ Unclaimed s b) mask all) :
    Kept { s with eventsWord := word, calls := s.calls ++ [new] } := by
  generalize sameCalls : s.calls ++ [new] = calls
  set t : State := { s with eventsWord := word, calls := calls }
  have appended : t.calls = s.calls ++ [new] := sameCalls.symm
  have last := getElem?_last appended
  have alike (j : ℕ) (other : j ≠ s.calls.length) : Alike s t j := by
    refine ⟨getElem?_of_append appended other, Iff.rfl, ?_⟩
    rw [posts_append appended, unnoticed]
    rfl
  have unposted : posts t s.calls.length = 0 := by
    rw [posts_append appended, kept.unlisted.2, unnoticed]
    rfl
  have unclaimed {b : ℕ} (free : Unclaimed t b) : Unclaimed s b := fun j mask all woken =>
    free j mask all ((alike j (ne_of_lt woken.lt_length)).woken.mpr woken)
  refine kept.of_alike (kept.toRoster.sublist (List.Sublist.refl _) rfl rfl) last alike
    (fun call => mem_calls appended) rfl rfl (fun waiter member j _ _ => member) ?_ ?_ delivered
    asks asked spared.except ?_ ?_
  · exact fun waiter member owner => absurd ⟨waiter, member, owner⟩ kept.unlisted.1
  · rw [unposted]
    cases new with
    | blocks mask all tms sem => exact absurd rfl (asleep mask all tms sem)
    | removes mask all => exact absurd rfl (removes mask all)
    | delivers | delivered | inserts | readsAgain | waited => exact ⟨kept.unlisted.1, rfl⟩
  · rintro mask all (reading | ⟨⟨tms, sem, blocked⟩, -⟩)
    · exact absurd (Option.some.inj (last.symm.trans reading)) (reads mask all)
    · exact absurd (Option.some.inj (last.symm.trans blocked)) (asleep mask all tms sem)
  · intro j mask all waiting covers
    refine heard j mask all ?_ (covers.mono fun b _ there => ⟨there.1, unclaimed there.2⟩)
    by_cases same : j = s.calls.length
    · obtain ⟨tms, sem, blocked⟩ := waiting.1
      subst same
      exact absurd (Option.some.inj (last.symm.trans blocked)) (asleep mask all tms sem)
    · exact (alike j same).waits.mp waiting

theorem Kept.post (kept : Kept s) {events : UInt32} (orderly : Orderly (.post events) s) :
    Kept (platformEventPost events s) := by
  rw [platformEventPost]
  split
  · exact kept
  · rename_i nonzero
    have more (b : ℕ) (set : HasBit s.eventsWord b) : HasBit (s.eventsWord ||| events) b :=
      hasBit_or.mpr (.inl set)
    have orderly := orderly nonzero
    dsimp only
    split
    · rename_i nobody
      exact kept.unselected more nobody
    · rename_i waiter selected
      have orderly := orderly waiter selected
      split
      · rename_i i owner
        exact kept.selectWait more selected owner orderly
      · rename_i listener record owner
        obtain ⟨others, spares⟩ := orderly
        rw [owner] at spares
        refine kept.begin (by simp) (by simp) (by simp) ?_ ?_ trivial (by simp)
          (spares.mono fun b left => ?_) ?_
        · intro j
          rw [Call.deliversTo, owner]
          rfl
        · intro waiter' same
          cases same
          exact kept.fresh waiter (selects_some selected).1
        · obtain ⟨set, other⟩ := hasBit_clear.mp left
          exact hasBit_clear.mpr ⟨set, fun taken => other (hasBit_and.mp taken).2⟩
        · intro j mask all waiting covers
          refine others j mask all waiting (by simp [owner]) (covers.mono fun b _ there => ?_)
          obtain ⟨set, free⟩ := there
          rw [hasBit_clear, hasBit_and, not_and] at set
          exact ⟨set.1, free, set.2 set.1⟩

/-! ### Waits -/

theorem Kept.wait (kept : Kept s) {mask tms : UInt32} {all : Bool}
    (orderly : Orderly (.wait mask all tms) s) : Kept (platformEventWait mask all tms s) := by
  rw [platformEventWait]
  split
  · exact kept
  · rename_i nonzero
    have heard (j : ℕ) (mask' : UInt32) (all' : Bool) (waiting : Waits s j mask' all') :
        ¬ Covers (fun b => HasBit (platformEventRead s.eventsWord mask all).2 b ∧ Unclaimed s b)
          mask' all' := fun covers => kept.heard j mask' all' waiting
      (covers.mono fun b _ there => ⟨(hasBit_rest.mp there.1).1, there.2⟩)
    have orderly := kept.spares_read (orderly nonzero)
    dsimp only
    split
    · rename_i found
      refine kept.begin (by simp) (by simp) (by simp) (fun _ => rfl) (by simp) trivial ?_ orderly
        heard
      intro mask' all' events same
      cases same
      exact read_of_satisfies (satisfies_of_read found) nonzero
    · split
      · exact kept.begin (by simp) (by simp) (by simp) (fun _ => rfl) (by simp) trivial (by simp)
          orderly heard
      · exact kept.begin (by simp) (by simp) (by simp) (fun _ => rfl) (by simp) nonzero (by simp)
          orderly heard

/-! ### Listeners -/

/-- Only the list and the freed records change, and the list stays the same for the calls. -/
theorem Kept.of_listeners (kept : Kept s) (roster : Roster t) (word : t.eventsWord = s.eventsWord)
    (calls : t.calls = s.calls) (untouched : t.touched = s.touched)
    (same : ∀ waiter i, waiter.owner = .wait i → (waiter ∈ t.waiters ↔ waiter ∈ s.waiters))
    (delivered : ∀ waiter, .delivers waiter ∈ s.calls → waiter.owner ∉ t.freed) : Kept t := by
  have alike (j : ℕ) : Alike s t j := by
    refine ⟨congrArg (·[j]?) calls, ?_, congrArg (List.countP _) calls⟩
    exact exists_congr fun waiter => and_congr_left (same waiter j)
  have unclaimed {b : ℕ} (free : Unclaimed t b) : Unclaimed s b := fun j mask all woken =>
    free j mask all ((alike j).woken.mpr woken)
  refine ⟨roster, ?_, ?_, ?_, ?_, ?_, ?_, ?_, untouched.trans kept.untouched⟩
  · intro waiter member i owner
    rw [calls]
    exact kept.owned waiter ((same waiter i owner).mp member) i owner
  · intro i
    rw [(alike i).call, propext (alike i).listed, (alike i).posts]
    exact kept.custody i
  · intro waiter coming
    rw [calls] at coming
    exact delivered waiter coming
  · rw [calls]
    exact kept.asks
  · intro j mask all woken other
    rw [word]
    exact kept.spared j mask all ((alike j).woken.mp woken) other
  · refine kept.heard_of_fewer (fun j mask all => (alike j).waits.mp) fun b set free => ?_
    rw [word] at set
    exact ⟨set, unclaimed free⟩
  · rw [calls]
    exact kept.asked

theorem Kept.listen (kept : Kept s) (mask : UInt32) (listener : ℕ) :
    Kept (platformEventListen mask listener s) := by
  rw [platformEventListen]
  split
  · exact kept
  · refine kept.of_listeners (kept.toRoster.append rfl rfl ?_ ?_ ?_ (Nat.le_succ _)) rfl rfl rfl ?_
      kept.delivered
    · intro known
      obtain ⟨waiter, member, owner⟩ := List.mem_map.mp known
      exact absurd (kept.old _ _ (.inl ⟨waiter, member, owner⟩)) (lt_irrefl _)
    · exact fun freed => absurd (kept.old _ _ (.inr freed)) (lt_irrefl _)
    · intro listener record same
      cases same
      exact Nat.lt_succ_self _
    · intro waiter i owner
      rw [List.mem_append, List.mem_singleton, or_iff_left]
      rintro rfl
      cases owner

theorem recordOf_some {waiters : List Waiter} {listener : ℕ} {waiter : Waiter}
    (found : recordOf listener waiters = some waiter) :
    waiter ∈ waiters ∧ ∃ record, waiter.owner = .listener listener record := by
  refine ⟨List.mem_of_find?_eq_some found, ?_⟩
  have matched := List.find?_some found
  revert matched
  cases waiter.owner with
  | wait i => exact fun none => absurd none Bool.false_ne_true
  | listener listener' record => exact fun same => ⟨record, by rw [beq_iff_eq.mp same]⟩

theorem Kept.unlisten (kept : Kept s) {listener : ℕ} (orderly : Orderly (.unlisten listener) s) :
    Kept (platformEventUnlisten listener s) := by
  rw [platformEventUnlisten]
  split
  · exact kept
  · rename_i waiter found
    obtain ⟨member, record, owner⟩ := recordOf_some found
    have uncalled := orderly waiter found
    have roster := kept.toRoster
    refine kept.of_listeners ⟨?_, ?_, ?_, ?_⟩ rfl rfl rfl ?_ ?_
    · exact roster.distinct.sublist (List.erase_sublist.map _)
    · intro waiter' left freed
      obtain ⟨member', other⟩ := (kept.mem_erase member).mp left
      rcases List.mem_append.mp freed with before | now
      · exact kept.fresh waiter' member' before
      · exact other (List.mem_singleton.mp now)
    · rintro listener' record' (⟨waiter', left, owner'⟩ | freed)
      · exact kept.old _ _ (.inl ⟨waiter', ((kept.mem_erase member).mp left).1, owner'⟩)
      · rcases List.mem_append.mp freed with before | now
        · exact kept.old _ _ (.inr before)
        · exact kept.old _ _ (.inl ⟨waiter, member, (List.mem_singleton.mp now).symm⟩)
    · intro i freed
      rcases List.mem_append.mp freed with before | now
      · exact kept.unowned i before
      · rw [owner] at now
        cases List.mem_singleton.mp now
    · intro waiter' i owner'
      rw [kept.mem_erase member, and_iff_left]
      rw [owner, owner']
      simp
    · intro waiter' coming freed
      rcases List.mem_append.mp freed with before | now
      · exact kept.delivered waiter' coming before
      · exact uncalled waiter' coming (List.mem_singleton.mp now)

/-! ### Calls that go on -/

theorem posts_set {before after : Call} (there : s.calls[i]? = some before)
    (same : t.calls = s.calls.set i after) (j : ℕ) :
    posts t j + (if before.deliversTo j then 1 else 0) =
      posts s j + if after.deliversTo j then 1 else 0 := by
  rw [posts, same]
  exact countP_set_add _ after there

theorem deliversTo_eq_false {call : Call} (silent : ∀ waiter, call ≠ .delivers waiter) (j : ℕ) :
    call.deliversTo j = false := by
  cases call with
  | delivers waiter => exact absurd rfl (silent waiter)
  | delivered | inserts | blocks | readsAgain | removes | waited => rfl

/-- A step of a call that does not come to another one. -/
theorem Kept.go (kept : Kept s) {before after : Call} (there : s.calls[i]? = some before)
    (calls : t.calls = s.calls.set i after) (silent : ∀ j, before.deliversTo j = false)
    (silent' : ∀ waiter, after ≠ .delivers waiter) (roster : Roster t) (freed : t.freed = s.freed)
    (untouched : t.touched = s.touched)
    (same : ∀ waiter, ∀ j ≠ i, waiter.owner = .wait j → (waiter ∈ t.waiters ↔ waiter ∈ s.waiters))
    (owned : ∀ waiter ∈ t.waiters, waiter.owner = .wait i →
      (∃ tms sem, after = .blocks waiter.mask waiter.all tms sem) ∨
        after = .removes waiter.mask waiter.all)
    (custody : Custody (some after) (Listed t.waiters i) (posts s i)) (asks : after.Asks)
    (asked : ∀ mask all events, after = .waited mask all (some events) →
      events ≠ 0 ∧ satisfies events mask all = true)
    (spared : Spares s (some i) t.eventsWord)
    (woken : ∀ mask all, after = .readsAgain mask all → satisfies t.eventsWord mask all = true)
    (listed : ∀ mask all tms sem, after = .blocks mask all tms sem → Listed t.waiters i ∧
      ¬ Covers (fun b => HasBit s.eventsWord b ∧ Unclaimed s b) mask all)
    (fewer : ∀ b, HasBit t.eventsWord b → HasBit s.eventsWord b)
    (claims : ∀ mask all, Woken s i mask all → after = .readsAgain mask all ∨
      ∀ b, HasBit t.eventsWord b → ¬ HasBit mask b) : Kept t := by
  have here : t.calls[i]? = some after := by
    rw [calls, List.getElem?_set_self (List.getElem?_eq_some_iff.mp there).1]
  have counted (j : ℕ) : posts t j = posts s j := by
    have counted := posts_set there calls j
    rwa [silent, deliversTo_eq_false silent'] at counted
  have alike (j : ℕ) (other : j ≠ i) : Alike s t j :=
    ⟨by rw [calls, List.getElem?_set_ne other.symm],
      exists_congr fun waiter => and_congr_left (same waiter j other), counted j⟩
  have unclaimed {b : ℕ} (set : HasBit t.eventsWord b) (free : Unclaimed t b) :
      Unclaimed s b := by
    intro j mask all awake
    by_cases same : j = i
    · subst same
      rcases claims mask all awake with rfl | taken
      · exact free j mask all (.inl here)
      · exact taken b set
    · exact free j mask all ((alike j same).woken.mpr awake)
  refine kept.of_alike roster here alike ?_ freed untouched ?_ owned (counted i ▸ custody) ?_ asks
    asked spared ?_ ?_
  · intro call member
    rw [calls] at member
    exact (mem_set_cases member).symm
  · exact fun waiter member j other owner => (same waiter j other owner).mp member
  · exact fun waiter eq => absurd eq (silent' waiter)
  · rintro mask all (reading | ⟨⟨tms, sem, blocked⟩, unlisted⟩)
    · exact woken mask all (Option.some.inj (here.symm.trans reading))
    · have blocks := Option.some.inj (here.symm.trans blocked)
      exact absurd (listed mask all tms sem blocks).1 unlisted
  · intro j mask all waiting covers
    have expected : Covers (fun b => HasBit s.eventsWord b ∧ Unclaimed s b) mask all :=
      covers.mono fun b _ there => ⟨fewer b there.1, unclaimed there.1 there.2⟩
    by_cases same : j = i
    · subst same
      obtain ⟨tms, sem, blocked⟩ := waiting.1
      exact (listed mask all tms sem (Option.some.inj (here.symm.trans blocked))).2 expected
    · exact kept.heard j mask all ((alike j same).waits.mp waiting) expected

/-- A call enters the list. -/
theorem Kept.insert (kept : Kept s) {mask tms : UInt32} {all : Bool}
    (there : s.calls[i]? = some (.inserts mask all tms))
    (missing : ¬ Covers (fun b => HasBit s.eventsWord b ∧ Unclaimed s b) mask all) :
    Kept { s with
      waiters := s.waiters ++ [⟨mask, all, .wait i⟩]
      calls := s.calls.set i (.blocks mask all tms 0) } := by
  have custody := kept.custody i
  rw [there] at custody
  obtain ⟨unlisted, unposted⟩ := custody
  have listed : Listed (s.waiters ++ [⟨mask, all, .wait i⟩]) i := listed_append.mpr (.inr rfl)
  have roster : Roster { s with waiters := s.waiters ++ [⟨mask, all, .wait i⟩] } := by
    refine kept.toRoster.append rfl rfl ?_ (kept.unowned i) (by simp) (le_refl _)
    intro known
    obtain ⟨waiter, member, owner⟩ := List.mem_map.mp known
    exact unlisted ⟨waiter, member, owner⟩
  refine kept.go there rfl (fun _ => rfl) (by simp) ⟨roster.distinct, roster.fresh, roster.old,
    roster.unowned⟩ rfl rfl ?_ ?_ (.inl ⟨listed, unposted, rfl⟩) ?_ (by simp) kept.spared.except
    (by simp) ?_ (fun _ => id) ?_
  · intro waiter j other owner
    rw [List.mem_append, List.mem_singleton, or_iff_left]
    rintro rfl
    exact other (Owner.wait.inj owner).symm
  · intro waiter member owner
    rcases List.mem_append.mp member with old | new
    · exact absurd ⟨waiter, old, owner⟩ unlisted
    · cases List.mem_singleton.mp new
      exact .inl ⟨tms, 0, rfl⟩
  · exact kept.asks (.inserts mask all tms) (List.mem_of_getElem? there)
  · intro mask' all' tms' sem same
    cases same
    exact ⟨listed, missing⟩
  · rintro mask' all' (reading | ⟨⟨tms', sem, blocked⟩, -⟩)
    · cases there.symm.trans reading
    · cases there.symm.trans blocked

/-- A semaphore that has been posted is taken. -/
theorem Kept.wake (kept : Kept s) {mask tms : UInt32} {all : Bool} {sem : ℕ}
    (there : s.calls[i]? = some (.blocks mask all tms sem)) (posted : 0 < sem) :
    Kept { s with calls := s.calls.set i (.readsAgain mask all) } := by
  have custody := kept.custody i
  rw [there] at custody
  obtain ⟨unlisted, once⟩ := custody.resolve_left fun ⟨_, _, idle⟩ => by omega
  have awake : Woken s i mask all := .inr ⟨⟨tms, sem, there⟩, unlisted⟩
  refine kept.go there rfl (fun _ => rfl) (by simp)
    (kept.toRoster.sublist (List.Sublist.refl _) rfl rfl) rfl rfl (fun _ _ _ _ => Iff.rfl) ?_
    ⟨unlisted, by omega⟩ ?_ (by simp) kept.spared.except ?_ (by simp) (fun _ => id) ?_
  · exact fun waiter member owner => absurd ⟨waiter, member, owner⟩ unlisted
  · exact kept.asks (.blocks mask all tms sem) (List.mem_of_getElem? there)
  · intro mask' all' same
    cases same
    exact kept.spared i mask all awake (by simp)
  · rintro mask' all' (reading | ⟨⟨tms', sem', blocked⟩, -⟩)
    · cases there.symm.trans reading
    · cases there.symm.trans blocked
      exact .inl rfl

/-- A call that has been woken up reads its events. -/
theorem Kept.readAgain (kept : Kept s) {mask : UInt32} {all : Bool}
    (there : s.calls[i]? = some (.readsAgain mask all))
    (orderly : ReadsOrderly s (some i) mask all) :
    Kept { s with
      eventsWord := (platformEventRead s.eventsWord mask all).2
      calls := s.calls.set i
        (.waited mask all (some (platformEventRead s.eventsWord mask all).1)) } := by
  have custody := kept.custody i
  rw [there] at custody
  obtain ⟨unlisted, unposted⟩ := custody
  have enough := kept.spared i mask all (.inl there) (by simp)
  refine kept.go there rfl (fun _ => rfl) (by simp)
    (kept.toRoster.sublist (List.Sublist.refl _) rfl rfl) rfl rfl (fun _ _ _ _ => Iff.rfl) ?_
    ⟨unlisted, unposted⟩ trivial ?_ (kept.spares_read orderly) (by simp) (by simp)
    (fun b set => (hasBit_rest.mp set).1) ?_
  · exact fun waiter member owner => absurd ⟨waiter, member, owner⟩ unlisted
  · intro mask' all' events same
    cases same
    exact read_of_satisfies enough (kept.asks _ (List.mem_of_getElem? there))
  · rintro mask' all' (reading | ⟨⟨tms', sem', blocked⟩, -⟩)
    · cases there.symm.trans reading
      exact .inr fun b set taken => (hasBit_rest.mp set).2 ⟨enough, taken⟩
    · cases there.symm.trans blocked

/-- A call that has timed out leaves the list. -/
theorem Kept.remove (kept : Kept s) {mask : UInt32} {all : Bool}
    (there : s.calls[i]? = some (.removes mask all)) :
    Kept { s with
      waiters := s.waiters.filter fun waiter => waiter.owner ≠ .wait i
      calls := s.calls.set i (.waited mask all none) } := by
  have custody := kept.custody i
  rw [there] at custody
  have unlisted : ¬ Listed (s.waiters.filter fun waiter => waiter.owner ≠ .wait i) i := by
    rintro ⟨waiter, member, owner⟩
    exact of_decide_eq_true (List.mem_filter.mp member).2 owner
  refine kept.go there rfl (fun _ => rfl) (by simp)
    (kept.toRoster.sublist List.filter_sublist rfl rfl) rfl rfl ?_ ?_ ⟨unlisted, custody.2⟩ trivial
    (by simp) kept.spared.except (by simp) (by simp) (fun _ => id) ?_
  · intro waiter j other owner
    rw [List.mem_filter, and_iff_left]
    rw [owner]
    exact decide_eq_true fun same => other (Owner.wait.inj same)
  · exact fun waiter member owner => absurd ⟨waiter, member, owner⟩ unlisted
  · rintro mask' all' (reading | ⟨⟨tms', sem', blocked⟩, -⟩)
    · cases there.symm.trans reading
    · cases there.symm.trans blocked

/-- A call that is in the list gives up. -/
theorem Kept.giveUp (kept : Kept s) {mask tms : UInt32} {all : Bool} {sem : ℕ}
    (there : s.calls[i]? = some (.blocks mask all tms sem)) (listed : Listed s.waiters i) :
    Kept { s with calls := s.calls.set i (.removes mask all) } := by
  have custody := kept.custody i
  rw [there] at custody
  obtain ⟨-, unposted, -⟩ := custody.resolve_right fun ⟨unlisted, _⟩ => unlisted listed
  refine kept.go there rfl (fun _ => rfl) (by simp)
    (kept.toRoster.sublist (List.Sublist.refl _) rfl rfl) rfl rfl (fun _ _ _ _ => Iff.rfl) ?_
    ⟨listed, unposted⟩ trivial (by simp) kept.spared.except (by simp) (by simp) (fun _ => id) ?_
  · intro waiter member owner
    rcases kept.owned waiter member i owner with ⟨tms', sem', blocked⟩ | removing
    · cases there.symm.trans blocked
      exact .inr rfl
    · cases there.symm.trans removing
  · rintro mask' all' (reading | ⟨-, unlisted⟩)
    · cases there.symm.trans reading
    · exact absurd listed unlisted

/-! ### Posts that come to their calls -/

/-- A call is posted at most as often as it is counted. -/
theorem Kept.blocked_of_delivers (kept : Kept s) {waiter : Waiter}
    (there : s.calls[i]? = some (.delivers waiter)) {j : ℕ} (owner : waiter.owner = .wait j) :
    ∃ mask all tms, s.calls[j]? = some (.blocks mask all tms 0) ∧ ¬ Listed s.waiters j ∧
      posts s j = 1 := by
  have coming : 0 < posts s j :=
    List.countP_pos_iff.mpr ⟨_, List.mem_of_getElem? there, by
      rw [Call.deliversTo, owner, beq_self_eq_true]⟩
  have custody := kept.custody j
  generalize found : s.calls[j]? = call at custody
  match call with
  | some (.blocks mask all tms sem) =>
    obtain ⟨unlisted, once⟩ := custody.resolve_left fun ⟨_, unposted, _⟩ => by omega
    obtain rfl : sem = 0 := by omega
    exact ⟨mask, all, tms, rfl, unlisted, by omega⟩
  | some (.removes _ _) | some (.inserts _ _ _) | some (.readsAgain _ _) | some (.waited _ _ _)
  | some (.delivers _) | some .delivered | none =>
    have unposted := custody.2
    omega

/-- A post has posted the semaphore of a call that waits for it. -/
theorem Kept.deliverWait (kept : Kept s) {waiter : Waiter}
    (there : s.calls[i]? = some (.delivers waiter)) {j : ℕ} {mask tms : UInt32} {all : Bool}
    (owner : waiter.owner = .wait j) (blocked : s.calls[j]? = some (.blocks mask all tms 0))
    (unlisted : ¬ Listed s.waiters j) (once : posts s j = 1) :
    Kept { s with calls := (s.calls.set j (.blocks mask all tms 1)).set i .delivered } := by
  have apart : j ≠ i := by
    rintro rfl
    cases there.symm.trans blocked
  have between : (s.calls.set j (.blocks mask all tms 1))[i]? = some (.delivers waiter) := by
    rw [List.getElem?_set_ne apart]
    exact there
  set t : State := { s with calls := (s.calls.set j (.blocks mask all tms 1)).set i .delivered }
  have first : t.calls[i]? = some .delivered :=
    List.getElem?_set_self (List.getElem?_eq_some_iff.mp between).1
  have second : t.calls[j]? = some (.blocks mask all tms 1) := by
    rw [List.getElem?_set_ne apart.symm,
      List.getElem?_set_self (List.getElem?_eq_some_iff.mp blocked).1]
  have others (k : ℕ) (other : k ≠ i) (other' : k ≠ j) : t.calls[k]? = s.calls[k]? := by
    rw [List.getElem?_set_ne other.symm, List.getElem?_set_ne other'.symm]
  have counted (k : ℕ) : posts t k + (if k = j then 1 else 0) = posts s k := by
    have before := countP_set_add (Call.deliversTo k) (.blocks mask all tms 1) blocked
    have after := countP_set_add (Call.deliversTo k) .delivered between
    simp only [Call.deliversTo, owner, beq_iff_eq, Owner.wait.injEq, Bool.false_eq_true, if_false,
      eq_comm (a := j)] at before after
    exact after.trans before
  have members (call : Call) (member : call ∈ t.calls) :
      call ∈ s.calls ∨ call = .blocks mask all tms 1 ∨ call = .delivered := by
    rcases mem_set_cases member with rfl | member
    · exact .inr (.inr rfl)
    · exact (mem_set_cases member).symm.imp_right .inl
  -- a call that is blocked is still blocked, and no other one
  have blocks {k : ℕ} {mask' : UInt32} {all' : Bool} :
      (∃ tms' sem, t.calls[k]? = some (.blocks mask' all' tms' sem)) ↔
        ∃ tms' sem, s.calls[k]? = some (.blocks mask' all' tms' sem) := by
    by_cases same : k = i
    · rw [same, first, there]
      simp
    · by_cases same' : k = j
      · rw [same', second, blocked]
        simp
      · rw [others k same same']
  have reads {k : ℕ} {mask' : UInt32} {all' : Bool} :
      t.calls[k]? = some (.readsAgain mask' all') ↔
        s.calls[k]? = some (.readsAgain mask' all') := by
    by_cases same : k = i
    · rw [same, first, there]
      simp
    · by_cases same' : k = j
      · rw [same', second, blocked]
        simp
      · rw [others k same same']
  have woken {k : ℕ} {mask' : UInt32} {all' : Bool} :
      Woken t k mask' all' ↔ Woken s k mask' all' := or_congr reads (and_congr_left' blocks)
  refine ⟨kept.toRoster.sublist (List.Sublist.refl _) rfl rfl, ?_, ?_, ?_, ?_, ?_, ?_, ?_,
    kept.untouched⟩
  · intro waiter' member k owner'
    refine (kept.owned waiter' member k owner').imp blocks.mpr fun removing => ?_
    rw [others]
    · exact removing
    · rintro rfl
      cases there.symm.trans removing
    · rintro rfl
      cases blocked.symm.trans removing
  · intro k
    have custody := kept.custody k
    by_cases same : k = i
    · subst same
      rw [there] at custody
      rw [first]
      have counted := counted k
      rw [if_neg apart.symm, custody.2] at counted
      exact ⟨custody.1, counted⟩
    · by_cases same' : k = j
      · subst same'
        rw [second]
        have counted := counted k
        rw [if_pos rfl, once] at counted
        exact .inr ⟨unlisted, by omega⟩
      · have counted := counted k
        rw [if_neg same', Nat.add_zero] at counted
        rwa [others k same same', counted]
  · intro waiter' coming
    rcases members _ coming with old | new | new
    · exact kept.delivered waiter' old
    all_goals cases new
  · intro call member
    rcases members call member with old | rfl | rfl
    · exact kept.asks call old
    · exact kept.asks (.blocks mask all tms 0) (List.mem_of_getElem? blocked)
    · trivial
  · exact fun k mask' all' awake other => kept.spared k mask' all' (woken.mp awake) other
  · intro k mask' all' waiting covers
    refine kept.heard k mask' all' ⟨blocks.mp waiting.1, waiting.2⟩ (covers.mono fun b _ set => ?_)
    exact ⟨set.1, fun k' mask' all' awake => set.2 k' mask' all' (woken.mpr awake)⟩
  · intro mask' all' events member
    rcases members _ member with old | new | new
    · exact kept.asked mask' all' events old
    all_goals cases new

/-- A post has called a listener. -/
theorem Kept.deliverListener (kept : Kept s) {waiter : Waiter} {listener record : ℕ}
    (there : s.calls[i]? = some (.delivers waiter))
    (owner : waiter.owner = .listener listener record) :
    Kept { s with calls := s.calls.set i .delivered } := by
  have custody := kept.custody i
  rw [there] at custody
  refine kept.go there rfl (fun j => ?_) (by simp)
    (kept.toRoster.sublist (List.Sublist.refl _) rfl rfl) rfl rfl (fun _ _ _ _ => Iff.rfl) ?_
    custody trivial (by simp) kept.spared.except (by simp) (by simp) (fun _ => id) ?_
  · rw [Call.deliversTo, owner]
    rfl
  · exact fun waiter member owner => absurd ⟨waiter, member, owner⟩ custody.1
  · rintro mask all (reading | ⟨⟨tms, sem, blocked⟩, -⟩)
    · cases there.symm.trans reading
    · cases there.symm.trans blocked

theorem Kept.deliver (kept : Kept s) {waiter : Waiter}
    (there : s.calls[i]? = some (.delivers waiter)) :
    Kept { Event.deliver waiter s with
      calls := (Event.deliver waiter s).calls.set i .delivered } := by
  rw [Event.deliver]
  cases owner : waiter.owner with
  | wait j =>
    obtain ⟨mask, all, tms, blocked, unlisted, once⟩ := kept.blocked_of_delivers there owner
    simp only [State.dead, blocked, Bool.false_eq_true, if_false]
    exact kept.deliverWait there owner blocked unlisted once
  | listener listener record =>
    have unfreed : s.freed.contains (.listener listener record) = false := by
      rw [← owner, ← Bool.not_eq_true, List.contains_iff_mem]
      exact kept.delivered waiter (List.mem_of_getElem? there)
    simp only [State.dead, unfreed, Bool.false_eq_true, if_false]
    exact kept.deliverListener there owner

/-! ### Whole runs -/

theorem Kept.timeout (kept : Kept s) (listed : Listed s.waiters i)
    (stepped : Event.timeout i s = some t) : Kept t := by
  rw [Event.timeout] at stepped
  split at stepped
  · rename_i there
    split at stepped
    · cases stepped
    · cases stepped
      exact kept.giveUp there listed
  · cases stepped

theorem Kept.advance (kept : Kept s) (orderly : Orderly (.advance i) s)
    (stepped : Event.advance i s = some t) : Kept t := by
  rw [Event.advance] at stepped
  rw [Orderly] at orderly
  split at stepped
  · rename_i waiter there
    cases stepped
    exact kept.deliver there
  · rename_i mask all tms there
    rw [there] at orderly
    cases stepped
    exact kept.insert there orderly
  · rename_i there
    split at stepped
    · rename_i posted
      cases stepped
      exact kept.wake there posted
    · cases stepped
  · rename_i there
    rw [there] at orderly
    cases stepped
    exact kept.readAgain there orderly
  · rename_i there
    cases stepped
    exact kept.remove there
  all_goals cases stepped

/-- What a step keeps. -/
theorem Kept.step (kept : Kept s) (orderly : Orderly action s)
    (stepped : Event.step action s = some t) : Kept t := by
  cases action with
  | post events =>
    cases stepped
    exact kept.post orderly
  | wait mask all tms =>
    cases stepped
    exact kept.wait orderly
  | listen mask listener =>
    cases stepped
    exact kept.listen mask listener
  | unlisten listener =>
    cases stepped
    exact kept.unlisten orderly
  | advance i => exact kept.advance orderly stepped
  | timeout i => exact kept.timeout orderly stepped

/-- Nobody is forgotten if all steps are orderly. -/
theorem unforgotten_of_runs {actions : List Action} (orderly : Meets step Orderly init actions)
    (ran : runs step init actions = some s) : Unforgotten s :=
  (runs_invariant (fun _ _ _ kept orderly stepped => kept.step orderly stepped) Kept.init
    orderly ran).unforgotten

end

/-! ### Four runs -/

/-- A call waits, is posted and returns. -/
def answered : List Action :=
  [.wait 1 false hdfWaitForever, .advance 0, .post 1, .advance 1, .advance 0, .advance 0]

theorem orderly_answered : Meets step Orderly init answered := by
  refine ⟨?_, fun _ stepped => ?_⟩
  · rintro - found
    cases found
  · cases stepped
    refine ⟨?_, fun _ stepped => ?_⟩
    · rintro ⟨b, -, set, -⟩
      exact not_hasBit_zero set
    · cases stepped
      refine ⟨?_, fun _ stepped => ?_⟩
      · rintro - waiter ⟨⟩
        refine ⟨?_, ?_⟩
        · rintro i mask all ⟨-, waiter, member, owner⟩ other
          cases List.mem_singleton.mp member
          exact absurd owner other
        · intro mask all there
          cases there
      · cases stepped
        refine ⟨trivial, fun _ stepped => ?_⟩
        cases stepped
        refine ⟨trivial, fun _ stepped => ?_⟩
        cases stepped
        refine ⟨?_, fun _ stepped => ?_⟩
        · rintro - (_ | _ | i) mask all (reading | ⟨⟨tms, sem, blocked⟩, -⟩) other
          · exact absurd rfl other
          · cases blocked
          · cases reading
          · cases blocked
          · cases reading
          · cases blocked
        · cases stepped
          trivial

theorem unforgotten_answered : ∃ s, runs step init answered = some s ∧ Unforgotten s ∧
    s.calls = [.waited 1 false (some 1), .delivered] :=
  ⟨_, rfl, @unforgotten_of_runs _ answered orderly_answered rfl, rfl⟩

/-- A post that is enough for two calls wakes up the first. -/
def forgetful : List Action :=
  [.wait 1 false hdfWaitForever, .advance 0, .wait 2 false hdfWaitForever, .advance 1, .post 3,
    .advance 2, .advance 0, .advance 0]

/-- The events of a call that has been woken up are taken by another one. -/
def overtaken : List Action :=
  [.wait 1 false hdfWaitForever, .advance 0, .post 1, .wait 1 false 0, .advance 1, .advance 0,
    .advance 0]

/-- A call that has been selected times out before it is posted. -/
def late : List Action :=
  [.wait 1 false 5, .advance 0, .post 1, .timeout 0, .advance 0, .advance 1]

/-- A call is left blocked though its events are there, a call returns without events, and a
post comes to a record that is gone. -/
theorem forgets_waiter :
    (∃ s, runs step init forgetful = some s ∧ (∀ call ∈ s.calls, call.Rests) ∧
      .blocks 2 false hdfWaitForever 0 ∈ s.calls ∧ satisfies s.eventsWord 2 false = true) ∧
    (∃ s, runs step init overtaken = some s ∧ .waited 1 false (some 0) ∈ s.calls) ∧
    ∃ s, runs step init late = some s ∧ s.touched = true := by
  refine ⟨⟨_, rfl, ?_, ?_, rfl⟩, ⟨_, rfl, ?_⟩, _, rfl, rfl⟩
  · intro call member
    rcases List.mem_cons.mp member with rfl | member
    · trivial
    rcases List.mem_cons.mp member with rfl | member
    · rfl
    cases List.mem_singleton.mp member
    trivial
  · exact .tail _ (.head _)
  · exact .head _

end Hdf.Platform.Event
