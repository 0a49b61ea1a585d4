import Mathlib.Data.List.Nodup
import Hdf.Core.Base
import Hdf.Lib.Runs
import Hdf.Lib.SlotTable

/-!
# The poll table of a service group

The services of a group share a thread that polls their descriptors. The thread keeps
a table of descriptors with holes: a service that is added takes the first hole, one
that is removed leaves a hole. Before the thread is started, services are only put on
the list of the group; the start takes them from there. A thread that exits keeps its
table, and is started again with it.

The search for a slot stops at the first hole. A start that finds a hole in front of a
service of the group puts the service into the hole, although it has a slot further on.

Services are known by their descriptors, and a hole stands for `SYSCALL_INVALID_FD`.
The outcomes of allocations and of calls to drivers are arguments. Of the thread that
a service may have of its own, only the start is here: a group refuses the service then.

## Main definitions

* `Thread`, `Group`, `addService`, `removeService`, `registerListener`: the model
* `Act`, `step`: the calls, and the thread that runs and exits
* `Exact`: the table of a started thread has the services of the group, each once
* `Safe`: the thread is started only where no service is passed over

## Main results

* `exact_of_safe`: histories without such starts
* `restart_duplicates`: a start that writes a descriptor a second time
-/

namespace Hdf.Core.PollTable

open SlotTable

/-- `enum HdfDevListenerThreadStatus`. -/
inductive ThreadStatus where
  | uninited | inited | exited | started | running | waiting
  deriving DecidableEq, Repr

/-- A status at or behind `LISTENER_STARTED`. -/
def ThreadStatus.atLeastStarted : ThreadStatus → Bool
  | .uninited | .inited | .exited => false
  | .started | .running | .waiting => true

/-- `HDF_PFD_GROW_SIZE`. -/
def pfdGrowSize : ℕ := 4

/-- `struct HdfDevListenerThread`. The table has `pfdSize` slots. -/
structure Thread where
  status : ThreadStatus
  pfds : List (Option ℕ)
  deriving DecidableEq, Repr

/-- `struct HdfSyscallAdapterGroup`, with the listeners of the services and their own
threads. -/
structure Group where
  adapterList : List ℕ
  listenerList : List ℕ
  adapterListeners : ℕ → List ℕ
  adapterThread : ℕ → Option Thread
  thread : Option Thread

/-- The outcomes of what a call depends on. -/
structure Outcomes where
  obtain : Bool := true
  alloc : ℕ → Bool := fun _ => true
  wakeup : Bool := true
  startListen : ℕ → Bool := fun _ => true
  threadStart : Bool := true

/-! ### Slots -/

/-- The loop of `GetValidPfdIndexLocked`. -/
def pfdIndex (fd : ℕ) (pfds : List (Option ℕ)) : ℕ :=
  pfds.findIdx fun slot => slot = none ∨ slot = some fd

/-- `GetValidPfdIndexLocked`, with the table after it. The new size is stored in 16 bits. -/
def getValidPfdIndex (alloc : Bool) (fd : ℕ) (pfds : List (Option ℕ)) :
    Option (ℕ × List (Option ℕ)) :=
  let index := pfdIndex fd pfds
  if index ≥ pfds.length then
    if alloc then
      let newSize := pfds.length + pfdGrowSize
      some (index, (pfds ++ List.replicate pfdGrowSize none).take (newSize % 2 ^ 16))
    else none
  else some (index, pfds)

/-- `HdfAddAdapterToPfds`. -/
def addAdapterToPfds (alloc : Bool) (fd : ℕ) (pfds : List (Option ℕ)) :
    Option (List (Option ℕ)) :=
  (getValidPfdIndex alloc fd pfds).map fun (index, pfds) => place fd index pfds

/-- `HdfListenThreadInitPollFds`, with the table it leaves. -/
def initPollFds (alloc : ℕ → Bool) : List ℕ → List (Option ℕ) → HdfStatus × List (Option ℕ)
  | [], pfds => (.success, pfds)
  | fd :: fds, pfds =>
    match addAdapterToPfds (alloc fd) fd pfds with
    | none => (.mallocFail, pfds)
    | some pfds => initPollFds alloc fds pfds

/-! ### The thread -/

/-- `HdfDevListenerThreadStart`. -/
def threadStart (o : Outcomes) (adapterList : List ℕ) (thread : Thread) : HdfStatus × Thread :=
  if thread.status.atLeastStarted then (.success, thread)
  else if thread.status ≠ .inited then (.invalidParam, thread)
  else
    let (ret, pfds) := initPollFds o.alloc adapterList thread.pfds
    let thread := { thread with pfds }
    if ret ≠ .success ∨ pfds.length = 0 then (.noDevice, thread)
    else if (live pfds).any fun fd => !o.startListen fd then (.io, thread)
    else
      let thread := { thread with status := .started }
      if o.threadStart then (.success, thread) else (.failure, thread)

/-- `HdfDevListenerThreadObtain` where there is no thread, and `HdfDevListenerThreadInit`. -/
def threadInit (o : Outcomes) (thread : Option Thread) : Option Thread :=
  match thread with
  | none => if o.obtain then some { status := .inited, pfds := [] } else none
  | some thread =>
    match thread.status with
    | .exited => some { thread with status := .inited }
    | .uninited => if o.obtain then some { thread with status := .inited } else none
    | .inited | .started | .running | .waiting => some thread

/-- `HdfListenThreadPollAdd`. -/
def pollAdd (o : Outcomes) (fd : ℕ) (adapterList : List ℕ) (thread : Thread) :
    HdfStatus × List ℕ × Thread :=
  if !thread.status.atLeastStarted then (.success, adapterList ++ [fd], thread)
  else
    match getValidPfdIndex (o.alloc fd) fd thread.pfds with
    | none => (.mallocFail, adapterList, thread)
    | some (index, pfds) =>
      let pfds := place fd index pfds
      if adapterList ≠ [] ∧ !o.wakeup then
        (.io, adapterList, { thread with pfds := pfds.set index none })
      else if !o.startListen fd then
        (.devOp, adapterList, { thread with pfds := pfds.set index none })
      else (.success, adapterList ++ [fd], { thread with pfds })

/-- `HdfListenThreadPollDel`. -/
def pollDel (fd : ℕ) (adapterList : List ℕ) (thread : Thread) : List ℕ × Thread :=
  (adapterList.erase fd, { thread with pfds := clear fd thread.pfds })

/-! ### The group -/

/-- `HdfIoServiceGroupAddService`. A start that fails is followed by `HdfListenThreadPollDel`,
which waits for the mutex that the call holds, so that there is no result. -/
def addService (o : Outcomes) (fd : ℕ) (group : Group) : Option (HdfStatus × Group) :=
  if fd ∈ group.adapterList ∨ group.adapterThread fd ≠ none then some (.deviceBusy, group)
  else
    match threadInit o group.thread with
    | none => some (.failure, group)
    | some thread =>
      let (ret, adapterList, thread) := pollAdd o fd group.adapterList thread
      let group := { group with adapterList, thread := some thread }
      if ret ≠ .success then some (ret, group)
      else if (group.listenerList ≠ [] ∨ group.adapterListeners fd ≠ []) ∧
          !thread.status.atLeastStarted then
        let (ret, thread) := threadStart o group.adapterList thread
        if ret ≠ .success then none else some (ret, { group with thread := some thread })
      else some (.success, group)

/-- `HdfIoServiceGroupRemoveService`. -/
def removeService (fd : ℕ) (group : Group) : Group :=
  match group.thread with
  | none => group
  | some thread =>
    if fd ∉ group.adapterList then group
    else if group.adapterList.length = 1 then
      { group with adapterList := group.adapterList.erase fd, thread := none }
    else
      let (adapterList, thread) := pollDel fd group.adapterList thread
      { group with adapterList, thread := some thread }

/-- `HdfIoServiceGroupRegisterListener`. -/
def registerListener (o : Outcomes) (listener : ℕ) (group : Group) : HdfStatus × Group :=
  match threadInit o group.thread with
  | none => (.failure, group)
  | some thread =>
    let group := { group with thread := some thread }
    if listener ∈ group.listenerList then (.invalidParam, group)
    else
      let started := { group with listenerList := group.listenerList ++ [listener] }
      if group.adapterList ≠ [] ∧ !thread.status.atLeastStarted then
        let (ret, thread) := threadStart o group.adapterList thread
        if ret ≠ .success then (ret, { group with thread := some thread })
        else (ret, { started with thread := some thread })
      else (.success, started)

/-- `HdfDeviceRegisterEventListener`. A service outside of the group has its own thread. -/
def registerEventListener (o : Outcomes) (fd listener : ℕ) (group : Group) : HdfStatus × Group :=
  if listener ∈ group.adapterListeners fd then (.invalidParam, group)
  else
    let listeners := group.adapterListeners fd ++ [listener]
    let listening := { group with
      adapterListeners := Function.update group.adapterListeners fd listeners }
    if fd ∈ group.adapterList then
      match threadInit o group.thread with
      | none => (.failure, listening)
      | some thread =>
        let (ret, thread) := threadStart o group.adapterList thread
        (ret, { listening with thread := some thread })
    else
      match threadInit o (group.adapterThread fd) with
      | none => (.failure, group)
      | some thread =>
        let (ret, thread) := threadStart o [fd] thread
        let adapterThread := Function.update group.adapterThread fd (some thread)
        if ret ≠ .success then (.failure, { group with adapterThread := adapterThread })
        else (.success, { listening with adapterThread := adapterThread })

/-- The task of the thread begins. -/
def threadRuns (group : Group) : Group :=
  { group with thread := group.thread.map fun thread =>
      if thread.status = .started then { thread with status := .running } else thread }

/-- The task of the thread ends. -/
def threadExits (group : Group) : Group :=
  { group with thread := group.thread.map fun thread =>
      if thread.status = .running then { thread with status := .exited } else thread }

/-! ### Histories -/

/-- A call, or a step of the thread. -/
inductive Act where
  | add (fd : ℕ) (o : Outcomes)
  | remove (fd : ℕ)
  | registerListener (listener : ℕ) (o : Outcomes)
  | registerEventListener (fd listener : ℕ) (o : Outcomes)
  | runs
  | exits

/-- A call or a step. -/
def step : Act → Group → Option Group
  | .add fd o, group => (addService o fd group).map Prod.snd
  | .remove fd, group => some (removeService fd group)
  | .registerListener listener o, group => some (registerListener o listener group).2
  | .registerEventListener fd listener o, group =>
    some (registerEventListener o fd listener group).2
  | .runs, group => some (threadRuns group)
  | .exits, group => some (threadExits group)

/-- `HdfIoServiceGroupObtain`. -/
def obtained : Group where
  adapterList := []
  listenerList := []
  adapterListeners := fun _ => []
  adapterThread := fun _ => none
  thread := none

/-- The table of a started thread has the services of the group, each once, no table has
others, and a deletion leaves nothing of a service. -/
structure Exact (group : Group) : Prop where
  started : ∀ thread ∈ group.thread, thread.status.atLeastStarted →
    (live thread.pfds).Perm group.adapterList
  owned : ∀ thread ∈ group.thread, ∀ fd ∈ live thread.pfds, fd ∈ group.adapterList
  deleted : ∀ thread ∈ group.thread, ∀ fd,
    fd ∉ live (pollDel fd group.adapterList thread).2.pfds

/-- The call starts the thread, unless it is started already. -/
def Starts : Act → Group → Prop
  | .add fd _, group => fd ∉ group.adapterList ∧ group.adapterThread fd = none ∧
    (group.listenerList ≠ [] ∨ group.adapterListeners fd ≠ [])
  | .registerListener listener _, group => listener ∉ group.listenerList
  | .registerEventListener fd listener _, group =>
    fd ∈ group.adapterList ∧ listener ∉ group.adapterListeners fd
  | _, _ => False

/-- The call adds a service. -/
def Act.adds : Act → Bool
  | .add _ _ => true
  | _ => false

/-- A thread is started only where no service has more holes in front of its slot than there
are services without a slot in front of it on the list. A group has at most 65532 services. -/
structure Safe (act : Act) (group : Group) : Prop where
  ordered : Starts act group → ∀ thread ∈ group.thread, thread.status.atLeastStarted = false →
    InOrder group.adapterList thread.pfds
  few : act.adds → group.adapterList.length + pfdGrowSize < 2 ^ 16

instance (act : Act) (group : Group) : Decidable (Starts act group) :=
  match act with
  | .add _ _ => inferInstanceAs (Decidable (_ ∧ _ ∧ _))
  | .registerListener _ _ => inferInstanceAs (Decidable (_ ∉ _))
  | .registerEventListener _ _ _ => inferInstanceAs (Decidable (_ ∧ _))
  | .remove _ | .runs | .exits => inferInstanceAs (Decidable False)

instance (act : Act) (group : Group) : Decidable (Safe act group) :=
  decidable_of_iff
    ((Starts act group → ∀ thread ∈ group.thread, thread.status.atLeastStarted = false →
        InOrder group.adapterList thread.pfds) ∧
      (act.adds → group.adapterList.length + pfdGrowSize < 2 ^ 16))
    ⟨fun ⟨ordered, few⟩ => ⟨ordered, few⟩, fun ⟨ordered, few⟩ => ⟨ordered, few⟩⟩

/-! ### Slots that are found -/

section

variable {alloc : Bool} {fd index : ℕ} {fds adapterList adapterList' : List ℕ}
  {pfds pfds' : List (Option ℕ)}
  {o : Outcomes} {thread thread' : Thread} {ret : HdfStatus} {group group' : Group}

/-- The slot of a descriptor is found unless there is a hole in front of it. A new descriptor
gets the first hole, of an enlarged table if need be. -/
theorem getValidPfdIndex_spec
    (early : ∀ i, pfds[i]? = some (some fd) → holesBefore i pfds = 0)
    (room : fd ∉ live pfds → (live pfds).length + pfdGrowSize < 2 ^ 16)
    (found : getValidPfdIndex alloc fd pfds = some (index, pfds')) :
    pfds' = pfds ∧ pfds[index]? = some (some fd) ∨
      fd ∉ live pfds ∧ (∃ n, pfds' = pfds ++ List.replicate n none) ∧
        pfds'[index]? = some none ∧ holesBefore index pfds' = 0 := by
  have ahead {i : ℕ} (before : i < pfdIndex fd pfds) {slot : Option ℕ}
      (there : pfds[i]? = some slot) : slot ≠ none ∧ slot ≠ some fd := by
    obtain ⟨inside, rfl⟩ := List.getElem?_eq_some_iff.mp there
    simpa [not_or] using List.not_of_lt_findIdx before
  have first : holesBefore (pfdIndex fd pfds) pfds = 0 :=
    holesBefore_eq_zero_iff.mpr fun j before hole => (ahead before hole).1 rfl
  rw [getValidPfdIndex] at found
  by_cases beyond : pfdIndex fd pfds ≥ pfds.length
  · have last : pfdIndex fd pfds = pfds.length := le_antisymm List.findIdx_le_length beyond
    have absent (slot : Option ℕ) (member : slot ∈ pfds) : slot ≠ none ∧ slot ≠ some fd := by
      obtain ⟨i, inside, rfl⟩ := List.getElem_of_mem member
      exact ahead (last ▸ inside) (List.getElem?_eq_getElem inside)
    have new : fd ∉ live pfds := fun there => (absent _ (mem_live.mp there)).2 rfl
    have fits := room new
    rw [length_live_of_full fun hole => (absent none hole).1 rfl] at fits
    rw [if_pos beyond] at found
    split at found
    · cases found
      rw [Nat.mod_eq_of_lt fits, List.take_of_length_le (by simp)]
      refine .inr ⟨new, ⟨_, rfl⟩, ?_, ?_⟩
      · rw [last, List.getElem?_append_right le_rfl, Nat.sub_self]
        rfl
      · rw [holesBefore_append last.le]
        exact first
    · cases found
  · rw [if_neg beyond] at found
    cases found
    have inside : pfdIndex fd pfds < pfds.length := not_le.mp beyond
    have slot : pfds[pfdIndex fd pfds] = none ∨ pfds[pfdIndex fd pfds] = some fd :=
      of_decide_eq_true (@List.findIdx_getElem _ _ pfds inside)
    have there := List.getElem?_eq_getElem inside
    rcases slot with hole | own
    · rw [hole] at there
      refine .inr ⟨fun member => ?_, ⟨0, (List.append_nil pfds).symm⟩, there, first⟩
      -- a slot of the descriptor would be behind the hole
      obtain ⟨i, within, same⟩ := List.getElem_of_mem (mem_live.mp member)
      have further := List.getElem?_eq_getElem within
      rw [same] at further
      rcases Nat.lt_trichotomy i (pfdIndex fd pfds) with before | rfl | behind
      · exact (ahead before further).2 rfl
      · cases there.symm.trans further
      · exact holesBefore_eq_zero_iff.mp (early i further) _ behind there
    · rw [own] at there
      exact .inl ⟨rfl, there⟩

/-- The table when a descriptor has been put in: the same, or with the first hole filled. -/
theorem addAdapterToPfds_spec
    (early : ∀ i, pfds[i]? = some (some fd) → holesBefore i pfds = 0)
    (room : fd ∉ live pfds → (live pfds).length + pfdGrowSize < 2 ^ 16)
    (added : addAdapterToPfds alloc fd pfds = some pfds') :
    fd ∈ live pfds ∧ pfds' = pfds ∨
      fd ∉ live pfds ∧ ∃ n i, (pfds ++ List.replicate n none)[i]? = some none ∧
        holesBefore i (pfds ++ List.replicate n none) = 0 ∧
        pfds' = place fd i (pfds ++ List.replicate n none) := by
  obtain ⟨⟨index, table⟩, found, rfl⟩ := Option.map_eq_some_iff.mp added
  rcases getValidPfdIndex_spec early room found with
    ⟨rfl, own⟩ | ⟨new, ⟨n, rfl⟩, hole, first⟩
  · exact .inl ⟨mem_live.mpr (List.mem_of_getElem? own), place_of_mem own⟩
  · exact .inr ⟨new, n, index, hole, first, rfl⟩

theorem live_append_holes (n : ℕ) : live (pfds ++ List.replicate n none) = live pfds := by
  rw [live_append, live_replicate, List.append_nil]

/-! ### Tables that are kept in order -/

/-- A table has services of a group, each at most once. -/
structure Within (adapterList : List ℕ) (pfds : List (Option ℕ)) : Prop where
  distinct : (live pfds).Nodup
  owned : ∀ fd ∈ live pfds, fd ∈ adapterList

/-- A new descriptor needs no more room than a group may need. -/
theorem Within.room (within : Within adapterList pfds) (member : fd ∈ adapterList)
    (few : adapterList.length + pfdGrowSize ≤ 2 ^ 16) (new : fd ∉ live pfds) :
    (live pfds).length + pfdGrowSize < 2 ^ 16 := by
  have more : (fd :: live pfds).length ≤ adapterList.length := by
    refine (List.subperm_of_subset (List.nodup_cons.mpr ⟨new, within.distinct⟩) ?_).length_le
    exact List.cons_subset.mpr ⟨member, within.owned⟩
  rw [List.length_cons] at more
  omega

/-- The loop over the services of a group. -/
theorem initPollFds_spec {alloc : ℕ → Bool} (distinct : fds.Nodup) (listed : fds ⊆ adapterList)
    (few : adapterList.length + pfdGrowSize ≤ 2 ^ 16) (within : Within adapterList pfds)
    (ordered : InOrder fds pfds) (filled : initPollFds alloc fds pfds = (ret, pfds')) :
    Within adapterList pfds' ∧ live pfds ⊆ live pfds' ∧ (ret = .success → fds ⊆ live pfds') := by
  induction fds generalizing pfds with
  | nil =>
    cases filled
    exact ⟨within, List.Subset.refl _, fun _ => List.nil_subset _⟩
  | cons fd fds ih =>
    obtain ⟨once, distinct⟩ := List.nodup_cons.mp distinct
    obtain ⟨member, listed⟩ := List.cons_subset.mp listed
    rw [initPollFds] at filled
    cases added : addAdapterToPfds (alloc fd) fd pfds with
    | none =>
      rw [added] at filled
      cases filled
      exact ⟨within, List.Subset.refl _, fun success => absurd success (by decide)⟩
    | some table =>
      simp only [added] at filled
      rcases addAdapterToPfds_spec (fun i there => inOrder_head ordered there)
          (within.room member few) added with ⟨there, rfl⟩ | ⟨new, n, i, hole, first, rfl⟩
      · obtain ⟨within', grown, all⟩ :=
          ih distinct listed within (inOrder_tail ordered (mem_live.mp there)) filled
        exact ⟨within', grown, fun success => List.cons_subset.mpr ⟨grown there, all success⟩⟩
      · -- the slot is a hole or one of the new ones, and nothing live is overwritten
        have more := live_place (a := fd) hole
        rw [live_append_holes] at more
        have absent : some fd ∉ pfds ++ List.replicate n none := by
          rwa [← mem_live, live_append_holes]
        -- the induction goes on with the table that has the descriptor
        have next : Within adapterList (place fd i (pfds ++ List.replicate n none)) := by
          refine ⟨more.nodup_iff.mpr (List.nodup_cons.mpr ⟨new, within.distinct⟩), ?_⟩
          intro other there
          rcases List.mem_cons.mp (more.mem_iff.mp there) with rfl | old
          · exact member
          · exact within.owned other old
        obtain ⟨within', grown, all⟩ := ih distinct listed next
          (inOrder_place (inOrder_append ordered n) absent once hole first) filled
        refine ⟨within', fun other old => ?_, fun success => ?_⟩
        · exact grown (more.mem_iff.mpr (List.mem_cons_of_mem _ old))
        · exact List.cons_subset.mpr
            ⟨grown (more.mem_iff.mpr List.mem_cons_self), all success⟩

/-- The table of a thread has services of the group, and all of them when it is started. -/
structure Tidy (adapterList : List ℕ) (thread : Thread) : Prop extends
    Within adapterList thread.pfds where
  complete : thread.status.atLeastStarted → adapterList ⊆ live thread.pfds

/-- A thread that is made or is to be started again. -/
theorem tidy_threadInit {old : Option Thread} (tidy : ∀ thread ∈ old, Tidy adapterList thread)
    (made : threadInit o old = some thread) : Tidy adapterList thread := by
  cases old with
  | none =>
    rw [threadInit] at made
    split at made
    · cases made
      exact ⟨⟨List.nodup_nil, fun _ member => absurd member List.not_mem_nil⟩,
        fun started => absurd started (by decide)⟩
    · cases made
  | some old =>
    have old_tidy := tidy old rfl
    have inited : Tidy adapterList { old with status := .inited } :=
      ⟨old_tidy.toWithin, fun started => absurd started Bool.false_ne_true⟩
    rw [threadInit] at made
    split at made
    · cases made
      exact inited
    · split at made
      · cases made
        exact inited
      · cases made
    all_goals
      cases made
      exact old_tidy

/-- The start of a thread. -/
theorem tidy_threadStart (distinct : adapterList.Nodup)
    (few : adapterList.length + pfdGrowSize ≤ 2 ^ 16)
    (ordered : thread.status.atLeastStarted = false → InOrder adapterList thread.pfds)
    (tidy : Tidy adapterList thread) (called : threadStart o adapterList thread = (ret, thread')) :
    Tidy adapterList thread' := by
  rw [threadStart] at called
  split at called
  · cases called
    exact tidy
  · rename_i idle
    split at called
    · cases called
      exact tidy
    · cases filled : initPollFds o.alloc adapterList thread.pfds with
      | mk filled_ret pfds =>
        obtain ⟨within, -, all⟩ := initPollFds_spec distinct (List.Subset.refl _) few
          tidy.toWithin (ordered (Bool.eq_false_of_not_eq_true idle)) filled
        have waiting : Tidy adapterList { thread with pfds } :=
          ⟨within, fun started => absurd started idle⟩
        simp only [filled] at called
        split at called
        · cases called
          exact waiting
        · rename_i success
          have started : Tidy adapterList { status := .started, pfds } :=
            ⟨within, fun _ => all (not_not.mp fun failed => success (.inl failed))⟩
          split at called
          · cases called
            exact waiting
          · split at called <;> (cases called; exact started)

/-- A new service: it comes last on the list, or the list is as before. -/
theorem tidy_pollAdd (new : fd ∉ adapterList) (few : adapterList.length + pfdGrowSize < 2 ^ 16)
    (tidy : Tidy adapterList thread)
    (called : pollAdd o fd adapterList thread = (ret, adapterList', thread')) :
    (ret = .success ∧ adapterList' = adapterList ++ [fd] ∨
      ret ≠ .success ∧ adapterList' = adapterList) ∧
      Tidy adapterList' thread' ∧ thread'.status = thread.status ∧
        (thread.status.atLeastStarted = false → thread' = thread) := by
  have absent : fd ∉ live thread.pfds := fun there => new (tidy.owned fd there)
  rw [pollAdd] at called
  split at called
  · rename_i idle
    cases called
    refine ⟨.inl ⟨rfl, rfl⟩, ⟨⟨tidy.distinct, fun other there => ?_⟩, fun started => ?_⟩,
      rfl, fun _ => rfl⟩
    · exact List.mem_append_left _ (tidy.owned other there)
    · simp [started] at idle
  · rename_i started
    replace started : thread.status.atLeastStarted := by simpa using started
    cases found : getValidPfdIndex (o.alloc fd) fd thread.pfds with
    | none =>
      simp only [found] at called
      cases called
      exact ⟨.inr ⟨by decide, rfl⟩, tidy, rfl, fun idle => absurd started (by simp [idle])⟩
    | some slot =>
      obtain ⟨index, table⟩ := slot
      have early (i : ℕ) (there : thread.pfds[i]? = some (some fd)) :
          holesBefore i thread.pfds = 0 :=
        absurd (mem_live.mpr (List.mem_of_getElem? there)) absent
      have room (_ : fd ∉ live thread.pfds) :
          (live thread.pfds).length + pfdGrowSize < 2 ^ 16 := by
        have shorter := (List.subperm_of_subset tidy.distinct tidy.owned).length_le
        omega
      rcases getValidPfdIndex_spec early room found with
        ⟨-, own⟩ | ⟨-, ⟨n, rfl⟩, hole, -⟩
      · exact absurd (mem_live.mpr (List.mem_of_getElem? own)) absent
      have more := live_place (a := fd) hole
      rw [live_append_holes] at more
      -- a slot that is given back leaves the services as they were
      have back : Tidy adapterList { thread with
          pfds := (place fd index (thread.pfds ++ List.replicate n none)).set index none } := by
        rw [set_none_place hole]
        exact ⟨⟨by rw [live_append_holes]; exact tidy.distinct,
          by rw [live_append_holes]; exact tidy.owned⟩,
          by rw [live_append_holes]; exact tidy.complete⟩
      simp only [found] at called
      split at called
      · cases called
        exact ⟨.inr ⟨by decide, rfl⟩, back, rfl, fun idle => absurd started (by simp [idle])⟩
      split at called
      · cases called
        exact ⟨.inr ⟨by decide, rfl⟩, back, rfl, fun idle => absurd started (by simp [idle])⟩
      · cases called
        refine ⟨.inl ⟨rfl, rfl⟩, ⟨⟨?_, fun other there => ?_⟩, fun _ other there => ?_⟩,
          rfl, fun idle => absurd started (by simp [idle])⟩
        · exact more.nodup_iff.mpr (List.nodup_cons.mpr ⟨absent, tidy.distinct⟩)
        · rcases List.mem_cons.mp (more.mem_iff.mp there) with rfl | old
          · exact List.mem_append_right _ List.mem_cons_self
          · exact List.mem_append_left _ (tidy.owned other old)
        · refine more.mem_iff.mpr ?_
          rcases List.mem_append.mp there with old | last
          · exact List.mem_cons_of_mem _ (tidy.complete started old)
          · exact List.mem_cons.mpr (.inl (List.mem_singleton.mp last))

/-- A service that is taken out leaves nothing in the table. -/
theorem tidy_pollDel (distinct : adapterList.Nodup) (tidy : Tidy adapterList thread) (fd : ℕ) :
    Tidy (pollDel fd adapterList thread).1 (pollDel fd adapterList thread).2 ∧
      fd ∉ live (pollDel fd adapterList thread).2.pfds := by
  have left (other : ℕ) : other ∈ live (clear fd thread.pfds) ↔
      other ≠ fd ∧ other ∈ live thread.pfds := by
    rw [live_clear, tidy.distinct.mem_erase_iff]
  refine ⟨⟨⟨?_, fun other there => ?_⟩, fun started other there => ?_⟩, fun there => ?_⟩
  · rw [pollDel, live_clear]
    exact tidy.distinct.erase fd
  · obtain ⟨different, old⟩ := (left other).mp there
    exact distinct.mem_erase_iff.mpr ⟨different, tidy.owned other old⟩
  · obtain ⟨different, old⟩ := distinct.mem_erase_iff.mp there
    exact (left other).mpr ⟨different, tidy.complete started old⟩
  · exact ((left fd).mp there).1 rfl

/-! ### Histories -/

/-- What the calls keep. -/
structure Kept (group : Group) : Prop where
  distinct : group.adapterList.Nodup
  few : group.adapterList.length + pfdGrowSize ≤ 2 ^ 16
  tidy : ∀ thread ∈ group.thread, Tidy group.adapterList thread

theorem kept_obtained : Kept obtained where
  distinct := List.nodup_nil
  few := by decide
  tidy := nofun

theorem exact_of_kept (kept : Kept group) : Exact group where
  started thread there started := by
    have tidy := kept.tidy thread there
    refine (List.perm_ext_iff_of_nodup tidy.distinct kept.distinct).mpr fun fd => ?_
    exact ⟨fun slot => tidy.owned fd slot, fun listed => tidy.complete started listed⟩
  owned thread there := (kept.tidy thread there).owned
  deleted thread there fd := (tidy_pollDel kept.distinct (kept.tidy thread there) fd).2

/-- A group with another thread. -/
theorem kept_of_list (kept : Kept group) (same : group'.adapterList = group.adapterList)
    (tidy : ∀ thread ∈ group'.thread, Tidy group.adapterList thread) : Kept group' := by
  refine ⟨?_, ?_, ?_⟩ <;> rw [same]
  · exact kept.distinct
  · exact kept.few
  · exact tidy

/-- A thread that is initialised is ready for a start where the group was. -/
theorem inOrder_threadInit {old : Option Thread}
    (ordered : ∀ thread ∈ old, thread.status.atLeastStarted = false →
      InOrder adapterList thread.pfds)
    (made : threadInit o old = some thread) (idle : thread.status.atLeastStarted = false) :
    InOrder adapterList thread.pfds := by
  cases old with
  | none =>
    rw [threadInit] at made
    split at made <;> cases made
    exact fun _ _ _ _ _ slot => absurd slot (by simp)
  | some old =>
    have before (unstarted : old.status.atLeastStarted = false) := ordered old rfl unstarted
    rw [threadInit] at made
    split at made
    · rename_i exited
      cases made
      exact before (by rw [exited]; rfl)
    · rename_i uninited
      split at made <;> cases made
      exact before (by rw [uninited]; rfl)
    all_goals
      cases made
      exact before idle

/-- `HdfIoServiceGroupAddService`. -/
theorem kept_addService (kept : Kept group) (safe : Safe (.add fd o) group)
    (called : addService o fd group = some (ret, group')) : Kept group' := by
  rw [addService] at called
  split at called
  · cases called
    exact kept
  rename_i fresh
  obtain ⟨new, without⟩ := not_or.mp fresh
  cases made : threadInit o group.thread with
  | none =>
    simp only [made] at called
    cases called
    exact kept
  | some thread =>
    have tidy := tidy_threadInit kept.tidy made
    cases added : pollAdd o fd group.adapterList thread with
    | mk add_ret rest =>
      obtain ⟨adapterList', thread'⟩ := rest
      obtain ⟨outcome, tidy', status, same⟩ := tidy_pollAdd new (safe.few rfl) tidy added
      simp only [made, added] at called
      rcases outcome with ⟨rfl, rfl⟩ | ⟨failed, rfl⟩
      · -- the adapter is listed now, and the thread may have to be started with it
        have distinct : (group.adapterList ++ [fd]).Nodup := by
          exact List.nodup_append_comm.mp (List.nodup_cons.mpr ⟨new, kept.distinct⟩)
        have few : (group.adapterList ++ [fd]).length + pfdGrowSize ≤ 2 ^ 16 := by
          have room := safe.few rfl
          rw [List.length_append, List.length_singleton]
          omega
        rw [if_neg (not_not.mpr rfl)] at called
        split at called
        · rename_i starts
          have idle : thread'.status.atLeastStarted = false := by simpa using starts.2
          cases started : threadStart o (group.adapterList ++ [fd]) thread' with
          | mk start_ret thread'' =>
            simp only [started] at called
            split at called <;> cases called
            refine ⟨distinct, few, ?_⟩
            rintro _ ⟨⟩
            refine tidy_threadStart distinct few (fun _ => ?_) tidy' started
            -- a thread that has not started fills its table in the order of the list
            have asleep : thread.status.atLeastStarted = false := status ▸ idle
            have ordered := inOrder_threadInit
              (safe.ordered ⟨new, not_not.mp without, starts.1⟩) made asleep
            rw [same asleep]
            exact inOrder_concat ordered fun there => new (tidy.owned fd (mem_live.mpr there))
        · cases called
          refine ⟨distinct, few, ?_⟩
          rintro _ ⟨⟩
          exact tidy'
      · rw [if_pos failed] at called
        cases called
        refine kept_of_list kept rfl ?_
        rintro _ ⟨⟩
        exact tidy'

/-- `HdfIoServiceGroupRemoveService`. -/
theorem kept_removeService (kept : Kept group) (fd : ℕ) : Kept (removeService fd group) := by
  have distinct : (group.adapterList.erase fd).Nodup := kept.distinct.erase fd
  have few : (group.adapterList.erase fd).length + pfdGrowSize ≤ 2 ^ 16 :=
    (Nat.add_le_add_right List.length_erase_le _).trans kept.few
  rw [removeService]
  split
  · exact kept
  · rename_i thread there
    split
    · exact kept
    · split
      · exact ⟨distinct, few, nofun⟩
      · refine ⟨distinct, few, ?_⟩
        rintro _ ⟨⟩
        exact (tidy_pollDel kept.distinct (kept.tidy thread there) fd).1

/-- `HdfIoServiceGroupRegisterListener`. -/
theorem kept_registerListener {listener : ℕ} (kept : Kept group)
    (safe : Safe (.registerListener listener o) group) :
    Kept (registerListener o listener group).2 := by
  rw [registerListener]
  cases made : threadInit o group.thread with
  | none => exact kept
  | some thread =>
    have tidy := tidy_threadInit kept.tidy made
    have ready : Kept { group with thread := some thread } := kept_of_list kept rfl (by
      rintro _ ⟨⟩
      exact tidy)
    dsimp only
    split
    · exact ready
    · rename_i new
      split
      · have ordered := inOrder_threadInit (safe.ordered new) made
        cases started : threadStart o group.adapterList thread with
        | mk ret thread' =>
          have tidy' := tidy_threadStart kept.distinct kept.few ordered tidy started
          dsimp only
          split <;> exact kept_of_list kept rfl (by rintro _ ⟨⟩; exact tidy')
      · exact kept_of_list kept rfl (by rintro _ ⟨⟩; exact tidy)

/-- `HdfDeviceRegisterEventListener`. -/
theorem kept_registerEventListener {listener : ℕ} (kept : Kept group)
    (safe : Safe (.registerEventListener fd listener o) group) :
    Kept (registerEventListener o fd listener group).2 := by
  rw [registerEventListener]
  split
  · exact kept
  rename_i new
  split
  · rename_i listed
    cases made : threadInit o group.thread with
    | none => exact kept_of_list kept rfl kept.tidy
    | some thread =>
      have tidy := tidy_threadInit kept.tidy made
      have ordered := inOrder_threadInit (safe.ordered ⟨listed, new⟩) made
      cases started : threadStart o group.adapterList thread with
      | mk ret thread' =>
        simp only [started]
        refine kept_of_list kept rfl ?_
        rintro _ ⟨⟩
        exact tidy_threadStart kept.distinct kept.few ordered tidy started
  -- the thread of the service is not the group's
  · cases threadInit o (group.adapterThread fd) with
    | none => exact kept
    | some thread =>
      dsimp only
      split <;> exact kept_of_list kept rfl kept.tidy

/-- The thread runs or exits, and keeps its table. -/
theorem kept_of_status (kept : Kept group) {next : Thread → Thread}
    (pfds : ∀ thread, (next thread).pfds = thread.pfds)
    (awake : ∀ thread, (next thread).status.atLeastStarted → thread.status.atLeastStarted) :
    Kept { group with thread := group.thread.map next } := by
  refine kept_of_list kept rfl fun thread there => ?_
  obtain ⟨old, found, rfl⟩ := Option.map_eq_some_iff.mp there
  have tidy := kept.tidy old found
  exact ⟨by rw [pfds]; exact tidy.toWithin, fun started => by
    rw [pfds]
    exact tidy.complete (awake old started)⟩

/-- Every call and step keeps the table in order. -/
theorem kept_step {act : Act} (kept : Kept group) (safe : Safe act group)
    (stepped : step act group = some group') : Kept group' := by
  cases act with
  | add fd o =>
    obtain ⟨⟨ret, next⟩, called, rfl⟩ := Option.map_eq_some_iff.mp stepped
    exact kept_addService kept safe called
  | remove fd =>
    cases stepped
    exact kept_removeService kept fd
  | registerListener listener o =>
    cases stepped
    exact kept_registerListener kept safe
  | registerEventListener fd listener o =>
    cases stepped
    exact kept_registerEventListener kept safe
  | runs =>
    cases stepped
    refine kept_of_status kept (fun thread => ?_) fun thread => ?_
    · split <;> rfl
    · split
      · rename_i started
        exact fun _ => by rw [started]; rfl
      · exact id
  | exits =>
    cases stepped
    refine kept_of_status kept (fun thread => ?_) fun thread => ?_
    · split <;> rfl
    · split
      · exact fun exited => absurd exited Bool.false_ne_true
      · exact id

/-- In every history whose starts pass over no service, the table of a started thread has
each service of the group once, and what is deleted is gone. -/
theorem exact_of_safe {acts : List Act} (safe : Meets step Safe obtained acts)
    (ran : runs step obtained acts = some group) : Exact group :=
  exact_of_kept
    (runs_invariant (fun _ _ _ kept safe stepped => kept_step kept safe stepped) kept_obtained
      safe ran)

end

/-! ### A service that is passed over -/

/-- A service is taken out of the second slot, and the thread is started again. -/
def restart : List Act :=
  [.add 3 {}, .add 4 {}, .registerListener 1 {}, .runs, .remove 4, .exits,
    .registerListener 2 {}]

/-- The table after these calls. -/
theorem exact_restart : ∃ group, runs step obtained restart = some group ∧
    group.thread = some ⟨.started, [some 3, none, none, none]⟩ ∧ Exact group :=
  ⟨_, rfl, by decide +kernel, exact_of_safe (by decide +kernel) (rfl : runs _ _ restart = _)⟩

/-- A service is taken out of the first slot before the thread is started again. The other one
is written into the hole, and its second slot stays when it is taken out. -/
theorem restart_duplicates : ∃ group after,
    runs step obtained [.add 3 {}, .add 4 {}, .registerListener 1 {}, .runs, .remove 3, .exits,
      .registerListener 2 {}, .add 5 {}] = some group ∧
    group.adapterList = [4, 5] ∧
    group.thread = some ⟨.started, [some 4, some 4, some 5, none]⟩ ∧ ¬ Exact group ∧
    step (.remove 4) group = some after ∧ after.adapterList = [5] ∧
    after.thread = some ⟨.started, [none, some 4, some 5, none]⟩ ∧ ¬ Exact after := by
  refine ⟨_, _, rfl, by decide +kernel, by decide +kernel, fun exact_group => ?_, rfl,
    by decide +kernel, by decide +kernel, fun exact_after => ?_⟩
  · have slots := exact_group.started ⟨.started, [some 4, some 4, some 5, none]⟩
      (by decide +kernel) rfl
    exact absurd slots.length_eq (by decide +kernel)
  · have slots := exact_after.started ⟨.started, [none, some 4, some 5, none]⟩
      (by decide +kernel) rfl
    exact absurd slots.length_eq (by decide +kernel)

end Hdf.Core.PollTable
