import Hdf.Lib.Runs
import Hdf.Lib.Threads
import Mathlib.Logic.Function.Basic

/-!
# The channels of a DMA controller

A transfer requests a channel and has it until it ends. A transfer between a
peripheral and memory returns when its channel is enabled, and ends when the interrupt
handler hears of that channel. A transfer in memory waits for an event that the
handler signals, and frees the channel by itself.

Every section under the lock, every callback of the controller and every wait is one
step, and the interrupt handler runs between any two of them. What the callbacks and
allocations answer comes with the step.

## Main definitions

* `State`, `step`: a controller and any number of transfers
* `OneOwner`: every channel has one owner at a time, and is free in the end
* `Orderly`: the steps after which that is so

## Main results

* `oneOwner_of_runs`: channels have one owner if all steps are orderly
* `shares_channel`: two transfers with one channel, and other ends
-/

namespace Hdf.Platform.Dmac

open Threads

/-- `TRASFER_TYPE_M2M`. -/
def typeM2m : UInt8 := 0

/-- `TRASFER_TYPE_P2M`. -/
def typeP2m : UInt8 := 1

/-- `TRASFER_TYPE_M2P`. -/
def typeM2p : UInt8 := 2

/-- `struct DmacMsg`. -/
structure DmacMsg where
  srcAddr : ℕ
  destAddr : ℕ
  transType : UInt8
  transLen : ℕ
  deriving DecidableEq, Repr

/-- `struct DmacChanInfo`. A channel that is not vacant has been allocated; `lli` is the number of
descriptors if there are any; `done` and `error` are the bits of the event. -/
structure DmacChanInfo where
  channel : ℕ
  vacant : Bool
  transType : UInt8
  srcWidth : UInt8
  destWidth : UInt8
  lli : Option ℕ
  done : Bool
  error : Bool

/-- What a transfer does next. A transfer that has ended is marked with the channel it had. -/
inductive Transfer where
  | requests (msg : DmacMsg)
  | requested (msg : DmacMsg) (chan : ℕ)
  | prepares (msg : DmacMsg) (chan : ℕ)
  | fills (msg : DmacMsg) (chan : ℕ)
  | enables (chan : ℕ)
  | runs (chan : ℕ)
  | sends (chan leftSize : ℕ)
  | waits (chan leftSize : ℕ)
  | frees (chan : ℕ)
  | ended (chan : Option ℕ)
  deriving DecidableEq, Repr

/-- A controller and the transfers. `vacated` lists the channels in the order in which they have
been marked vacant; `overrun` tells that a channel behind the last one has been used. -/
structure State where
  maxTransSize : ℕ
  channelNum : ℕ
  channelList : ℕ → DmacChanInfo
  transfers : List Transfer
  vacated : List ℕ
  overrun : Bool

/-- A channel after `DmacCntlrAdd`. -/
def vacancy : DmacChanInfo where
  channel := 0
  vacant := true
  transType := 0
  srcWidth := 0
  destWidth := 0
  lli := none
  done := false
  error := false

/-- A controller after `DmacCntlrAdd`. -/
def added (maxTransSize channelNum : ℕ) : State where
  maxTransSize := maxTransSize
  channelNum := channelNum
  channelList _ := vacancy
  transfers := []
  vacated := []
  overrun := false

/-- Writes a channel, which must be one of the controller. -/
def State.modify (s : State) (chan : ℕ) (change : DmacChanInfo → DmacChanInfo) : State :=
  if chan < s.channelNum then
    { s with channelList := Function.update s.channelList chan (change (s.channelList chan)) }
  else { s with overrun := true }

/-- What a callback or an allocation answers, and the widths that `getChanInfo` sets. -/
structure Answer where
  ok : Bool
  srcWidth : UInt8
  destWidth : UInt8
  deriving DecidableEq, Repr

/-- What `dmacGetChanStatus` tells: `DMAC_CHN_SUCCESS`, `DMAC_CHN_ERROR`, or something else. -/
inductive ChanStatus where
  | success | error | other
  deriving DecidableEq, Repr

/-- `HDF_FAILURE` in a `uint16_t`. -/
def failureChannel : ℕ := (-1 : UInt16).toNat

/-- `DmacAllocateChannel`. -/
def dmacAllocateChannel (s : State) : ℕ × State :=
  match (List.range s.channelNum).find? fun i => (s.channelList i).vacant with
  | some i => (i, s.modify i fun chanInfo => { chanInfo with vacant := false })
  | none => (failureChannel, s)

/-- `DmacFreeChannel`. -/
def dmacFreeChannel (channel : ℕ) (s : State) : State :=
  { s.modify channel fun chanInfo => { chanInfo with lli := none, vacant := true } with
    vacated := s.vacated ++ [channel] }

/-- `DmacAlignedTransMax`. -/
def dmacAlignedTransMax (maxSize : ℕ) (srcWidth destWidth : UInt8) : ℕ :=
  let maxWidth := if srcWidth ≥ destWidth then srcWidth else destWidth
  if maxWidth = 0 then maxSize else maxSize - maxSize % maxWidth.toNat

/-- `DmacAllocLli`: the number of descriptors, if they can be allocated. -/
def dmacAllocLli (allocated : Bool) (length maxSize : ℕ) : Option ℕ :=
  if maxSize = 0 then none
  else
    let lliNum := length / maxSize + if length % maxSize > 0 then 1 else 0
    if lliNum > 2048 then none else if allocated then some lliNum else none

/-- `DmacFillLli` succeeds: only a dummy buffer that cannot be allocated lets it fail once
there are descriptors. -/
def dmacFillLli (allocated : Bool) (msg : DmacMsg) : Bool :=
  allocated || msg.srcAddr ≠ 0 && msg.destAddr ≠ 0

/-- `DmacFreeLli`. -/
def dmacFreeLli (chan : ℕ) (s : State) : State :=
  s.modify chan fun chanInfo => { chanInfo with lli := none }

/-- A transfer has made a step. -/
def State.set (s : State) (i : ℕ) (transfer : Transfer) : State :=
  { s with transfers := s.transfers.set i transfer }

/-- The next step of a transfer. A channel number is never negative, so that a failed allocation
is not noticed. -/
def advance (i : ℕ) (answer : Answer) (s : State) : Option State :=
  match s.transfers[i]? with
  | some (.requests msg) =>
    let (chan, s) := dmacAllocateChannel s
    some (s.set i (.requested msg chan))
  | some (.requested msg chan) =>
    let s := s.modify chan fun chanInfo => { chanInfo with
      channel := chan
      transType := msg.transType
      srcWidth := answer.srcWidth
      destWidth := answer.destWidth }
    some (s.set i (if answer.ok then .prepares msg chan else .frees chan))
  | some (.prepares msg chan) =>
    if msg.transType = typeM2m then some (s.set i (.sends chan msg.transLen))
    else if msg.srcAddr = 0 ∧ msg.destAddr = 0 then some (s.set i (.ended (some chan)))
    else
      let chanInfo := s.channelList chan
      let maxSize := dmacAlignedTransMax s.maxTransSize chanInfo.srcWidth chanInfo.destWidth
      match dmacAllocLli answer.ok msg.transLen maxSize with
      | none => some (s.set i (.frees chan))
      | some lliCnt =>
        let s := s.modify chan fun chanInfo => { chanInfo with lli := some lliCnt }
        some (s.set i (.fills msg chan))
  | some (.fills msg chan) =>
    if dmacFillLli answer.ok msg then some (s.set i (.enables chan))
    else some ((dmacFreeLli chan s).set i (.frees chan))
  | some (.enables chan) =>
    if answer.ok then some (s.set i (.runs chan))
    else some ((dmacFreeLli chan s).set i (.frees chan))
  | some (.sends chan leftSize) =>
    if leftSize = 0 then some (s.set i (.frees chan))
    else if answer.ok then some (s.set i (.waits chan leftSize))
    else some (s.set i (.frees chan))
  | some (.waits chan leftSize) =>
    let chanInfo := s.channelList chan
    if chanInfo.done || chanInfo.error then
      let s := s.modify chan fun chanInfo => { chanInfo with done := false, error := false }
      let dmaSize := if leftSize ≥ s.maxTransSize then s.maxTransSize else leftSize
      some (s.set i (if chanInfo.done then .sends chan (leftSize - dmaSize) else .frees chan))
    else none
  | some (.frees chan) => some ((dmacFreeChannel chan s).set i (.ended (some chan)))
  | some (.runs _) | some (.ended _) | none => none

/-- A wait for the event of a channel that times out. -/
def timeout (i : ℕ) (s : State) : Option State :=
  match s.transfers[i]? with
  | some (.waits chan _) => some (s.set i (.frees chan))
  | _ => none

/-- `DmacCallbackHandle`, as far as it concerns a transfer in memory. -/
def dmacCallbackHandle (status : ChanStatus) (i : ℕ) (s : State) : State :=
  if (s.channelList i).transType = typeM2m then
    s.modify i fun chanInfo =>
      if status = .error then { chanInfo with error := true } else { chanInfo with done := true }
  else s

/-- The transfer that has run on a channel has ended. -/
def State.finish (s : State) (i : ℕ) : State :=
  s.set (s.transfers.idxOf (.runs i)) (.ended (some i))

/-- What `DmacIsr` does for one channel. -/
def isrChannel (status : ℕ → ChanStatus) (s : State) (i : ℕ) : State :=
  if status i = .other then s
  else
    let channel := (s.channelList i).channel
    dmacFreeChannel channel ((dmacCallbackHandle (status i) i s).finish i)

/-- `DmacIsr`. -/
def dmacIsr (status : ℕ → ChanStatus) (s : State) : State :=
  (List.range s.channelNum).foldl (isrChannel status) s

/-- `DmaCntlrTransfer` up to the request of a channel. -/
def dmaCntlrTransfer (msg : DmacMsg) (s : State) : State :=
  if msg.transType = typeP2m ∨ msg.transType = typeM2p ∨ msg.transType = typeM2m then
    { s with transfers := s.transfers ++ [.requests msg] }
  else s

/-- What happens next: a transfer begins, makes a step or stops waiting, or there is an
interrupt. -/
inductive Action where
  | transfer (msg : DmacMsg)
  | advance (i : ℕ) (answer : Answer)
  | timeout (i : ℕ)
  | isr (status : ℕ → ChanStatus)

/-- One step. -/
def step (action : Action) (s : State) : Option State :=
  match action with
  | .transfer msg => some (dmaCntlrTransfer msg s)
  | .advance i answer => advance i answer s
  | .timeout i => timeout i s
  | .isr status => some (dmacIsr status s)

/-! ### Owners -/

/-- The channel of a transfer that has not ended. -/
def Transfer.holds : Transfer → Option ℕ
  | .requests _ | .ended _ => none
  | .requested _ chan | .prepares _ chan | .fills _ chan | .enables chan | .runs chan
  | .sends chan _ | .waits chan _ | .frees chan => some chan

/-- A transfer is about to be given a channel. -/
def Transfer.isRequest : Transfer → Bool
  | .requests _ => true
  | _ => false

/-- A transfer has ended. -/
def Transfer.isEnded : Transfer → Bool
  | .ended _ => true
  | _ => false

/-- Every channel that a transfer gets is one of the controller's and nobody else's; a channel
is marked vacant once for every transfer that has had it; and in the end all are vacant and
without descriptors. -/
structure OneOwner (s : State) : Prop where
  inside : s.overrun = false
  granted : ∀ transfer ∈ s.transfers, ∀ c ∈ transfer.holds, c < s.channelNum
  exclusive : ∀ (i j : ℕ) (first second : Transfer), i ≠ j → s.transfers[i]? = some first →
    s.transfers[j]? = some second → ∀ c ∈ first.holds, c ∉ second.holds
  once : ∀ c, s.vacated.count c = s.transfers.count (.ended (some c))
  rest : (∀ transfer ∈ s.transfers, transfer.isEnded) → ∀ c < s.channelNum,
    (s.channelList c).vacant = true ∧ (s.channelList c).lli = none

/-- The steps after which channels have one owner: a channel is requested only while one is
vacant, a transfer with a peripheral has an address, and an interrupt only tells of channels on
which such a transfer runs. -/
def Orderly (action : Action) (s : State) : Prop :=
  match action with
  | .transfer msg => msg.transType = typeP2m ∨ msg.transType = typeM2p →
      msg.srcAddr ≠ 0 ∨ msg.destAddr ≠ 0
  | .advance i _ => (s.transfers[i]?).any Transfer.isRequest = true →
      ∃ c < s.channelNum, (s.channelList c).vacant = true
  | .timeout _ => True
  | .isr status => ∀ c < s.channelNum, status c ≠ .other → .runs c ∈ s.transfers

instance {action : Action} {s : State} : Decidable (Orderly action s) :=
  match action with
  | .transfer _ => inferInstanceAs (Decidable (_ ∨ _ → _))
  | .advance _ _ => inferInstanceAs (Decidable (_ → _))
  | .timeout _ => inferInstanceAs (Decidable True)
  | .isr _ => inferInstanceAs (Decidable (∀ c < _, _ → _))

/-! ### The invariant -/

/-- A transfer with a peripheral has an address. -/
def DmacMsg.Addressed (msg : DmacMsg) : Prop :=
  msg.transType = typeM2m ∨ msg.srcAddr ≠ 0 ∨ msg.destAddr ≠ 0

/-- What a transfer has written to its channel. -/
def Transfer.Known (channelList : ℕ → DmacChanInfo) : Transfer → Prop
  | .requests msg | .requested msg _ => msg.Addressed
  | .prepares msg chan => msg.Addressed ∧ (channelList chan).channel = chan ∧
      (channelList chan).transType = msg.transType
  | .fills _ chan | .enables chan | .runs chan => (channelList chan).channel = chan ∧
      (channelList chan).transType ≠ typeM2m
  | .sends _ _ | .waits _ _ | .frees _ | .ended _ => True

/-- The number of transfers that have a channel. -/
def holders (transfers : List Transfer) (c : ℕ) : ℕ :=
  transfers.countP fun transfer => transfer.holds = some c

/-- What holds as long as all steps are orderly. -/
structure Kept (s : State) : Prop where
  inside : s.overrun = false
  granted : ∀ transfer ∈ s.transfers, ∀ c ∈ transfer.holds, c < s.channelNum
  owners : ∀ c < s.channelNum, holders s.transfers c = if (s.channelList c).vacant then 0 else 1
  known : ∀ (i : ℕ) (transfer : Transfer), s.transfers[i]? = some transfer →
    transfer.Known s.channelList
  bare : ∀ c < s.channelNum, (s.channelList c).vacant = true → (s.channelList c).lli = none
  once : ∀ c, s.vacated.count c = s.transfers.count (.ended (some c))

section

variable {s t : State} {i chan : ℕ} {before after transfer : Transfer}
  {change : DmacChanInfo → DmacChanInfo}

theorem Kept.added (maxTransSize channelNum : ℕ) : Kept (added maxTransSize channelNum) where
  inside := rfl
  granted _ none := absurd none List.not_mem_nil
  owners _ _ := rfl
  known i transfer none := by simp [Dmac.added] at none
  bare _ _ _ := rfl
  once _ := rfl

theorem holders_set {transfers : List Transfer} (after : Transfer)
    (there : transfers[i]? = some before) (c : ℕ) :
    holders (transfers.set i after) c + (if before.holds = some c then 1 else 0) =
      holders transfers c + if after.holds = some c then 1 else 0 := by
  have counted := countP_set_add (fun transfer : Transfer => transfer.holds = some c) after there
  simp only [decide_eq_true_eq] at counted
  exact counted

theorem count_set {transfers : List Transfer} (after : Transfer)
    (there : transfers[i]? = some before) (ended : Transfer) :
    (transfers.set i after).count ended + (if before = ended then 1 else 0) =
      transfers.count ended + if after = ended then 1 else 0 := by
  have counted := countP_set_add (· == ended) after there
  simp only [beq_iff_eq] at counted
  exact counted

theorem Kept.exclusive (kept : Kept s) {j : ℕ} (differs : i ≠ j)
    (there : s.transfers[i]? = some before) (there' : s.transfers[j]? = some after)
    (holds : before.holds = some chan) : after.holds ≠ some chan := by
  intro holds'
  have two := two_le_countP (p := fun transfer : Transfer => transfer.holds = some chan) there
    there' differs (decide_eq_true holds) (decide_eq_true holds')
  have owners := kept.owners chan (kept.granted _ (List.mem_of_getElem? there) chan holds)
  rw [holders] at owners
  split at owners <;> omega

/-- Of a channel that a transfer has, nobody else knows anything. -/
theorem Transfer.Known.congr {list list' : ℕ → DmacChanInfo} (known : transfer.Known list)
    (same : ∀ c ∈ transfer.holds, list' c = list c) : transfer.Known list' := by
  cases transfer with
  | prepares msg chan | fills msg chan | enables chan | runs chan =>
    rw [Transfer.Known, same chan rfl]
    exact known
  | requests | requested | sends | waits | frees | ended => exact known

theorem modify_of_lt (inside : chan < s.channelNum) : s.modify chan change =
    { s with channelList := Function.update s.channelList chan (change (s.channelList chan)) } := by
  rw [State.modify, if_pos inside]

theorem Kept.lt_channelNum (kept : Kept s) (there : s.transfers[i]? = some before)
    (holds : before.holds = some chan) : chan < s.channelNum :=
  kept.granted before (List.mem_of_getElem? there) chan holds

/-- A transfer that has a channel is counted for it. -/
theorem Kept.occupied (kept : Kept s) (there : s.transfers[i]? = some before)
    (holds : before.holds = some chan) : (s.channelList chan).vacant = false := by
  have counted : 0 < holders s.transfers chan :=
    List.countP_pos_iff.mpr ⟨before, List.mem_of_getElem? there, decide_eq_true holds⟩
  have owners := kept.owners chan (kept.lt_channelNum there holds)
  split at owners
  · omega
  · rename_i occupied
    exact Bool.not_eq_true _ ▸ occupied

/-- A transfer goes on with its channel. -/
theorem Kept.move (kept : Kept s) (there : s.transfers[i]? = some before)
    (holds : before.holds = some chan) (holds' : after.holds = some chan)
    (vacant : ∀ chanInfo, (change chanInfo).vacant = chanInfo.vacant)
    (known : after.Known (Function.update s.channelList chan (change (s.channelList chan)))) :
    Kept ((s.modify chan change).set i after) := by
  have inside := kept.lt_channelNum there holds
  have occupied := kept.occupied there holds
  rw [modify_of_lt inside]
  have unended {transfer : Transfer} (holds : transfer.holds = some chan) (c : ℕ) :
      transfer ≠ .ended (some c) := by
    rintro rfl
    cases holds
  refine ⟨kept.inside, fun transfer member c held => ?_, fun c lt => ?_,
    fun j transfer there' => ?_, fun c lt vacancy => ?_, fun c => ?_⟩
  · rcases mem_set_cases member with rfl | old
    · rw [holds'] at held
      cases held
      exact inside
    · exact kept.granted transfer old c held
  · have counted := holders_set after there c
    rw [holds, holds'] at counted
    refine (Nat.add_right_cancel counted).trans ((kept.owners c lt).trans ?_)
    by_cases same : c = chan
    · subst same
      simp [State.set, vacant]
    · simp [State.set, same]
  · rcases (getElem?_set_iff there).mp there' with ⟨-, rfl⟩ | ⟨other, old⟩
    · exact known
    · refine (kept.known j transfer old).congr fun c held => Function.update_of_ne ?_ _ _
      rintro rfl
      exact kept.exclusive other.symm there old holds held
  · by_cases same : c = chan
    · subst same
      simp [State.set, vacant, occupied] at vacancy
    · simp only [State.set, Function.update_of_ne same] at vacancy ⊢
      exact kept.bare c lt vacancy
  · have counted := count_set after there (.ended (some c))
    rw [if_neg (unended holds c), if_neg (unended holds' c)] at counted
    exact (kept.once c).trans counted.symm

/-- A transfer goes on, and its channel stays as it is. -/
theorem Kept.pass (kept : Kept s) (there : s.transfers[i]? = some before)
    (holds : before.holds = some chan) (holds' : after.holds = some chan)
    (known : after.Known s.channelList) : Kept (s.set i after) := by
  have inside := kept.lt_channelNum there holds
  have same : s.modify chan id = s := by
    rw [modify_of_lt inside, id, Function.update_eq_self]
  rw [← same]
  refine kept.move there holds holds' (fun _ => rfl) ?_
  rwa [id, Function.update_eq_self]

/-- A transfer ends and its channel is marked vacant. -/
theorem Kept.release (kept : Kept s) (there : s.transfers[i]? = some before)
    (holds : before.holds = some chan) :
    Kept ((dmacFreeChannel chan s).set i (.ended (some chan))) := by
  have inside := kept.lt_channelNum there holds
  have occupied := kept.occupied there holds
  rw [dmacFreeChannel, modify_of_lt inside]
  refine ⟨kept.inside, fun transfer member c held => ?_, fun c lt => ?_,
    fun j transfer there' => ?_, fun c lt vacancy => ?_, fun c => ?_⟩
  · rcases mem_set_cases member with rfl | old
    · cases held
    · exact kept.granted transfer old c held
  · have counted := holders_set (.ended (some chan)) there c
    have owners := kept.owners c lt
    have none : (Transfer.ended (some chan)).holds ≠ some c := by simp [Transfer.holds]
    rw [holds, if_neg none] at counted
    by_cases same : c = chan
    · subst same
      rw [occupied] at owners
      rw [if_pos rfl] at counted
      simp only [State.set, Function.update_self, if_true]
      exact Nat.add_right_cancel (counted.trans owners)
    · rw [if_neg fun eq => same (Option.some.inj eq).symm] at counted
      simp only [State.set, Function.update_of_ne same]
      exact counted.trans owners
  · rcases (getElem?_set_iff there).mp there' with ⟨-, rfl⟩ | ⟨other, old⟩
    · trivial
    · refine (kept.known j transfer old).congr fun c held => Function.update_of_ne ?_ _ _
      rintro rfl
      exact kept.exclusive other.symm there old holds held
  · by_cases same : c = chan
    · subst same
      simp [State.set]
    · simp only [State.set, Function.update_of_ne same] at vacancy ⊢
      exact kept.bare c lt vacancy
  · have counted := count_set (.ended (some chan)) there (.ended (some c))
    have unended : before ≠ .ended (some c) := by
      rintro rfl
      cases holds
    rw [if_neg unended, Nat.add_zero] at counted
    simp only [State.set, List.count_append, List.count_singleton, kept.once c, beq_iff_eq]
    simpa only [Transfer.ended.injEq, Option.some.injEq] using counted.symm

/-! ### Requests -/

theorem Kept.begin (kept : Kept s) {msg : DmacMsg}
    (orderly : msg.transType = typeP2m ∨ msg.transType = typeM2p →
      msg.srcAddr ≠ 0 ∨ msg.destAddr ≠ 0) :
    Kept (dmaCntlrTransfer msg s) := by
  rw [dmaCntlrTransfer]
  split
  · rename_i type
    have addressed : msg.Addressed := (or_assoc.mpr type).elim (.inr ∘ orderly) .inl
    refine ⟨kept.inside, fun transfer member c held => ?_, fun c lt => ?_,
      fun j transfer there' => ?_, kept.bare, fun c => ?_⟩
    · rcases List.mem_append.mp member with old | new
      · exact kept.granted transfer old c held
      · cases List.mem_singleton.mp new
        cases held
    · refine (countP_append_singleton _ _).trans ?_
      simp only [Transfer.holds, reduceCtorEq, decide_false, Bool.false_eq_true, if_false]
      exact kept.owners c lt
    · rcases getElem?_append_singleton_iff.mp there' with old | ⟨-, rfl⟩
      · exact kept.known j transfer old
      · exact addressed
    · simp only [List.count_append, List.count_singleton, kept.once c, beq_iff_eq, reduceCtorEq,
        if_false, Nat.add_zero]
  · exact kept

theorem Kept.allocate (kept : Kept s) {msg : DmacMsg}
    (there : s.transfers[i]? = some (.requests msg))
    (vacancy : ∃ c < s.channelNum, (s.channelList c).vacant = true) :
    Kept ((dmacAllocateChannel s).2.set i (.requested msg (dmacAllocateChannel s).1)) := by
  rw [dmacAllocateChannel]
  split
  · rename_i chan found
    have inside : chan < s.channelNum := List.mem_range.mp (List.mem_of_find?_eq_some found)
    have vacant : (s.channelList chan).vacant = true := List.find?_some
      (p := fun i => (s.channelList i).vacant) found
    dsimp only
    rw [modify_of_lt inside]
    have unheld : holders s.transfers chan = 0 := by
      rw [kept.owners chan inside, if_pos vacant]
    refine ⟨kept.inside, fun transfer member c held => ?_, fun c lt => ?_,
      fun j transfer there' => ?_, fun c lt vacancy => ?_, fun c => ?_⟩
    · rcases mem_set_cases member with rfl | old
      · cases held
        exact inside
      · exact kept.granted transfer old c held
    · have counted := holders_set (.requested msg chan) there c
      have none : (Transfer.requests msg).holds ≠ some c := by simp [Transfer.holds]
      have some : (Transfer.requested msg chan).holds = some chan := rfl
      rw [if_neg none, some] at counted
      by_cases same : c = chan
      · subst same
        rw [unheld, if_pos rfl] at counted
        simp only [State.set, Function.update_self]
        exact counted
      · rw [if_neg fun eq => same (Option.some.inj eq).symm] at counted
        simp only [State.set, Function.update_of_ne same]
        exact counted.trans (kept.owners c lt)
    · rcases (getElem?_set_iff there).mp there' with ⟨-, rfl⟩ | ⟨other, old⟩
      · exact kept.known i _ there
      · refine (kept.known j transfer old).congr fun c held => Function.update_of_ne ?_ _ _
        rintro rfl
        exact List.countP_eq_zero.mp unheld transfer (List.mem_of_getElem? old)
          (decide_eq_true held)
    · by_cases same : c = chan
      · subst same
        simp [State.set] at vacancy
      · simp only [State.set, Function.update_of_ne same] at vacancy ⊢
        exact kept.bare c lt vacancy
    · have counted := count_set (.requested msg chan) there (.ended (some c))
      rw [if_neg (by simp), if_neg (by simp)] at counted
      exact (kept.once c).trans counted.symm
  · rename_i none
    obtain ⟨c, lt, vacant⟩ := vacancy
    exact absurd vacant (List.find?_eq_none.mp none c (List.mem_range.mpr lt))

/-! ### Interrupts -/

theorem Kept.isrChannel (kept : Kept s) {status : ℕ → ChanStatus} {c : ℕ}
    (running : status c ≠ .other → .runs c ∈ s.transfers) : Kept (isrChannel status s c) := by
  rw [Dmac.isrChannel]
  split
  · exact kept
  · rename_i told
    have there := List.getElem?_idxOf (running told)
    obtain ⟨channel, peripheral⟩ := kept.known _ _ there
    have silent : dmacCallbackHandle (status c) c s = s := by
      rw [dmacCallbackHandle, if_neg peripheral]
    have inside := kept.lt_channelNum there rfl
    have released := kept.release there rfl
    rw [dmacFreeChannel, modify_of_lt inside] at released
    rw [silent, channel, dmacFreeChannel, modify_of_lt (s := s.finish c) inside]
    exact released

/-- What is left of the transfers that run after an interrupt has been handled for a channel. -/
theorem Kept.runs_isrChannel (kept : Kept s) {status : ℕ → ChanStatus} {c c' : ℕ}
    (running : status c ≠ .other → .runs c ∈ s.transfers) (other : c' ≠ c)
    (runs : .runs c' ∈ s.transfers) : .runs c' ∈ (Dmac.isrChannel status s c).transfers := by
  rw [Dmac.isrChannel]
  split
  · exact runs
  · rename_i told
    have there := List.getElem?_idxOf (running told)
    obtain ⟨channel, peripheral⟩ := kept.known _ _ there
    have silent : dmacCallbackHandle (status c) c s = s := by
      rw [dmacCallbackHandle, if_neg peripheral]
    have inside := kept.lt_channelNum there rfl
    obtain ⟨j, there'⟩ := List.getElem?_of_mem runs
    rw [silent, channel, dmacFreeChannel, modify_of_lt (s := s.finish c) inside]
    refine List.mem_of_getElem? ((getElem?_set_iff there).mpr (.inr ⟨?_, there'⟩))
    rintro rfl
    cases there.symm.trans there'
    exact other rfl

theorem Kept.dmacIsr (kept : Kept s) {status : ℕ → ChanStatus}
    (running : ∀ c < s.channelNum, status c ≠ .other → .runs c ∈ s.transfers) :
    Kept (dmacIsr status s) := by
  have all (list : List ℕ) (distinct : list.Nodup) : ∀ s, Kept s →
      (∀ c ∈ list, status c ≠ .other → .runs c ∈ s.transfers) →
        Kept (list.foldl (Dmac.isrChannel status) s) := by
    induction list with
    | nil => exact fun s kept _ => kept
    | cons c rest ih =>
      intro s kept running
      have first := running c List.mem_cons_self
      obtain ⟨fresh, distinct⟩ := List.nodup_cons.mp distinct
      refine ih distinct _ (kept.isrChannel first) fun c' member told => ?_
      refine kept.runs_isrChannel first ?_ (running c' (List.mem_cons_of_mem _ member) told)
      rintro rfl
      exact fresh member
  exact all _ List.nodup_range s kept fun c member => running c (List.mem_range.mp member)

/-! ### Steps of a transfer -/

theorem Kept.prepare (kept : Kept s) {msg : DmacMsg} {answer : Answer}
    (there : s.transfers[i]? = some (.prepares msg chan))
    (stepped : Dmac.advance i answer s = some t) : Kept t := by
  obtain ⟨addressed, channel, type⟩ := kept.known i _ there
  rw [Dmac.advance, there] at stepped
  dsimp only at stepped
  split at stepped
  · cases stepped
    exact kept.pass there rfl rfl trivial
  · rename_i peripheral
    split at stepped
    · rename_i empty
      exact absurd addressed (by simp [DmacMsg.Addressed, peripheral, empty])
    · split at stepped
      · cases stepped
        exact kept.pass there rfl rfl trivial
      · cases stepped
        refine kept.move there rfl rfl (fun _ => rfl) ?_
        rw [Transfer.Known, Function.update_self]
        exact ⟨channel, type ▸ peripheral⟩

theorem Kept.advance (kept : Kept s) {answer : Answer} (orderly : Orderly (.advance i answer) s)
    (stepped : Dmac.advance i answer s = some t) : Kept t := by
  cases there : s.transfers[i]? with
  | none =>
    rw [Dmac.advance, there] at stepped
    cases stepped
  | some transfer =>
    have known := kept.known i transfer there
    cases transfer with
    | prepares msg chan => exact kept.prepare there stepped
    | requests msg =>
      rw [Dmac.advance, there] at stepped
      cases stepped
      exact kept.allocate there (orderly (by rw [there]; rfl))
    | requested msg chan =>
      rw [Dmac.advance, there] at stepped
      cases stepped
      cases answer.ok with
      | true =>
        refine kept.move there rfl rfl (fun _ => rfl) ?_
        rw [if_pos rfl, Transfer.Known, Function.update_self]
        exact ⟨known, rfl, rfl⟩
      | false => exact kept.move there rfl rfl (fun _ => rfl) trivial
    | fills msg chan =>
      rw [Dmac.advance, there] at stepped
      dsimp only at stepped
      split at stepped
      · cases stepped
        exact kept.pass there rfl rfl known
      · cases stepped
        exact kept.move there rfl rfl (fun _ => rfl) trivial
    | enables chan =>
      rw [Dmac.advance, there] at stepped
      dsimp only at stepped
      split at stepped
      · cases stepped
        exact kept.pass there rfl rfl known
      · cases stepped
        exact kept.move there rfl rfl (fun _ => rfl) trivial
    | sends chan leftSize =>
      rw [Dmac.advance, there] at stepped
      dsimp only at stepped
      split at stepped
      · cases stepped
        exact kept.pass there rfl rfl trivial
      · split at stepped
        · cases stepped
          exact kept.pass there rfl rfl trivial
        · cases stepped
          exact kept.pass there rfl rfl trivial
    | waits chan leftSize =>
      rw [Dmac.advance, there] at stepped
      dsimp only at stepped
      split at stepped
      · cases stepped
        split
        · exact kept.move there rfl rfl (fun _ => rfl) trivial
        · exact kept.move there rfl rfl (fun _ => rfl) trivial
      · cases stepped
    | frees chan =>
      rw [Dmac.advance, there] at stepped
      cases stepped
      exact kept.release there rfl
    | runs chan | ended chan =>
      rw [Dmac.advance, there] at stepped
      cases stepped

theorem Kept.timeout (kept : Kept s) (stepped : Dmac.timeout i s = some t) : Kept t := by
  rw [Dmac.timeout] at stepped
  split at stepped
  · rename_i there
    cases stepped
    exact kept.pass there rfl rfl trivial
  · cases stepped

/-- What a step keeps. -/
theorem Kept.step (kept : Kept s) {action : Action} (orderly : Orderly action s)
    (stepped : Dmac.step action s = some t) : Kept t := by
  cases action with
  | transfer msg =>
    cases stepped
    exact kept.begin orderly
  | advance i answer => exact kept.advance orderly stepped
  | timeout i => exact kept.timeout stepped
  | isr status =>
    cases stepped
    exact kept.dmacIsr orderly

theorem Kept.oneOwner (kept : Kept s) : OneOwner s where
  inside := kept.inside
  granted := kept.granted
  exclusive _ _ _ _ differs there there' _ holds := kept.exclusive differs there there' holds
  once := kept.once
  rest finished c lt := by
    have nobody : holders s.transfers c = 0 := by
      refine List.countP_eq_zero.mpr fun transfer member holds => ?_
      have ends := finished transfer member
      cases transfer with
      | ended chan => cases of_decide_eq_true holds
      | requests | requested | prepares | fills | enables | runs | sends | waits | frees =>
        cases ends
    have vacant : (s.channelList c).vacant = true := by
      have owners := kept.owners c lt
      rw [nobody] at owners
      by_contra occupied
      rw [if_neg occupied] at owners
      cases owners
    exact ⟨vacant, kept.bare c lt vacant⟩

/-- Channels have one owner if all steps are orderly. -/
theorem oneOwner_of_runs {maxTransSize channelNum : ℕ} {actions : List Action}
    (orderly : Meets Dmac.step Orderly (added maxTransSize channelNum) actions)
    (ran : runs Dmac.step (added maxTransSize channelNum) actions = some s) : OneOwner s :=
  (runs_invariant (fun _ _ _ kept orderly stepped => kept.step orderly stepped)
    (Kept.added maxTransSize channelNum) orderly ran).oneOwner

end

/-! ### Some runs -/

/-- The callbacks and allocations succeed. -/
def fine : Answer := ⟨true, 4, 4⟩

/-- A transfer from a peripheral to memory. -/
def fromPeriph : DmacMsg := ⟨0, 0x1000, typeP2m, 64⟩

/-- A transfer in memory. -/
def inMemory : DmacMsg := ⟨0x1000, 0x2000, typeM2m, 64⟩

/-- The interrupt handler hears of one channel. -/
def tells (chan i : ℕ) : ChanStatus := if i = chan then .success else .other

/-- Two transfers on two channels, one of which ends with an interrupt and the other one because
it waits too long. -/
def orderlyRun : List Action :=
  [.transfer fromPeriph, .transfer inMemory] ++ List.replicate 5 (.advance 0 fine) ++
    List.replicate 4 (.advance 1 fine) ++ [.isr (tells 0), .timeout 1, .advance 1 fine]

theorem oneOwner_orderlyRun : ∃ s, runs step (added 4096 2) orderlyRun = some s ∧ OneOwner s ∧
    s.transfers = [.ended (some 0), .ended (some 1)] ∧ s.vacated = [0, 1] :=
  ⟨_, rfl, @oneOwner_of_runs _ 4096 2 orderlyRun (by decide) rfl, rfl, rfl⟩

/-- A transfer in memory is done, and the next one gets its channel before it frees it. -/
def handedOver : List Action :=
  .transfer inMemory :: List.replicate 4 (.advance 0 fine) ++
    [.isr (tells 0), .transfer fromPeriph, .advance 1 fine]

/-- The only channel is in use when another transfer requests one. -/
def crowded : List Action :=
  [.transfer fromPeriph, .transfer fromPeriph, .advance 0 fine, .advance 1 fine, .advance 1 fine]

/-- A transfer with a peripheral that has no address at all. -/
def nowhere : List Action :=
  .transfer ⟨0, 0, typeP2m, 64⟩ :: List.replicate 3 (.advance 0 fine)

/-- Two transfers have one channel, which is marked vacant before the first one has ended; a
channel behind the last one is used; and a channel stays allocated. -/
theorem shares_channel :
    (∃ s, runs step (added 4096 1) handedOver = some s ∧ s.transfers =
      [.waits 0 64, .requested fromPeriph 0] ∧ s.vacated = [0]) ∧
    (∃ s, runs step (added 4096 1) crowded = some s ∧ s.overrun = true) ∧
    ∃ s, runs step (added 4096 1) nowhere = some s ∧ s.transfers = [.ended (some 0)] ∧
      (s.channelList 0).vacant = false :=
  ⟨⟨_, rfl, rfl, rfl⟩, ⟨_, rfl, rfl⟩, _, rfl, rfl, rfl⟩

end Hdf.Platform.Dmac
