import Mathlib.Data.Nat.Notation
import Mathlib.Logic.Function.Basic

/-!
# Interrupt records of a pin

A pin has at most one interrupt record. A record whose handler runs in a thread of its
own is reached from the pin, from the call that sets or unsets the interrupt, and from
its thread, which frees it: the call that gives the record up marks it as removed and
posts its semaphore for the last time, all under the lock of the record, and the thread
takes and releases that lock before it destroys anything.

Calls and records are numbered in the order in which they begin. A section under the lock
of the pin is a step, and so is every operation on a semaphore, a lock or a thread of a
record and every look at a record. What the functions called from a step answer is given
with the step.
-/

namespace Hdf.Platform.GpioIrq

/-- Who has posted a semaphore: a callback, or the call that has given the record up. -/
inductive Post where
  | callback (i : ℕ)
  | last
  deriving DecidableEq, Repr

/-- What the thread of a record does next. -/
inductive ThreadStep where
  | unstarted
  | waits
  | reads (got : Option Post)
  | handles (post : Post)
  | returns
  | locks
  | unlocks
  | destroysSem
  | destroysSpin
  | destroysThread
  | frees
  | exited
  deriving DecidableEq, Repr

/-- `struct GpioIrqRecord`. The lock is held or not, the semaphore has its posts; they are `none`
where they have not been made or have been destroyed. -/
structure GpioIrqRecord where
  irqFunc : Option ℕ
  btmFunc : Option ℕ
  irqData : ℕ
  spin : Option Bool
  sem : Option (List Post)
  thread : ThreadStep
  removed : Bool
  freed : Bool
  deriving DecidableEq, Repr

/-- `GPIO_IRQ_USING_THREAD`. -/
def gpioIrqUsingThread : UInt16 := 0x100

/-- The record that `GpioIrqRecordCreate` allocates. -/
def gpioIrqRecordCreate (mode : UInt16) (func arg : ℕ) : GpioIrqRecord where
  irqFunc := if mode &&& gpioIrqUsingThread = 0 then some func else none
  btmFunc := if mode &&& gpioIrqUsingThread ≠ 0 then some func else none
  irqData := arg
  spin := none
  sem := none
  thread := .unstarted
  removed := false
  freed := false

namespace GpioIrqRecord

/-- `OsalSemPost`. -/
def osalSemPost (post : Post) (irqRecord : GpioIrqRecord) : GpioIrqRecord :=
  { irqRecord with sem := irqRecord.sem.map (· ++ [post]) }

/-- `OsalSpinLockIrqSave` leaves a lock alone that has not been made, and waits for one that
is held. -/
def osalSpinLockIrqSave (irqRecord : GpioIrqRecord) : Option GpioIrqRecord :=
  match irqRecord.spin with
  | none => some irqRecord
  | some false => some { irqRecord with spin := some true }
  | some true => none

/-- `OsalSpinUnlockIrqRestore`. -/
def osalSpinUnlockIrqRestore (irqRecord : GpioIrqRecord) : GpioIrqRecord :=
  { irqRecord with spin := irqRecord.spin.map fun _ => false }

/-- What the thread does next. -/
def goes (irqRecord : GpioIrqRecord) (thread : ThreadStep) : GpioIrqRecord :=
  { irqRecord with thread := thread }

/-- `OsalSemWait`, which takes a post or fails; a semaphore without a post makes it wait. -/
def osalSemWait (got : Option ℕ) (irqRecord : GpioIrqRecord) : Option GpioIrqRecord :=
  match got with
  | none => some (irqRecord.goes (.reads none))
  | some k => do
    let posts ← irqRecord.sem
    let post ← posts[k]?
    return { irqRecord with sem := some (posts.eraseIdx k) }.goes (.reads (some post))

/-- A step of `GpioCntlrIrqThreadHandler`; `got` is the post that a wait takes. -/
def gpioCntlrIrqThreadHandler (got : Option ℕ) (irqRecord : GpioIrqRecord) :
    Option GpioIrqRecord :=
  match irqRecord.thread with
  | .unstarted | .exited => none
  | .waits => irqRecord.osalSemWait got
  | .reads got =>
    some <| irqRecord.goes <|
      if irqRecord.removed then .locks
      else match got with
        | none => .waits
        | some post => .handles post
  | .handles _ => some (irqRecord.goes (if irqRecord.btmFunc = none then .waits else .returns))
  | .returns => some (irqRecord.goes .waits)
  | .locks => irqRecord.osalSpinLockIrqSave.map (·.goes .unlocks)
  | .unlocks => some (irqRecord.osalSpinUnlockIrqRestore.goes .destroysSem)
  | .destroysSem => some ({ irqRecord with sem := none }.goes .destroysSpin)
  | .destroysSpin => some ({ irqRecord with spin := none }.goes .destroysThread)
  | .destroysThread => some (irqRecord.goes .frees)
  | .frees => some ({ irqRecord with freed := true }.goes .exited)

end GpioIrqRecord

/-- What a call does next. The last steps are those of `GpioIrqRecordDestroy`, in a call that
unsets the interrupt or in one that has not set it. -/
inductive Call where
  | creates (mode : UInt16) (func arg : ℕ)
  | createsThread (r : ℕ)
  | inits (r : ℕ)
  | starts (r : ℕ)
  | unwinds (r : ℕ)
  | attaches (r : ℕ)
  | triggers
  | detaches (arg : ℕ)
  | destroys (r : ℕ) (unsets : Bool)
  | locks (r : ℕ) (unsets : Bool)
  | removes (r : ℕ) (unsets : Bool)
  | posts (r : ℕ) (unsets : Bool)
  | unlocks (r : ℕ) (unsets : Bool)
  | frees (r : ℕ) (unsets : Bool)
  | returned
  deriving DecidableEq, Repr

/-- The record that a call alone has. -/
def Call.holds : Call → Option ℕ
  | creates _ _ _ | triggers | detaches _ | returned => none
  | createsThread r | inits r | starts r | unwinds r | attaches r => some r
  | destroys r _ | locks r _ | removes r _ | posts r _ | unlocks r _ | frees r _ => some r

/-- What is noted: calls that begin, records that are attached, detached and freed, calls that
return after they have unset the interrupt, and handlers that start for a callback. -/
inductive Event where
  | begins (i : ℕ)
  | attaches (r : ℕ)
  | detaches (r : ℕ)
  | frees (r : ℕ)
  | unsets (r : ℕ)
  | handles (r i : ℕ)
  deriving DecidableEq, Repr

/-- A pin, the records and the calls. The newest event comes first in the history; `touched` is
set by a step that uses a record after it has been freed. -/
structure State where
  irqRecord : Option ℕ
  records : ℕ → GpioIrqRecord
  allocated : ℕ
  calls : ℕ → Call
  begun : ℕ
  history : List Event
  touched : Bool

/-- A pin without an interrupt, before any call. -/
def init : State where
  irqRecord := none
  records _ := gpioIrqRecordCreate 0 0 0
  allocated := 0
  calls _ := .returned
  begun := 0
  history := []
  touched := false

namespace State

/-- A step uses a record. -/
def uses (s : State) (r : ℕ) (irqRecord : GpioIrqRecord) : State :=
  { s with
    records := Function.update s.records r irqRecord
    touched := s.touched || (s.records r).freed }

/-- A step only looks at a record. -/
def looks (s : State) (r : ℕ) : State :=
  s.uses r (s.records r)

/-- A call goes on. -/
def goes (s : State) (i : ℕ) (call : Call) : State :=
  { s with calls := Function.update s.calls i call }

/-- Something is noted. -/
def notes (s : State) (event : Event) : State :=
  { s with history := event :: s.history }

/-- A call returns that has given a record up. -/
def returns (s : State) (i r : ℕ) (unsets : Bool) : State :=
  if unsets then (s.goes i .returned).notes (.unsets r) else s.goes i .returned

@[simp] theorem uses_records (s : State) (r : ℕ) (irqRecord : GpioIrqRecord) :
    (s.uses r irqRecord).records = Function.update s.records r irqRecord := rfl

@[simp] theorem goes_calls (s : State) (i : ℕ) (call : Call) :
    (s.goes i call).calls = Function.update s.calls i call := rfl

@[simp] theorem goes_records (s : State) (i : ℕ) (call : Call) :
    (s.goes i call).records = s.records := rfl

@[simp] theorem notes_history (s : State) (event : Event) :
    (s.notes event).history = event :: s.history := rfl

/-- `GpioIrqRecordTrigger`, in the callback `i`. -/
def gpioIrqRecordTrigger (s : State) (r i : ℕ) : State :=
  let handled := if (s.records r).irqFunc = none then s else s.notes (.handles r i)
  if (s.records r).btmFunc = none then handled.looks r
  else handled.uses r ((s.records r).osalSemPost (.callback i))

end State

/-- A step of a call; `ok` and `ok'` are what the functions answer that it calls. -/
def stepCall (s : State) (i : ℕ) (ok ok' : Bool) : Call → Option State
  -- `GpioIrqRecordCreate`
  | .creates mode func arg =>
    let r := s.allocated
    let irqRecord := gpioIrqRecordCreate mode func arg
    if ok then
      some <| { s with
        records := Function.update s.records r irqRecord
        allocated := r + 1 }.goes i
          (if irqRecord.btmFunc = none then .attaches r else .createsThread r)
    else some (s.goes i .returned)
  | .createsThread r => some ((s.looks r).goes i (if ok then .inits r else .frees r false))
  | .inits r =>
    let irqRecord := { s.records r with
      spin := if ok then some false else none
      sem := if ok' then some [] else none }
    some ((s.uses r irqRecord).goes i (.starts r))
  | .starts r =>
    if ok then some ((s.uses r ((s.records r).goes .waits)).goes i (.attaches r))
    else some ((s.looks r).goes i (.unwinds r))
  | .unwinds r =>
    let irqRecord := { s.records r with spin := none, sem := none }
    some ((s.uses r irqRecord).goes i (.frees r false))
  -- `GpioCntlrSetIrqInner`
  | .attaches r =>
    match s.irqRecord with
    | some _ => some (s.goes i (.destroys r false))
    | none =>
      if ok then
        some (({ s.looks r with irqRecord := some r }.goes i .returned).notes (.attaches r))
      else some ((s.looks r).goes i (.destroys r false))
  -- `GpioCntlrIrqCallback`
  | .triggers =>
    match s.irqRecord with
    | none => some (s.goes i .returned)
    | some r => some ((s.gpioIrqRecordTrigger r i).goes i .returned)
  -- `GpioCntlrUnsetIrq`
  | .detaches arg =>
    match s.irqRecord with
    | none => some (s.goes i .returned)
    | some r =>
      if arg = (s.records r).irqData ∧ ok then
        some (({ s.looks r with irqRecord := none }.goes i (.destroys r true)).notes (.detaches r))
      else some ((s.looks r).goes i .returned)
  -- `GpioIrqRecordDestroy`
  | .destroys r unsets =>
    some <| (s.looks r).goes i <|
      if (s.records r).btmFunc = none then .frees r unsets else .locks r unsets
  | .locks r unsets =>
    (s.records r).osalSpinLockIrqSave.map fun irqRecord =>
      (s.uses r irqRecord).goes i (.removes r unsets)
  | .removes r unsets =>
    some ((s.uses r { s.records r with removed := true }).goes i (.posts r unsets))
  | .posts r unsets =>
    some ((s.uses r ((s.records r).osalSemPost .last)).goes i (.unlocks r unsets))
  | .unlocks r unsets =>
    some ((s.uses r (s.records r).osalSpinUnlockIrqRestore).returns i r unsets)
  | .frees r unsets =>
    some (((s.uses r { s.records r with freed := true }).notes (.frees r)).returns i r unsets)
  | .returned => none

/-- A step of the thread of a record. -/
def stepThread (s : State) (r : ℕ) (got : Option ℕ) : Option State :=
  ((s.records r).gpioCntlrIrqThreadHandler got).map fun irqRecord =>
    match (s.records r).thread with
    | .handles (.callback i) =>
      if irqRecord.thread = .returns then (s.uses r irqRecord).notes (.handles r i)
      else s.uses r irqRecord
    | .frees => (s.uses r irqRecord).notes (.frees r)
    -- the handler returns without a look at the record
    | .returns => { s with records := Function.update s.records r irqRecord }
    | _ => s.uses r irqRecord

/-- A step: a call begins, a call goes on, or a thread goes on. -/
inductive Action where
  | gpioCntlrSetIrq (mode : UInt16) (func arg : ℕ)
  | gpioCntlrUnsetIrq (arg : ℕ)
  | gpioCntlrIrqCallback
  | call (i : ℕ) (ok ok' : Bool)
  | thread (r : ℕ) (got : Option ℕ)
  deriving DecidableEq, Repr

/-- A call begins. -/
def State.begins (s : State) (call : Call) : State :=
  { s with begun := s.begun + 1 }.goes s.begun call |>.notes (.begins s.begun)

/-- What happens next. -/
def step (action : Action) (s : State) : Option State :=
  match action with
  | .gpioCntlrSetIrq mode func arg => some (s.begins (.creates mode func arg))
  | .gpioCntlrUnsetIrq arg => some (s.begins (.detaches arg))
  | .gpioCntlrIrqCallback => some (s.begins .triggers)
  | .call i ok ok' => stepCall s i ok ok' (s.calls i)
  | .thread r got => stepThread s r got

end Hdf.Platform.GpioIrq
