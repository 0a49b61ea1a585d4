import Hdf.Lib.Ownership
import Hdf.Platform.GpioIrq

/-!
# What holds of interrupt records

A record is held by the call that makes it or gives it up, or it is attached to the
pin, or nobody has it but its thread. Each step of a call and of a thread keeps what
holds of a record at its place. All this is said once, in the form of what a step can
do.

## Main definitions

* `Sound`: the records are where they belong and as they should be there
* `Change`: what a step can do

## Main results

* `change_of_step`: a step does one of these things if every lock can be made
* `Change.sound`: they keep the records sound
-/

namespace Hdf.Platform.GpioIrq

/-! ### What holds of a record wherever it is -/

/-- The thread may still start a handler. -/
def ThreadStep.Working : ThreadStep → Prop
  | waits | reads _ | handles _ | returns => True
  | _ => False

namespace GpioIrqRecord

variable (irqRecord : GpioIrqRecord)

/-- The record belongs to the call that makes it. -/
def New : Prop :=
  irqRecord.freed = false ∧ irqRecord.removed = false ∧ irqRecord.thread = .unstarted

/-- The record can be triggered: it has no thread, or its thread works and its lock is free. -/
def Live : Prop :=
  irqRecord.freed = false ∧ irqRecord.removed = false ∧
    if irqRecord.btmFunc = none then irqRecord.thread = .unstarted
    else irqRecord.spin = some false ∧ irqRecord.thread.Working

/-- The last post is there, or the thread does not need it. -/
def Posted : Prop := ∀ posts, irqRecord.sem = some posts → .last ∈ posts

/-- A call holds the lock and has marked the record. -/
def Removed : Prop :=
  irqRecord.freed = false ∧ irqRecord.removed = true ∧ irqRecord.spin = some true ∧
    (irqRecord.thread.Working ∨ irqRecord.thread = .locks)

/-- The thread is on its way out. -/
def Leaving : Prop :=
  match irqRecord.thread with
  | .waits | .handles _ | .returns => irqRecord.spin = some false ∧ irqRecord.Posted
  | .reads _ | .locks => irqRecord.spin = some false
  | .unlocks => irqRecord.spin = some true
  | .destroysSem | .destroysSpin | .destroysThread | .frees => True
  | .unstarted | .exited => False

/-- Nobody has the record but its thread. -/
def Loose : Prop :=
  irqRecord.freed = true ∧ (irqRecord.thread = .unstarted ∨ irqRecord.thread = .exited) ∨
    irqRecord.freed = false ∧ irqRecord.removed = true ∧ irqRecord.Leaving

end GpioIrqRecord

/-- What holds of the record of a call. -/
def Call.Fits (irqRecord : GpioIrqRecord) : Call → Prop
  | createsThread _ | inits _ => irqRecord.New ∧ irqRecord.btmFunc ≠ none
  | starts _ => irqRecord.New ∧ irqRecord.btmFunc ≠ none ∧ irqRecord.spin = some false
  | unwinds _ => irqRecord.New
  | attaches _ | destroys _ _ => irqRecord.Live
  | locks _ _ => irqRecord.Live ∧ irqRecord.btmFunc ≠ none
  | removes _ _ => irqRecord.freed = false ∧ irqRecord.removed = false ∧
      irqRecord.spin = some true ∧ irqRecord.thread.Working
  | posts _ _ => irqRecord.Removed
  | unlocks _ _ => irqRecord.Removed ∧
      (irqRecord.Posted ∨ irqRecord.thread = .locks ∨ ∃ got, irqRecord.thread = .reads got)
  | frees _ _ => irqRecord.freed = false ∧ irqRecord.thread = .unstarted
  | creates _ _ _ | triggers | detaches _ | returned => True

/-- What holds of a record at its place. -/
def Fits (calls : ℕ → Call) (irqRecord : GpioIrqRecord) : Place ℕ → Prop
  | .absent => irqRecord.freed = false ∧ irqRecord.thread = .unstarted ∧ irqRecord.sem = none
  | .held i => (calls i).Fits irqRecord
  | .shared => irqRecord.Live
  | .loose => irqRecord.Loose

/-- The records are where they belong and as they should be there. -/
structure Sound (place : ℕ → Place ℕ) (s : State) : Prop where
  owns : Owns (Call.holds ∘ s.calls) s.irqRecord s.allocated place
  fits : ∀ r, Fits s.calls (s.records r) (place r)
  future : ∀ i, s.begun ≤ i → s.calls i = .returned
  untouched : s.touched = false

/-! ### Steps of a thread -/

section Thread

variable {irqRecord irqRecord' : GpioIrqRecord} {got : Option ℕ} {call : Call}

namespace GpioIrqRecord

/-- What a wait leaves. -/
theorem osalSemWait_cases (waited : irqRecord.osalSemWait got = some irqRecord') :
    irqRecord' = irqRecord.goes (.reads none) ∨
      ∃ posts post k, irqRecord.sem = some posts ∧ posts[k]? = some post ∧
        irqRecord' =
          { irqRecord with sem := some (posts.eraseIdx k) }.goes (.reads (some post)) := by
  cases got with
  | none => exact .inl (Option.some.inj waited).symm
  | some k =>
    obtain ⟨posts, made, waited⟩ := Option.bind_eq_some_iff.mp waited
    obtain ⟨post, there, waited⟩ := Option.bind_eq_some_iff.mp waited
    exact .inr ⟨posts, post, k, made, there, (Option.some.inj waited).symm⟩

/-- Until it looks at the mark, the thread leaves the record as it is, but for the posts. -/
theorem working_step (working : irqRecord.thread.Working)
    (stepped : irqRecord.gpioCntlrIrqThreadHandler got = some irqRecord') :
    ∃ sem thread, irqRecord' = { irqRecord with sem := sem, thread := thread } ∧
      (thread.Working ∨ irqRecord.removed = true ∧ thread = .locks) ∧
      (sem = irqRecord.sem ∨ ∃ got, thread = .reads got) ∧
      ((∃ got, irqRecord.thread = .reads got) → irqRecord.removed = true → thread = .locks) := by
  rw [gpioCntlrIrqThreadHandler] at stepped
  cases doing : irqRecord.thread with
  | waits =>
    rw [doing] at stepped
    obtain rfl | ⟨posts, post, k, -, -, rfl⟩ := osalSemWait_cases stepped
    · exact ⟨_, _, rfl, .inl trivial, .inl rfl, by simp⟩
    · exact ⟨_, _, rfl, .inl trivial, .inr ⟨_, rfl⟩, by simp⟩
  | reads got =>
    rw [doing] at stepped
    obtain rfl := Option.some.inj stepped
    refine ⟨_, _, rfl, ?_, .inl rfl, fun _ removed => if_pos removed⟩
    cases irqRecord.removed with
    | true => exact .inr ⟨rfl, rfl⟩
    | false => cases got <;> exact .inl trivial
  | handles post =>
    rw [doing] at stepped
    obtain rfl := Option.some.inj stepped
    refine ⟨_, _, rfl, .inl ?_, .inl rfl, by simp⟩
    split_ifs <;> trivial
  | returns =>
    rw [doing] at stepped
    obtain rfl := Option.some.inj stepped
    exact ⟨_, _, rfl, .inl trivial, .inl rfl, by simp⟩
  | unstarted | locks | unlocks | destroysSem | destroysSpin | destroysThread | frees | exited =>
    rw [doing] at working
    exact working.elim

theorem Live.thread (live : irqRecord.Live)
    (stepped : irqRecord.gpioCntlrIrqThreadHandler got = some irqRecord') : irqRecord'.Live := by
  obtain ⟨used, kept, started⟩ := live
  split_ifs at started with threadless
  · simp [gpioCntlrIrqThreadHandler, started] at stepped
  · obtain ⟨sem, thread, rfl, working | ⟨removed, -⟩, -⟩ := working_step started.2 stepped
    · exact ⟨used, kept, by rw [if_neg threadless]; exact ⟨started.1, working⟩⟩
    · rw [kept] at removed
      exact absurd removed Bool.false_ne_true

theorem Removed.thread (removed : irqRecord.Removed)
    (stepped : irqRecord.gpioCntlrIrqThreadHandler got = some irqRecord') :
    irqRecord'.Removed := by
  obtain ⟨used, marked, held, working | locks⟩ := removed
  · obtain ⟨sem, thread, rfl, working | ⟨-, rfl⟩, -⟩ := working_step working stepped
    · exact ⟨used, marked, held, .inl working⟩
    · exact ⟨used, marked, held, .inr rfl⟩
  · simp [gpioCntlrIrqThreadHandler, locks, osalSpinLockIrqSave, held] at stepped

/-- The thread goes on to the end. -/
theorem Leaving.thread (leaving : irqRecord.Leaving) (used : irqRecord.freed = false)
    (removed : irqRecord.removed = true)
    (stepped : irqRecord.gpioCntlrIrqThreadHandler got = some irqRecord') : irqRecord'.Loose := by
  rw [gpioCntlrIrqThreadHandler] at stepped
  rw [Leaving] at leaving
  cases doing : irqRecord.thread with
  | waits =>
    rw [doing] at stepped leaving
    obtain rfl | ⟨posts, post, k, -, -, rfl⟩ := osalSemWait_cases stepped
    · exact .inr ⟨used, removed, leaving.1⟩
    · exact .inr ⟨used, removed, leaving.1⟩
  | reads got =>
    rw [doing, removed] at stepped
    rw [doing] at leaving
    obtain rfl := Option.some.inj stepped
    exact .inr ⟨used, removed, leaving⟩
  | handles post =>
    rw [doing] at stepped leaving
    obtain rfl := Option.some.inj stepped
    split_ifs <;> exact .inr ⟨used, removed, leaving⟩
  | returns =>
    rw [doing] at stepped leaving
    obtain rfl := Option.some.inj stepped
    exact .inr ⟨used, removed, leaving⟩
  | locks =>
    rw [doing] at stepped leaving
    rw [osalSpinLockIrqSave, leaving] at stepped
    obtain rfl := Option.some.inj stepped
    exact .inr ⟨used, removed, rfl⟩
  | frees =>
    rw [doing] at stepped
    obtain rfl := Option.some.inj stepped
    exact .inl ⟨rfl, .inr rfl⟩
  | unlocks | destroysSem | destroysSpin | destroysThread =>
    rw [doing] at stepped
    obtain rfl := Option.some.inj stepped
    exact .inr ⟨used, removed, trivial⟩
  | unstarted | exited =>
    rw [doing] at leaving
    exact leaving.elim

theorem Loose.thread (loose : irqRecord.Loose)
    (stepped : irqRecord.gpioCntlrIrqThreadHandler got = some irqRecord') : irqRecord'.Loose := by
  obtain ⟨-, ends⟩ | ⟨used, removed, leaving⟩ := loose
  · obtain never | never := ends <;> simp [gpioCntlrIrqThreadHandler, never] at stepped
  · exact leaving.thread used removed stepped

/-- No step is that of a thread that has not been started. -/
theorem thread_unstarted (unstarted : irqRecord.thread = .unstarted) :
    irqRecord.gpioCntlrIrqThreadHandler got = none := by
  rw [gpioCntlrIrqThreadHandler, unstarted]

end GpioIrqRecord

theorem Call.Fits.thread (fits : call.Fits irqRecord)
    (stepped : irqRecord.gpioCntlrIrqThreadHandler got = some irqRecord') :
    call.Fits irqRecord' := by
  have never (unstarted : irqRecord.thread = .unstarted) : False := by
    rw [GpioIrqRecord.thread_unstarted unstarted] at stepped
    cases stepped
  cases call with
  | createsThread r | inits r => exact (never fits.1.2.2).elim
  | starts r => exact (never fits.1.2.2).elim
  | unwinds r => exact (never fits.2.2).elim
  | frees r unsets => exact (never fits.2).elim
  | attaches r | destroys r unsets => exact GpioIrqRecord.Live.thread fits stepped
  | locks r unsets =>
    obtain ⟨live, threaded⟩ := fits
    have working := live.2.2
    rw [if_neg threaded] at working
    obtain ⟨sem, thread, rfl, -⟩ := GpioIrqRecord.working_step working.2 stepped
    exact ⟨live.thread stepped, threaded⟩
  | removes r unsets =>
    obtain ⟨used, kept, held, working⟩ := fits
    obtain ⟨sem, thread, rfl, working | ⟨removed, -⟩, -⟩ :=
      GpioIrqRecord.working_step working stepped
    · exact ⟨used, kept, held, working⟩
    · rw [kept] at removed
      exact absurd removed Bool.false_ne_true
  | posts r unsets => exact GpioIrqRecord.Removed.thread fits stepped
  | unlocks r unsets =>
    obtain ⟨removed, last⟩ := fits
    refine ⟨removed.thread stepped, ?_⟩
    obtain ⟨-, marked, held, working | locks⟩ := removed
    · obtain ⟨sem, thread, rfl, -, rfl | reads, next⟩ :=
        GpioIrqRecord.working_step working stepped
      · obtain posted | locks | reads := last
        · exact .inl posted
        · rw [locks] at working
          exact working.elim
        · exact .inr (.inl (next reads marked))
      · exact .inr (.inr reads)
    · simp [GpioIrqRecord.gpioCntlrIrqThreadHandler, locks, GpioIrqRecord.osalSpinLockIrqSave,
        held] at stepped
  | creates mode func arg | triggers | detaches arg | returned => trivial

theorem Fits.thread {calls : ℕ → Call} {p : Place ℕ} (fits : Fits calls irqRecord p)
    (stepped : irqRecord.gpioCntlrIrqThreadHandler got = some irqRecord') :
    Fits calls irqRecord' p := by
  cases p with
  | absent =>
    rw [GpioIrqRecord.thread_unstarted fits.2.1] at stepped
    cases stepped
  | held i => exact Call.Fits.thread fits stepped
  | shared => exact GpioIrqRecord.Live.thread fits stepped
  | loose => exact GpioIrqRecord.Loose.thread fits stepped

end Thread

/-! ### What a step changes -/

/-- A post of a callback that is in the semaphore, or that the thread has taken out of it. -/
def GpioIrqRecord.Carries (irqRecord : GpioIrqRecord) (c : ℕ) : Prop :=
  (∃ posts, irqRecord.sem = some posts ∧ .callback c ∈ posts) ∨
    irqRecord.thread = .reads (some (.callback c)) ∨ irqRecord.thread = .handles (.callback c)

/-- What a step can do. -/
inductive Change (s : State) : State → Prop
  /-- A call begins. -/
  | begins (call : Call) (free : call.holds = none) : Change s (s.begins call)
  /-- A call returns that has no record. -/
  | returns (i : ℕ) (free : (s.calls i).holds = none) (going : s.calls i ≠ .returned) :
      Change s (s.goes i .returned)
  /-- A callback triggers the record of the pin. -/
  | triggers (i r : ℕ) (free : (s.calls i).holds = none) (going : s.calls i ≠ .returned)
      (attached : s.irqRecord = some r) :
      Change s ((s.gpioIrqRecordTrigger r i).goes i .returned)
  /-- A call makes a record. -/
  | creates (i : ℕ) (free : (s.calls i).holds = none) (going : s.calls i ≠ .returned)
      (call : Call) (irqRecord : GpioIrqRecord) (has : call.holds = some s.allocated)
      (fits : call.Fits irqRecord) (new : irqRecord.freed = false)
      (empty : ∀ c, ¬irqRecord.Carries c) :
      Change s ({ s with
        records := Function.update s.records s.allocated irqRecord
        allocated := s.allocated + 1 }.goes i call)
  /-- A call goes on with its record. -/
  | keeps (i r : ℕ) (had : (s.calls i).holds = some r) (call : Call) (irqRecord : GpioIrqRecord)
      (has : call.holds = some r) (fits : call.Fits irqRecord)
      (fewer : ∀ c, irqRecord.Carries c → (s.records r).Carries c) :
      Change s ((s.uses r irqRecord).goes i call)
  /-- A call attaches its record to the pin. -/
  | attaches (i r : ℕ) (had : (s.calls i).holds = some r) (unset : s.irqRecord = none)
      (live : (s.records r).Live) :
      Change s
        (({ s.looks r with irqRecord := some r }.goes i .returned).notes (.attaches r))
  /-- A call detaches the record of the pin. -/
  | detaches (i r : ℕ) (free : (s.calls i).holds = none) (going : s.calls i ≠ .returned)
      (attached : s.irqRecord = some r) :
      Change s
        (({ s.looks r with irqRecord := none }.goes i (.destroys r true)).notes (.detaches r))
  /-- A call leaves the record to its thread. -/
  | leaves (i r : ℕ) (had : (s.calls i).holds = some r) (unsets : Bool)
      (irqRecord : GpioIrqRecord) (loose : irqRecord.Loose) (used : irqRecord.freed = false)
      (fewer : ∀ c, irqRecord.Carries c → (s.records r).Carries c) :
      Change s ((s.uses r irqRecord).returns i r unsets)
  /-- A call frees its record. -/
  | frees (i r : ℕ) (had : (s.calls i).holds = some r) (unsets : Bool)
      (idle : (s.records r).thread = .unstarted) :
      Change s
        (((s.uses r { s.records r with freed := true }).notes (.frees r)).returns i r unsets)
  /-- A thread starts the handler. -/
  | handles (r c : ℕ) (irqRecord : GpioIrqRecord) (used : (s.records r).freed = false)
      (stepped : ∃ got, (s.records r).gpioCntlrIrqThreadHandler got = some irqRecord)
      (same : irqRecord.freed = false) (carries : (s.records r).Carries c)
      (fewer : ∀ c, irqRecord.Carries c → (s.records r).Carries c) :
      Change s ((s.uses r irqRecord).notes (.handles r c))
  /-- A thread frees its record. -/
  | exits (r : ℕ) (used : (s.records r).freed = false)
      (stepped : ∃ got, (s.records r).gpioCntlrIrqThreadHandler got =
        some ({ s.records r with freed := true }.goes .exited)) :
      Change s
        ((s.uses r ({ s.records r with freed := true }.goes .exited)).notes (.frees r))
  /-- A thread goes on. -/
  | thread (r : ℕ) (irqRecord : GpioIrqRecord) (used : (s.records r).freed = false)
      (stepped : ∃ got, (s.records r).gpioCntlrIrqThreadHandler got = some irqRecord)
      (same : irqRecord.freed = false)
      (fewer : ∀ c, irqRecord.Carries c → (s.records r).Carries c) :
      Change s (s.uses r irqRecord)

/-- The answer is good if it is that of `OsalSpinInit`. -/
def Call.Inits (ok : Bool) : Call → Prop
  | inits _ => ok = true
  | _ => True

/-- Every lock that a step makes can be made. -/
def Action.SpinInits : Action → State → Prop
  | .call i ok _, s => (s.calls i).Inits ok
  | _, _ => True

instance (action : Action) (s : State) : Decidable (action.SpinInits s) := by
  cases action with
  | call i ok ok' =>
    unfold Action.SpinInits Call.Inits
    dsimp only
    split <;> infer_instance
  | gpioCntlrSetIrq mode func arg | gpioCntlrUnsetIrq arg | gpioCntlrIrqCallback | thread r got =>
    exact .isTrue trivial

section Change

variable {place : ℕ → Place ℕ} {s t : State} {i r c : ℕ} {call : Call} {ok ok' : Bool}
  {irqRecord irqRecord' : GpioIrqRecord} {got : Option ℕ}

/-- A record that is held or attached has not been freed. -/
theorem Call.Fits.used (fits : call.Fits irqRecord) (has : call.holds = some r) :
    irqRecord.freed = false := by
  cases call with
  | createsThread r | inits r | starts r => exact fits.1.1
  | unwinds r | attaches r | destroys r unsets | removes r unsets | posts r unsets
  | frees r unsets => exact fits.1
  | locks r unsets | unlocks r unsets => exact fits.1.1
  | creates mode func arg | triggers | detaches arg | returned => cases has

/-- What holds of the record that a call has. -/
theorem Sound.held (sound : Sound place s) (has : (s.calls i).holds = some r) :
    (s.calls i).Fits (s.records r) := by
  have fits := sound.fits r
  rwa [(sound.owns.held i r).mp has] at fits

theorem Sound.shared (sound : Sound place s) (attached : s.irqRecord = some r) :
    (s.records r).Live := by
  have fits := sound.fits r
  rwa [(sound.owns.shared r).mp attached] at fits

/-- To look at a record that is there changes nothing. -/
theorem looks_eq (used : (s.records r).freed = false) : s.looks r = s := by
  rw [State.looks, State.uses, Function.update_eq_self, used, Bool.or_false]

/-- The thread takes posts and never puts one in. -/
theorem carries_of_thread (stepped : irqRecord.gpioCntlrIrqThreadHandler got = some irqRecord')
    (carries : irqRecord'.Carries c) : irqRecord.Carries c := by
  rw [GpioIrqRecord.gpioCntlrIrqThreadHandler] at stepped
  cases doing : irqRecord.thread with
  | waits =>
    rw [doing] at stepped
    obtain rfl | ⟨posts, post, k, made, there, rfl⟩ := GpioIrqRecord.osalSemWait_cases stepped
    · obtain here | taken | taken := carries
      · exact .inl here
      · cases taken
      · cases taken
    · obtain ⟨rest, same, here⟩ | taken | taken := carries
      · obtain rfl := Option.some.inj same
        exact .inl ⟨posts, made, List.mem_of_mem_eraseIdx here⟩
      · obtain rfl := Option.some.inj (ThreadStep.reads.inj taken)
        exact .inl ⟨posts, made, List.mem_of_getElem? there⟩
      · cases taken
  | reads taken =>
    rw [doing] at stepped
    obtain rfl := Option.some.inj stepped
    obtain here | now | now := carries
    · exact .inl here
    · dsimp only [GpioIrqRecord.goes] at now
      split at now <;> cases taken <;> cases now
    · dsimp only [GpioIrqRecord.goes] at now
      split at now
      · cases now
      · cases taken with
        | none => cases now
        | some post =>
          obtain rfl := ThreadStep.handles.inj now
          exact .inr (.inl doing)
  | handles post =>
    rw [doing] at stepped
    obtain rfl := Option.some.inj stepped
    obtain here | now | now := carries
    · exact .inl here
    · dsimp only [GpioIrqRecord.goes] at now
      split_ifs at now
    · dsimp only [GpioIrqRecord.goes] at now
      split_ifs at now
  | locks =>
    rw [doing] at stepped
    obtain ⟨locked, held, rfl⟩ := Option.map_eq_some_iff.mp stepped
    have sem : locked.sem = irqRecord.sem := by
      rw [GpioIrqRecord.osalSpinLockIrqSave] at held
      split at held <;> cases held <;> rfl
    obtain ⟨posts, made, here⟩ | now | now := carries
    · exact .inl ⟨posts, sem.symm.trans made, here⟩
    · cases now
    · cases now
  | destroysSem =>
    rw [doing] at stepped
    obtain rfl := Option.some.inj stepped
    obtain ⟨posts, made, -⟩ | now | now := carries
    · cases made
    · cases now
    · cases now
  | returns | unlocks | destroysSpin | destroysThread | frees =>
    rw [doing] at stepped
    obtain rfl := Option.some.inj stepped
    obtain here | now | now := carries
    · exact .inl here
    · cases now
    · cases now
  | unstarted | exited =>
    rw [doing] at stepped
    cases stepped

/-- A record whose posts and thread are those of another one carries the same. -/
theorem carries_of_same (sem : irqRecord'.sem = irqRecord.sem)
    (thread : irqRecord'.thread = irqRecord.thread) (c : ℕ) (carries : irqRecord'.Carries c) :
    irqRecord.Carries c := by
  rwa [GpioIrqRecord.Carries, sem, thread] at carries

/-- A thread that goes on has a record that has not been freed. -/
theorem Sound.thread_used (sound : Sound place s)
    (ran : (s.records r).gpioCntlrIrqThreadHandler got = some irqRecord) :
    (s.records r).freed = false := by
  have fits := sound.fits r
  cases here : place r with
  | absent =>
    rw [here] at fits
    exact fits.1
  | held i =>
    have has := (sound.owns.held i r).mpr here
    exact (sound.held has).used has
  | shared => exact (sound.shared ((sound.owns.shared r).mpr here)).1
  | loose =>
    rw [here] at fits
    obtain ⟨-, never | never⟩ | loose := fits
    · simp [GpioIrqRecord.gpioCntlrIrqThreadHandler, never] at ran
    · simp [GpioIrqRecord.gpioCntlrIrqThreadHandler, never] at ran
    · exact loose.1

/-- A thread frees its record with its last step only. -/
theorem freed_of_thread (going : irqRecord.thread ≠ .frees)
    (ran : irqRecord.gpioCntlrIrqThreadHandler got = some irqRecord') :
    irqRecord'.freed = irqRecord.freed := by
  rw [GpioIrqRecord.gpioCntlrIrqThreadHandler] at ran
  cases doing : irqRecord.thread with
  | waits =>
    rw [doing] at ran
    obtain rfl | ⟨posts, post, k, -, -, rfl⟩ := GpioIrqRecord.osalSemWait_cases ran <;> rfl
  | locks =>
    rw [doing] at ran
    obtain ⟨locked, held, rfl⟩ := Option.map_eq_some_iff.mp ran
    rw [GpioIrqRecord.osalSpinLockIrqSave] at held
    split at held <;> cases held <;> rfl
  | frees => exact absurd doing going
  | reads _ | handles _ | returns | unlocks | destroysSem | destroysSpin | destroysThread =>
    rw [doing] at ran
    obtain rfl := Option.some.inj ran
    rfl
  | unstarted | exited =>
    rw [doing] at ran
    cases ran

/-- What a thread does when the record is there. -/
theorem change_of_stepThread (sound : Sound place s) (stepped : stepThread s r got = some t) :
    Change s t := by
  obtain ⟨irqRecord, ran, rfl⟩ := Option.map_eq_some_iff.mp stepped
  have used := sound.thread_used ran
  have fewer (c : ℕ) : irqRecord.Carries c → (s.records r).Carries c := carries_of_thread ran
  cases doing : (s.records r).thread with
  | frees =>
    have freed : irqRecord = { s.records r with freed := true }.goes .exited := by
      rw [GpioIrqRecord.gpioCntlrIrqThreadHandler, doing] at ran
      exact (Option.some.inj ran).symm
    rw [freed] at ran ⊢
    exact .exits r used ⟨got, ran⟩
  | handles post =>
    have same := (freed_of_thread (by simp [doing]) ran).trans used
    cases post with
    | callback c =>
      dsimp only
      split_ifs
      · exact .handles r c irqRecord used ⟨got, ran⟩ same (.inr (.inr doing)) fewer
      · exact .thread r irqRecord used ⟨got, ran⟩ same fewer
    | last => exact .thread r irqRecord used ⟨got, ran⟩ same fewer
  | returns =>
    have same := (freed_of_thread (by simp [doing]) ran).trans used
    have change : Change s (s.uses r irqRecord) := .thread r irqRecord used ⟨got, ran⟩ same fewer
    rwa [State.uses, used, Bool.or_false] at change
  | unstarted | exited | waits | reads _ | locks | unlocks | destroysSem | destroysSpin
  | destroysThread =>
    have same := (freed_of_thread (by simp [doing]) ran).trans used
    exact .thread r irqRecord used ⟨got, ran⟩ same fewer

/-- The lock of a record that its thread has not taken is free. -/
theorem GpioIrqRecord.Live.locks (live : irqRecord.Live) (threaded : irqRecord.btmFunc ≠ none) :
    irqRecord.osalSpinLockIrqSave = some { irqRecord with spin := some true } ∧
      irqRecord.thread.Working := by
  have working := live.2.2
  rw [if_neg threaded] at working
  exact ⟨by rw [osalSpinLockIrqSave, working.1], working.2⟩

/-- Without the lock the thread finds its way out. -/
theorem GpioIrqRecord.Removed.loose (removed : irqRecord.Removed)
    (last : irqRecord.Posted ∨ irqRecord.thread = .locks ∨ ∃ got, irqRecord.thread = .reads got) :
    irqRecord.osalSpinUnlockIrqRestore.Loose := by
  obtain ⟨used, marked, held, goes⟩ := removed
  refine .inr ⟨used, marked, ?_⟩
  have free : irqRecord.osalSpinUnlockIrqRestore.spin = some false := by
    rw [osalSpinUnlockIrqRestore, held, Option.map_some]
  have same : irqRecord.osalSpinUnlockIrqRestore.thread = irqRecord.thread := rfl
  rw [Leaving, same]
  cases doing : irqRecord.thread with
  | waits | handles _ | returns =>
    refine ⟨free, ?_⟩
    obtain posted | locks | ⟨got, reads⟩ := last
    · exact posted
    · cases doing.symm.trans locks
    · cases doing.symm.trans reads
  | reads _ | locks => exact free
  | unstarted | unlocks | destroysSem | destroysSpin | destroysThread | frees | exited =>
    rw [doing] at goes
    obtain never | never := goes
    · exact never.elim
    · cases never

/-- What a call does when its record is there. -/
theorem change_of_stepCall (sound : Sound place s)
    (inits : (s.calls i).Inits ok)
    (stepped : stepCall s i ok ok' (s.calls i) = some t) : Change s t := by
  have holds {call : Call} {h : Option ℕ} (doing : s.calls i = call) (same : call.holds = h) :
      (s.calls i).holds = h := by rw [doing, same]
  have going {call : Call} (doing : s.calls i = call) (other : call ≠ .returned) :
      s.calls i ≠ .returned := by rwa [doing]
  have fits {call : Call} {r : ℕ} (doing : s.calls i = call) (same : call.holds = some r) :
      call.Fits (s.records r) := doing ▸ sound.held (holds doing same)
  cases doing : s.calls i with
  | creates mode func arg =>
    have free := holds doing rfl
    have some := going doing (by simp)
    rw [doing] at stepped
    cases ok with
    | false =>
      obtain rfl := Option.some.inj stepped
      exact .returns i free some
    | true =>
      obtain rfl := Option.some.inj stepped
      refine .creates i free some _ _ ?_ ?_ rfl ?_
      · split_ifs <;> rfl
      · split_ifs with threadless
        · exact ⟨rfl, rfl, by rw [if_pos threadless]; rfl⟩
        · exact ⟨⟨rfl, rfl, rfl⟩, threadless⟩
      · rintro c (⟨posts, made, -⟩ | now | now)
        · cases made
        · cases now
        · cases now
  | createsThread r =>
    have new := fits doing rfl
    rw [doing] at stepped
    obtain rfl := Option.some.inj stepped
    refine .keeps i r (holds doing rfl) _ _ ?_ ?_ fun _ carries => carries
    · split_ifs <;> rfl
    · cases ok with
      | true => exact new
      | false => exact ⟨new.1.1, new.1.2.2⟩
  | inits r =>
    obtain ⟨new, threaded⟩ := fits doing rfl
    rw [doing] at stepped inits
    obtain rfl : ok = true := inits
    obtain rfl := Option.some.inj stepped
    refine .keeps i r (holds doing rfl) _ _ rfl ⟨new, threaded, rfl⟩ ?_
    rintro c (⟨posts, made, there⟩ | now)
    · cases ok' with
      | true =>
        obtain rfl := Option.some.inj made
        cases there
      | false => cases made
    · exact .inr now
  | starts r =>
    obtain ⟨new, threaded, free⟩ := fits doing rfl
    rw [doing] at stepped
    cases ok with
    | true =>
      obtain rfl := Option.some.inj stepped
      refine .keeps i r (holds doing rfl) _ _ rfl ⟨new.1, new.2.1, ?_⟩ ?_
      · change if (s.records r).btmFunc = none then _ else _
        rw [if_neg threaded]
        exact ⟨free, trivial⟩
      · rintro c (here | now | now)
        · exact .inl here
        · cases now
        · cases now
    | false =>
      obtain rfl := Option.some.inj stepped
      exact .keeps i r (holds doing rfl) _ _ rfl new fun _ carries => carries
  | unwinds r =>
    have new := fits doing rfl
    rw [doing] at stepped
    obtain rfl := Option.some.inj stepped
    refine .keeps i r (holds doing rfl) _ _ rfl ⟨new.1, new.2.2⟩ ?_
    rintro c (⟨posts, made, -⟩ | now)
    · cases made
    · exact .inr now
  | attaches r =>
    have live := fits doing rfl
    rw [doing, stepCall] at stepped
    cases pin : s.irqRecord with
    | some q =>
      rw [pin] at stepped
      obtain rfl := Option.some.inj stepped
      have change : Change s ((s.looks r).goes i (.destroys r false)) :=
        .keeps i r (holds doing rfl) _ _ rfl live fun _ carries => carries
      rwa [looks_eq live.1] at change
    | none =>
      rw [pin] at stepped
      cases ok with
      | true =>
        obtain rfl := Option.some.inj stepped
        exact .attaches i r (holds doing rfl) pin live
      | false =>
        obtain rfl := Option.some.inj stepped
        exact .keeps i r (holds doing rfl) _ _ rfl live fun _ carries => carries
  | triggers =>
    rw [doing, stepCall] at stepped
    cases pin : s.irqRecord with
    | none =>
      rw [pin] at stepped
      obtain rfl := Option.some.inj stepped
      exact .returns i (holds doing rfl) (going doing (by simp))
    | some r =>
      rw [pin] at stepped
      obtain rfl := Option.some.inj stepped
      exact .triggers i r (holds doing rfl) (going doing (by simp)) pin
  | detaches arg =>
    rw [doing, stepCall] at stepped
    cases pin : s.irqRecord with
    | none =>
      rw [pin] at stepped
      obtain rfl := Option.some.inj stepped
      exact .returns i (holds doing rfl) (going doing (by simp))
    | some r =>
      rw [pin] at stepped
      dsimp only at stepped
      split_ifs at stepped
      · obtain rfl := Option.some.inj stepped
        exact .detaches i r (holds doing rfl) (going doing (by simp)) pin
      · obtain rfl := Option.some.inj stepped
        rw [looks_eq (sound.shared pin).1]
        exact .returns i (holds doing rfl) (going doing (by simp))
  | destroys r unsets =>
    have live := fits doing rfl
    rw [doing] at stepped
    obtain rfl := Option.some.inj stepped
    refine .keeps i r (holds doing rfl) _ _ ?_ ?_ fun _ carries => carries
    · split_ifs <;> rfl
    · split_ifs with threadless
      · have idle := live.2.2
        rw [if_pos threadless] at idle
        exact ⟨live.1, idle⟩
      · exact ⟨live, threadless⟩
  | locks r unsets =>
    obtain ⟨live, threaded⟩ := fits doing rfl
    obtain ⟨locked, working⟩ := live.locks threaded
    rw [doing, stepCall, locked] at stepped
    obtain rfl := Option.some.inj stepped
    exact .keeps i r (holds doing rfl) _ _ rfl ⟨live.1, live.2.1, rfl, working⟩
      (carries_of_same rfl rfl)
  | removes r unsets =>
    obtain ⟨used, -, held, working⟩ := fits doing rfl
    rw [doing] at stepped
    obtain rfl := Option.some.inj stepped
    exact .keeps i r (holds doing rfl) _ _ rfl ⟨used, rfl, held, .inl working⟩
      (carries_of_same rfl rfl)
  | posts r unsets =>
    have removed := fits doing rfl
    rw [doing] at stepped
    obtain rfl := Option.some.inj stepped
    refine .keeps i r (holds doing rfl) _ _ rfl ⟨removed, .inl fun posts made => ?_⟩ ?_
    · obtain ⟨before, -, rfl⟩ := Option.map_eq_some_iff.mp made
      exact List.mem_append_right before (List.mem_singleton_self _)
    · rintro c (⟨posts, made, there⟩ | now)
      · obtain ⟨before, had, rfl⟩ := Option.map_eq_some_iff.mp made
        obtain there | there := List.mem_append.mp there
        · exact .inl ⟨before, had, there⟩
        · cases List.mem_singleton.mp there
      · exact .inr now
  | unlocks r unsets =>
    obtain ⟨removed, last⟩ := fits doing rfl
    rw [doing] at stepped
    obtain rfl := Option.some.inj stepped
    exact .leaves i r (holds doing rfl) unsets _ (removed.loose last) removed.1
      (carries_of_same rfl rfl)
  | frees r unsets =>
    obtain ⟨-, idle⟩ := fits doing rfl
    rw [doing] at stepped
    obtain rfl := Option.some.inj stepped
    exact .frees i r (holds doing rfl) unsets idle
  | returned =>
    rw [doing, stepCall] at stepped
    cases stepped

/-- What a step does if every lock can be made. -/
theorem change_of_step {action : Action} (sound : Sound place s) (inits : action.SpinInits s)
    (stepped : step action s = some t) : Change s t := by
  cases action with
  | gpioCntlrSetIrq mode func arg =>
    obtain rfl := Option.some.inj stepped
    exact .begins _ rfl
  | gpioCntlrUnsetIrq arg =>
    obtain rfl := Option.some.inj stepped
    exact .begins _ rfl
  | gpioCntlrIrqCallback =>
    obtain rfl := Option.some.inj stepped
    exact .begins _ rfl
  | call i ok ok' => exact change_of_stepCall sound inits stepped
  | thread r got => exact change_of_stepThread sound stepped

/-! ### The records stay sound -/

theorem holds_goes : Call.holds ∘ Function.update s.calls i call =
    Function.update (Call.holds ∘ s.calls) i call.holds :=
  Function.comp_update _ _ _ _

/-- A record that a call does not have does not depend on the call. -/
theorem fits_goes {p : Place ℕ} (other : p ≠ .held i) :
    Fits (Function.update s.calls i call) irqRecord p ↔ Fits s.calls irqRecord p := by
  cases p with
  | held j =>
    have ne : j ≠ i := fun same => other (congrArg Place.held same)
    rw [Fits, Fits, Function.update_of_ne ne]
  | absent | shared | loose => exact Iff.rfl

theorem Sound.notes (sound : Sound place s) (event : Event) : Sound place (s.notes event) :=
  ⟨sound.owns, sound.fits, sound.future, sound.untouched⟩

/-- A call without a record goes on. -/
theorem Sound.goes (sound : Sound place s) (free : (s.calls i).holds = none)
    (free' : call.holds = none) (begun : i < s.begun) : Sound place (s.goes i call) where
  owns := by
    have owns := sound.owns
    have same : (Call.holds ∘ s.calls) i = none := free
    rwa [State.goes, holds_goes, free', ← same, Function.update_eq_self]
  fits q := by
    have other : place q ≠ .held i := by
      intro here
      have has := (sound.owns.held i q).mpr here
      cases free.symm.trans has
    exact (fits_goes other).mpr (sound.fits q)
  future j later := by
    have ne : j ≠ i := by rintro rfl; exact absurd begun (Nat.not_lt.mpr later)
    rw [State.goes_calls, Function.update_of_ne ne]
    exact sound.future j later
  untouched := sound.untouched

/-- A call that goes on has begun. -/
theorem Sound.begun (sound : Sound place s) (going : s.calls i ≠ .returned) : i < s.begun :=
  Nat.lt_of_not_le fun later => going (sound.future i later)

theorem Sound.begun_of_holds (sound : Sound place s) (has : (s.calls i).holds = some r) :
    i < s.begun := by
  refine sound.begun fun returned => ?_
  rw [returned] at has
  cases has

/-- A record changes where it is. -/
theorem Sound.uses (sound : Sound place s) (used : (s.records r).freed = false)
    (fits : Fits s.calls irqRecord (place r)) : Sound place (s.uses r irqRecord) where
  owns := sound.owns
  fits q := by
    by_cases same : q = r
    · subst same
      rw [State.uses_records, Function.update_self]
      exact fits
    · rw [State.uses_records, Function.update_of_ne same]
      exact sound.fits q
  future := sound.future
  untouched := by rw [State.uses, sound.untouched, used]; rfl

/-- A call changes its record and goes on. -/
theorem Sound.keeps (sound : Sound place s) (had : (s.calls i).holds = some r)
    (has : call.holds = some r) (fits : call.Fits irqRecord) :
    Sound place ((s.uses r irqRecord).goes i call) where
  owns := by
    have owns := sound.owns
    have same : (Call.holds ∘ s.calls) i = some r := had
    change Owns (Call.holds ∘ Function.update s.calls i call) _ _ _
    rwa [holds_goes, has, ← same, Function.update_eq_self]
  fits q := by
    have here := (sound.owns.held i r).mp had
    by_cases same : q = r
    · subst same
      rw [here, Fits, State.goes_calls, State.goes_records, State.uses_records,
        Function.update_self, Function.update_self]
      exact fits
    · have other : place q ≠ .held i := by
        intro there
        have has' := (sound.owns.held i q).mpr there
        exact same (Option.some.inj (has'.symm.trans had))
      rw [State.goes_calls, State.goes_records, State.uses_records, Function.update_of_ne same]
      exact (fits_goes other).mpr (sound.fits q)
  future j later := by
    have ne : j ≠ i := by
      rintro rfl
      exact absurd (sound.begun_of_holds had) (Nat.not_lt.mpr later)
    rw [State.goes_calls, Function.update_of_ne ne]
    exact sound.future j later
  untouched := by
    rw [State.goes, State.uses, sound.untouched, (sound.held had).used had]
    rfl

/-- A record gets to another place. -/
theorem Sound.moves {p : Place ℕ} (sound : Sound place s)
    (owns : Owns (Call.holds ∘ t.calls) t.irqRecord t.allocated (Function.update place r p))
    (calls : t.calls = Function.update s.calls i call)
    (records : t.records = Function.update s.records r irqRecord)
    (fits : Fits t.calls irqRecord p)
    (mine : ∀ q, (s.calls i).holds = some q → q = r)
    (begun : i < s.begun) (same : t.begun = s.begun) (untouched : t.touched = false) :
    Sound (Function.update place r p) t where
  owns := owns
  fits q := by
    by_cases here : q = r
    · subst here
      rwa [records, Function.update_self, Function.update_self]
    · have other : place q ≠ .held i := fun there =>
        here (mine q ((sound.owns.held i q).mpr there))
      rw [records, Function.update_of_ne here, Function.update_of_ne here, calls]
      exact (fits_goes other).mpr (sound.fits q)
  future j later := by
    rw [same] at later
    have ne : j ≠ i := by
      rintro rfl
      exact absurd begun (Nat.not_lt.mpr later)
    rw [calls, Function.update_of_ne ne]
    exact sound.future j later
  untouched := untouched

/-- A call gives its record up. -/
theorem Sound.letsGo (sound : Sound place s) (had : (s.calls i).holds = some r)
    (loose : irqRecord.Loose) :
    Sound (Function.update place r .loose) ((s.uses r irqRecord).goes i .returned) := by
  refine sound.moves ?_ rfl rfl loose (fun q has => Option.some.inj (has.symm.trans had))
    (sound.begun_of_holds had) rfl ?_
  · change Owns (Call.holds ∘ Function.update s.calls i .returned) _ _ _
    rw [holds_goes]
    exact sound.owns.letsGo had
  · rw [State.goes, State.uses, sound.untouched, (sound.held had).used had]
    rfl

theorem Sound.returns {unsets : Bool} (sound : Sound place (s.goes i .returned)) :
    Sound place (s.returns i r unsets) := by
  rw [State.returns]
  split_ifs
  · exact sound.notes _
  · exact sound

/-- The steps keep the records sound. -/
theorem Change.sound (change : Change s t) (sound : Sound place s) :
    ∃ place', Sound place' t ∧ ∀ r, place r = .loose → place' r = .loose := by
  have kept {r : ℕ} {p : Place ℕ} (other : place r ≠ .loose) (q : ℕ) (loose : place q = .loose) :
      Function.update place r p q = .loose := by
    have ne : q ≠ r := by
      rintro rfl
      exact other loose
    rwa [Function.update_of_ne ne]
  have mine {i r : ℕ} (had : (s.calls i).holds = some r) (q : ℕ)
      (has : (s.calls i).holds = some q) : q = r := Option.some.inj (has.symm.trans had)
  have nothing {i r : ℕ} (free : (s.calls i).holds = none) (q : ℕ)
      (has : (s.calls i).holds = some q) : q = r := by cases free.symm.trans has
  cases change with
  | begins call free =>
    refine ⟨place, ?_, fun _ => id⟩
    have later : Sound place { s with begun := s.begun + 1 } :=
      ⟨sound.owns, sound.fits, fun i later => sound.future i (Nat.le_of_succ_le later),
        sound.untouched⟩
    refine (later.goes ?_ free (Nat.lt_succ_self _)).notes _
    change (s.calls s.begun).holds = none
    rw [sound.future s.begun le_rfl]
    rfl
  | returns i free going => exact ⟨place, sound.goes free rfl (sound.begun going), fun _ => id⟩
  | triggers i r free going attached =>
    refine ⟨place, ?_, fun _ => id⟩
    have live := sound.shared attached
    have here := (sound.owns.shared r).mp attached
    have fits (p : Post) : Fits s.calls ((s.records r).osalSemPost p) (place r) := by
      rw [here]
      exact live
    have triggered : Sound place (s.gpioIrqRecordTrigger r i) := by
      rw [State.gpioIrqRecordTrigger]
      split_ifs
      · exact (looks_eq live.1).symm ▸ sound
      · exact (looks_eq (s := s.notes (.handles r i)) live.1).symm ▸ sound.notes _
      · exact sound.uses live.1 (fits _)
      · exact (sound.notes (.handles r i)).uses live.1 (fits _)
    have same : (s.gpioIrqRecordTrigger r i).calls = s.calls ∧
        (s.gpioIrqRecordTrigger r i).begun = s.begun := by
      rw [State.gpioIrqRecordTrigger]
      split_ifs <;> exact ⟨rfl, rfl⟩
    refine triggered.goes ?_ rfl ?_
    · rwa [same.1]
    · rw [same.2]
      exact sound.begun going
  | creates i free going call irqRecord has fits new empty =>
    have absent := (sound.owns.absent s.allocated).mp le_rfl
    have begun := sound.begun going
    refine ⟨Function.update place s.allocated (.held i), ?_, kept (by rw [absent]; simp)⟩
    refine sound.moves ?_ rfl rfl ?_ (nothing free) begun rfl sound.untouched
    · change Owns (Call.holds ∘ Function.update s.calls i call) s.irqRecord (s.allocated + 1) _
      rw [holds_goes, has]
      exact sound.owns.allocates free
    · change Call.Fits irqRecord (Function.update s.calls i call i)
      rwa [Function.update_self]
  | keeps i r had call irqRecord has fits fewer =>
    exact ⟨place, sound.keeps had has fits, fun _ => id⟩
  | attaches i r had unset live =>
    have here := (sound.owns.held i r).mp had
    have owns := sound.owns
    rw [unset] at owns
    refine ⟨Function.update place r .shared, Sound.notes ?_ _, kept (by rw [here]; simp)⟩
    refine sound.moves ?_ rfl rfl live (mine had) (sound.begun_of_holds had) rfl ?_
    · change Owns (Call.holds ∘ Function.update s.calls i .returned) (some r) _ _
      rw [holds_goes]
      exact owns.shares had
    · rw [looks_eq live.1]
      exact sound.untouched
  | detaches i r free going attached =>
    have here := (sound.owns.shared r).mp attached
    have live := sound.shared attached
    have owns := sound.owns
    rw [attached] at owns
    refine ⟨Function.update place r (.held i), Sound.notes ?_ _, kept (by rw [here]; simp)⟩
    refine sound.moves ?_ rfl rfl ?_ (nothing free) (sound.begun going) rfl ?_
    · change Owns (Call.holds ∘ Function.update s.calls i (.destroys r true)) none _ _
      rw [holds_goes]
      exact owns.takes free
    · change Call.Fits (s.records r) (Function.update s.calls i (.destroys r true) i)
      rw [Function.update_self]
      exact live
    · rw [looks_eq live.1]
      exact sound.untouched
  | leaves i r had unsets irqRecord loose used fewer =>
    have here := (sound.owns.held i r).mp had
    exact ⟨_, (sound.letsGo had loose).returns, kept (by rw [here]; simp)⟩
  | frees i r had unsets idle =>
    have here := (sound.owns.held i r).mp had
    have freed : { s.records r with freed := true }.Loose := .inl ⟨rfl, .inl idle⟩
    exact ⟨_, ((sound.letsGo had freed).notes (.frees r)).returns, kept (by rw [here]; simp)⟩
  | handles r c irqRecord used stepped same carries fewer =>
    obtain ⟨got, stepped⟩ := stepped
    exact ⟨place, (sound.uses used ((sound.fits r).thread stepped)).notes _, fun _ => id⟩
  | exits r used stepped =>
    obtain ⟨got, stepped⟩ := stepped
    exact ⟨place, (sound.uses used ((sound.fits r).thread stepped)).notes _, fun _ => id⟩
  | thread r irqRecord used stepped same fewer =>
    obtain ⟨got, stepped⟩ := stepped
    exact ⟨place, sound.uses used ((sound.fits r).thread stepped), fun _ => id⟩

end Change

end Hdf.Platform.GpioIrq
