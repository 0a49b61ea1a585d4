import Hdf.Lib.Runs
import Hdf.Platform.GpioIrqRecords

/-!
# Interrupt records are freed once and last

The history of a pin agrees with its records. No step uses a record after it has been
freed, and a record that is given up is freed by the call that has given it up or by its
thread, which nothing stops on its way. This needs the lock of the record: if it cannot
be made, the thread does not wait for the last post and may free the record before it.

## Main definitions

* `Late`, `OnTime`: handlers that start for a callback after the interrupt was unset
* `Told`: the history agrees with the records and the pin
* `FreedOnceAndLast`: every record is freed once, and nothing is done to it any more

## Main results

* `freedOnceAndLast_of_runs`: this holds in every state that is reached if the locks can be made
* `posts_freed_record`: a semaphore is posted after it has been freed
-/

namespace Hdf.Platform.GpioIrq

section Change

variable {place : ℕ → Place ℕ} {s t : State} {i r c : ℕ} {call : Call} {ok ok' : Bool}
  {irqRecord irqRecord' : GpioIrqRecord} {got : Option ℕ}

/-! ### The history -/

/-- Nobody but its thread has the record. -/
def Gone (s : State) (r : ℕ) : Prop :=
  r < s.allocated ∧ s.irqRecord ≠ some r ∧ ∀ i, (s.calls i).holds ≠ some r

theorem Sound.gone_iff (sound : Sound place s) : Gone s r ↔ place r = .loose :=
  sound.owns.loose_iff.symm

/-- The call has begun after a call that unset the interrupt with the record had returned. -/
def Late (history : List Event) (r c : ℕ) : Prop :=
  ∃ first, .begins c :: first <:+ history ∧ .unsets r ∈ first

/-- No handler starts for a callback that began after the interrupt was unset. -/
def OnTime (history : List Event) : Prop :=
  ∀ r c earlier, .handles r c :: earlier <:+ history → ¬Late earlier r c

/-- The record has been attached and not detached since. -/
def isAttached (r : ℕ) : List Event → Bool
  | [] => false
  | .attaches q :: earlier => q == r || isAttached r earlier
  | .detaches q :: earlier => q != r && isAttached r earlier
  | _ :: earlier => isAttached r earlier

theorem late_cons {event : Event} {history : List Event} : Late (event :: history) r c ↔
    event = .begins c ∧ .unsets r ∈ history ∨ Late history r c := by
  simp only [Late, List.suffix_cons_iff, List.cons.injEq]
  constructor
  · rintro ⟨first, ⟨rfl, rfl⟩ | before, unset⟩
    · exact .inl ⟨rfl, unset⟩
    · exact .inr ⟨first, before, unset⟩
  · rintro (⟨rfl, unset⟩ | ⟨first, before, unset⟩)
    · exact ⟨history, .inl ⟨rfl, rfl⟩, unset⟩
    · exact ⟨first, .inr before, unset⟩

theorem onTime_cons {event : Event} {history : List Event} : OnTime (event :: history) ↔
    (∀ r c, event = .handles r c → ¬Late history r c) ∧ OnTime history := by
  simp only [OnTime, List.suffix_cons_iff, List.cons.injEq]
  constructor
  · intro all
    refine ⟨?_, fun r c earlier before => all r c earlier (.inr before)⟩
    rintro r c rfl
    exact all r c history (.inl ⟨rfl, rfl⟩)
  · rintro ⟨now, before⟩ r c earlier (⟨rfl, rfl⟩ | there)
    · exact now r c rfl
    · exact before r c earlier there

theorem not_late_of_not_unset {history : List Event} (unset : .unsets r ∉ history) :
    ¬Late history r c := by
  rintro ⟨first, before, there⟩
  exact unset (before.subset (List.mem_cons_of_mem _ there))

/-- What has been unset is gone. -/
def Unset (s : State) : Prop := ∀ r, .unsets r ∈ s.history → Gone s r

/-- The history agrees with the records and the pin. -/
structure Told (s : State) : Prop where
  frees : ∀ r, s.history.count (.frees r) = if (s.records r).freed then 1 else 0
  attached : ∀ r, isAttached r s.history = true ↔ s.irqRecord = some r
  carried : ∀ r c, (s.records r).Carries c → c < s.begun ∧ ¬Late s.history r c
  onTime : OnTime s.history

theorem Change.unset (change : Change s t) (sound : Sound place s) (unset : Unset s) :
    Unset t := by
  intro q there
  -- what was gone stays gone
  have stays (before : .unsets q ∈ s.history) : Gone t q := by
    obtain ⟨place', sound', kept⟩ := change.sound sound
    exact sound'.gone_iff.mpr (kept q (sound.gone_iff.mp (unset q before)))
  have gone {i r : ℕ} {irqRecord : GpioIrqRecord} (had : (s.calls i).holds = some r)
      (loose : irqRecord.Loose) : Gone ((s.uses r irqRecord).goes i .returned) r :=
    (sound.letsGo had loose).gone_iff.mpr (Function.update_self ..)
  have other {event : Event} {history : List Event} (there : .unsets q ∈ event :: history)
      (ne : event ≠ .unsets q) : .unsets q ∈ history :=
    (List.mem_cons.mp there).resolve_left fun same => ne same.symm
  cases change with
  | leaves i r had unsets irqRecord loose used fewer =>
    cases unsets with
    | false => exact stays there
    | true =>
      obtain now | before := List.mem_cons.mp there
      · obtain rfl := Event.unsets.inj now
        exact gone had loose
      · exact stays before
  | frees i r had unsets idle =>
    cases unsets with
    | false => exact stays (other there (by simp))
    | true =>
      obtain now | before := List.mem_cons.mp there
      · obtain rfl := Event.unsets.inj now
        have freed : { s.records q with freed := true }.Loose := .inl ⟨rfl, .inl idle⟩
        exact gone had freed
      · exact stays (other before (by simp))
  | triggers i r free going pin =>
    refine stays ?_
    change _ ∈ (s.gpioIrqRecordTrigger r i).history at there
    rw [State.gpioIrqRecordTrigger] at there
    split_ifs at there
    · exact there
    · exact other there (by simp)
    · exact there
    · exact other there (by simp)
  | begins | attaches | detaches | handles | exits => exact stays (other there (by simp))
  | returns | creates | keeps | thread => exact stays there

/-- A step that is not noted. -/
theorem Told.frame (told : Told s) (history : t.history = s.history)
    (freed : ∀ r, (t.records r).freed = (s.records r).freed) (pin : t.irqRecord = s.irqRecord)
    (carries : ∀ r c, (t.records r).Carries c →
      (s.records r).Carries c ∨ c < s.begun ∧ ¬Late s.history r c)
    (begun : s.begun ≤ t.begun) : Told t where
  frees r := by rw [history, freed, told.frees]
  attached r := by rw [history, pin, told.attached]
  carried r c carried := by
    obtain ⟨early, onTime⟩ := (carries r c carried).elim (told.carried r c) id
    rw [history]
    exact ⟨early.trans_le begun, onTime⟩
  onTime := history ▸ told.onTime

/-- A step notes something about no record. -/
theorem Told.notes (told : Told s) {event : Event} (quiet : ∀ r, event ≠ .frees r)
    (stays : ∀ r, isAttached r (event :: s.history) = isAttached r s.history)
    (fresh : ∀ c < s.begun, event ≠ .begins c)
    (onTime : ∀ r c, event = .handles r c → ¬Late s.history r c) : Told (s.notes event) where
  frees r := by
    rw [State.notes_history, List.count_cons_of_ne (quiet r)]
    exact told.frees r
  attached r := by
    rw [State.notes_history, stays]
    exact told.attached r
  carried r c carries := by
    obtain ⟨early, before⟩ := told.carried r c carries
    rw [State.notes_history, late_cons]
    exact ⟨early, not_or.mpr ⟨fun now => fresh c early now.1, before⟩⟩
  onTime := onTime_cons.mpr ⟨onTime, told.onTime⟩

/-- A record is freed. -/
theorem Told.notes_frees (told : Told s) (used : (s.records r).freed = false)
    (freed : irqRecord.freed = true)
    (fewer : ∀ c, irqRecord.Carries c → (s.records r).Carries c) :
    Told ((s.uses r irqRecord).notes (.frees r)) where
  frees q := by
    have before := told.frees q
    change (Event.frees r :: s.history).count (.frees q) =
      if (Function.update s.records r irqRecord q).freed then 1 else 0
    by_cases same : q = r
    · subst same
      rw [used] at before
      rw [List.count_cons_self, Function.update_self, freed, before]
      rfl
    · rw [Function.update_of_ne same, ← before, List.count_cons_of_ne]
      exact fun here => same (Event.frees.inj here).symm
  attached q := told.attached q
  carried q c carries := by
    change (Function.update s.records r irqRecord q).Carries c at carries
    have carried : (s.records q).Carries c := by
      by_cases same : q = r
      · subst same
        rw [Function.update_self] at carries
        exact fewer c carries
      · rwa [Function.update_of_ne same] at carries
    obtain ⟨early, before⟩ := told.carried q c carried
    exact ⟨early, fun late => (late_cons.mp late).elim (fun now => by cases now.1) before⟩
  onTime := onTime_cons.mpr ⟨by simp, told.onTime⟩

/-- A step uses a record without freeing it. -/
theorem Told.uses (told : Told s) (same : irqRecord.freed = (s.records r).freed)
    (carries : ∀ c, irqRecord.Carries c →
      (s.records r).Carries c ∨ c < s.begun ∧ ¬Late s.history r c) :
    Told (s.uses r irqRecord) := by
  refine told.frame rfl (fun q => ?_) rfl (fun q c carried => ?_) le_rfl
  · rw [State.uses_records]
    by_cases here : q = r
    · subst here
      rw [Function.update_self, same]
    · rw [Function.update_of_ne here]
  · rw [State.uses_records] at carried
    by_cases here : q = r
    · subst here
      rw [Function.update_self] at carried
      exact carries c carried
    · rw [Function.update_of_ne here] at carried
      exact .inl carried

theorem Told.goes (told : Told s) (i : ℕ) (call : Call) : Told (s.goes i call) :=
  told.frame rfl (fun _ => rfl) rfl (fun _ _ => .inl) le_rfl

/-- A record gets to the pin, or the record of the pin is taken away. -/
theorem Told.pins (told : Told s) {event : Event} {pin : Option ℕ}
    (kind : (∃ r, event = .attaches r) ∨ ∃ r, event = .detaches r)
    (attached : ∀ r, isAttached r (event :: s.history) = true ↔ pin = some r) :
    Told ({ s with irqRecord := pin }.notes event) where
  frees r := by
    obtain ⟨q, rfl⟩ | ⟨q, rfl⟩ := kind
    · exact (List.count_cons_of_ne (by simp)).trans (told.frees r)
    · exact (List.count_cons_of_ne (by simp)).trans (told.frees r)
  attached := attached
  carried r c carries := by
    obtain ⟨early, before⟩ := told.carried r c carries
    refine ⟨early, fun late => ?_⟩
    obtain ⟨rfl, -⟩ | late := late_cons.mp late
    · simp at kind
    · exact before late
  onTime := by
    refine onTime_cons.mpr ⟨?_, told.onTime⟩
    rintro r c rfl
    simp at kind

theorem Told.returns {unsets : Bool} (told : Told s) : Told (s.returns i r unsets) := by
  rw [State.returns]
  split_ifs
  · exact (told.goes i .returned).notes (by simp) (fun _ => rfl) (by simp) (by simp)
  · exact told.goes i .returned

theorem Change.told (change : Change s t) (sound : Sound place s) (unset : Unset s)
    (told : Told s) : Told t := by
  cases change with
  | begins call free =>
    have noted : Told (s.notes (.begins s.begun)) := by
      refine told.notes (by simp) (fun _ => rfl) ?_ (by simp)
      intro c before same
      exact absurd before (Event.begins.inj same ▸ lt_irrefl _)
    exact noted.frame rfl (fun _ => rfl) rfl (fun _ _ => .inl) (Nat.le_succ s.begun)
  | returns i free going => exact told.goes i .returned
  | triggers i r free going pin =>
    -- the record of the pin has not been unset
    have onTime : ¬Late s.history r i := not_late_of_not_unset fun there => (unset r there).2.1 pin
    refine Told.goes ?_ i .returned
    rw [State.gpioIrqRecordTrigger]
    have handled : Told (s.notes (.handles r i)) := by
      refine told.notes (by simp) (fun _ => rfl) (by simp) ?_
      intro r' c' here
      obtain ⟨rfl, rfl⟩ := Event.handles.inj here
      exact onTime
    have posted (c : ℕ) (carries : ((s.records r).osalSemPost (.callback i)).Carries c) :
        (s.records r).Carries c ∨ c = i := by
      obtain ⟨posts, made, there⟩ | now := carries
      · obtain ⟨before, had, rfl⟩ := Option.map_eq_some_iff.mp made
        obtain there | there := List.mem_append.mp there
        · exact .inl (.inl ⟨before, had, there⟩)
        · exact .inr (Post.callback.inj (List.mem_singleton.mp there))
      · exact .inl (.inr now)
    split_ifs
    · exact told.uses rfl fun _ => .inl
    · exact handled.uses rfl fun _ => .inl
    · refine told.uses rfl fun c carries => (posted c carries).imp_right ?_
      rintro rfl
      exact ⟨sound.begun going, onTime⟩
    · refine handled.uses rfl fun c carries => (posted c carries).imp_right ?_
      rintro rfl
      exact ⟨sound.begun going, fun late => (late_cons.mp late).elim (by simp) onTime⟩
  | creates i free going call irqRecord has fits new empty =>
    have absent := sound.fits s.allocated
    rw [(sound.owns.absent s.allocated).mp le_rfl] at absent
    exact (told.uses (new.trans absent.1.symm) fun c carries => (empty c carries).elim).frame rfl
      (fun _ => rfl) rfl (fun _ _ => .inl) le_rfl
  | keeps i r had call irqRecord has fits fewer =>
    have used := (sound.held had).used had
    exact (told.uses ((fits.used has).trans used.symm) fun c carries =>
      .inl (fewer c carries)).goes i call
  | attaches i r had pin live =>
    have looked : Told (s.looks r) := told.uses rfl fun _ => .inl
    have before (q : ℕ) : ¬isAttached q s.history = true := by simp [told.attached, pin]
    exact ((looked.goes i .returned).pins (.inl ⟨r, rfl⟩) fun q => by
      simp [isAttached, State.goes, State.looks, State.uses, before])
  | detaches i r free going pin =>
    have looked : Told (s.looks r) := told.uses rfl fun _ => .inl
    have before (q : ℕ) : isAttached q s.history = true ↔ r = q := by simp [told.attached, pin]
    exact ((looked.goes i (.destroys r true)).pins (.inr ⟨r, rfl⟩) fun q => by
      simp [isAttached, State.goes, State.looks, State.uses, before])
  | leaves i r had unsets irqRecord loose used fewer =>
    exact (told.uses (used.trans ((sound.held had).used had).symm) fun c carries =>
      .inl (fewer c carries)).returns
  | frees i r had unsets idle =>
    have freed : { s.records r with freed := true }.freed = true := rfl
    exact (told.notes_frees ((sound.held had).used had) freed (carries_of_same rfl rfl)).returns
  | handles r c irqRecord used stepped same carries fewer =>
    have onTime := (told.carried r c carries).2
    have before := told.uses (same.trans used.symm) fun c carries => .inl (fewer c carries)
    refine before.notes (by simp) (fun _ => rfl) (by simp) ?_
    intro r' c' here
    obtain ⟨rfl, rfl⟩ := Event.handles.inj here
    exact onTime
  | exits r used stepped =>
    obtain ⟨got, stepped⟩ := stepped
    exact told.notes_frees used rfl fun c => carries_of_thread stepped
  | thread r irqRecord used stepped same fewer =>
    exact told.uses (same.trans used.symm) fun c carries => .inl (fewer c carries)

end Change

/-! ### Every record is freed -/

/-- The steps of a thread that is on its way out. -/
def ThreadStep.left : ThreadStep → ℕ
  | handles _ => 10
  | returns => 9
  | waits => 8
  | reads _ => 7
  | locks => 6
  | unlocks => 5
  | destroysSem => 4
  | destroysSpin => 3
  | destroysThread => 2
  | frees => 1
  | unstarted | exited => 0

/-- The most steps that a call still has. -/
def Call.left : Call → ℕ
  | creates _ _ _ => 10
  | createsThread _ => 9
  | inits _ => 8
  | starts _ => 7
  | attaches _ | detaches _ => 6
  | destroys _ _ => 5
  | locks _ _ => 4
  | removes _ _ => 3
  | unwinds _ | posts _ _ => 2
  | unlocks _ _ | frees _ _ | triggers => 1
  | returned => 0

/-- A step of the thread of a record. -/
def Action.isThread (r : ℕ) : Action → Bool
  | thread q _ => q == r
  | _ => false

/-- A step of a call that has begun. -/
def Action.isCall (i : ℕ) : Action → Bool
  | call j _ _ => j == i
  | _ => false

/-- The thread of a record can go on, and not only because a wait may fail at any time. -/
def ThreadGoes (s : State) (r : ℕ) : Prop :=
  ∃ got, (step (.thread r got) s).isSome ∧
    ((s.records r).thread = .waits → (s.records r).sem ≠ none → got ≠ none)

/-- Every record is freed once, and nothing is done to it any more: no step uses a record after it
has been freed, none is freed twice, one at most is attached to the pin, and no handler starts
for a callback that began after the interrupt was unset. No call is ever stopped, and it returns
after ten steps. The thread of a record that nobody else has is not stopped either, and has
freed the record after ten steps. -/
structure FreedOnceAndLast (s : State) : Prop where
  untouched : s.touched = false
  once : ∀ r, s.history.count (.frees r) ≤ 1
  oneAttached : ∀ q r, isAttached q s.history = true → isAttached r s.history = true → q = r
  onTime : OnTime s.history
  callGoes : ∀ i ok ok', s.calls i ≠ .returned → (step (.call i ok ok') s).isSome
  callReturns : ∀ i actions t, i < s.begun → runs step s actions = some t →
    10 ≤ actions.countP (Action.isCall i) → t.calls i = .returned
  threadGoes : ∀ r, Gone s r → .frees r ∉ s.history → ThreadGoes s r
  threadFrees : ∀ r actions t, Gone s r → Meets step Action.SpinInits s actions →
    runs step s actions = some t → 10 ≤ actions.countP (Action.isThread r) →
    .frees r ∈ t.history

section Frees

variable {place : ℕ → Place ℕ} {s t : State} {i r : ℕ} {call : Call} {ok ok' : Bool}
  {irqRecord irqRecord' : GpioIrqRecord} {got : Option ℕ} {action : Action}
  {actions : List Action}

/-- A thread on its way out goes forward. -/
theorem GpioIrqRecord.Loose.left_lt (loose : irqRecord.Loose)
    (ran : irqRecord.gpioCntlrIrqThreadHandler got = some irqRecord') :
    irqRecord'.thread.left < irqRecord.thread.left := by
  rw [gpioCntlrIrqThreadHandler] at ran
  cases doing : irqRecord.thread with
  | waits =>
    rw [doing] at ran
    obtain rfl | ⟨posts, post, k, -, -, rfl⟩ := osalSemWait_cases ran <;>
      simp [goes, ThreadStep.left]
  | reads taken =>
    obtain ⟨-, never | never⟩ | ⟨-, removed, -⟩ := loose
    · cases doing.symm.trans never
    · cases doing.symm.trans never
    · rw [doing, removed] at ran
      obtain rfl := Option.some.inj ran
      simp [goes, ThreadStep.left]
  | handles post =>
    rw [doing] at ran
    obtain rfl := Option.some.inj ran
    dsimp only [goes]
    split_ifs <;> simp [ThreadStep.left]
  | locks =>
    rw [doing] at ran
    obtain ⟨locked, -, rfl⟩ := Option.map_eq_some_iff.mp ran
    simp [goes, ThreadStep.left]
  | returns | unlocks | destroysSem | destroysSpin | destroysThread | frees =>
    rw [doing] at ran
    obtain rfl := Option.some.inj ran
    simp [goes, ThreadStep.left]
  | unstarted | exited =>
    rw [doing] at ran
    cases ran

/-- A call goes forward, and no other call is touched. -/
theorem calls_of_stepCall (stepped : stepCall s i ok ok' (s.calls i) = some t) :
    ∃ call, t.calls = Function.update s.calls i call ∧ call.left < (s.calls i).left ∧
      t.begun = s.begun := by
  have returns (u : State) (r : ℕ) (unsets : Bool) (same : u.calls = s.calls)
      (same' : u.begun = s.begun) (going : 0 < (s.calls i).left) : ∃ call,
      (u.returns i r unsets).calls = Function.update s.calls i call ∧
        call.left < (s.calls i).left ∧ (u.returns i r unsets).begun = s.begun := by
    refine ⟨.returned, ?_, going, ?_⟩
    · cases unsets <;> exact congrArg (Function.update · i _) same
    · cases unsets <;> exact same'
  cases doing : s.calls i with
  | creates mode func arg =>
    rw [doing] at stepped
    cases ok <;> obtain rfl := Option.some.inj stepped
    · exact ⟨_, rfl, by simp [Call.left], rfl⟩
    · refine ⟨_, rfl, ?_, rfl⟩
      split_ifs <;> simp [Call.left]
  | createsThread r =>
    rw [doing] at stepped
    obtain rfl := Option.some.inj stepped
    refine ⟨_, rfl, ?_, rfl⟩
    cases ok <;> simp [Call.left]
  | starts r =>
    rw [doing] at stepped
    cases ok <;> obtain rfl := Option.some.inj stepped <;>
      exact ⟨_, rfl, by simp [Call.left], rfl⟩
  | attaches r =>
    rw [doing, stepCall] at stepped
    cases pin : s.irqRecord with
    | some q =>
      rw [pin] at stepped
      obtain rfl := Option.some.inj stepped
      exact ⟨_, rfl, by simp [Call.left], rfl⟩
    | none =>
      rw [pin] at stepped
      cases ok <;> obtain rfl := Option.some.inj stepped <;>
        exact ⟨_, rfl, by simp [Call.left], rfl⟩
  | triggers =>
    rw [doing, stepCall] at stepped
    cases pin : s.irqRecord with
    | none =>
      rw [pin] at stepped
      obtain rfl := Option.some.inj stepped
      exact ⟨_, rfl, by simp [Call.left], rfl⟩
    | some r =>
      rw [pin] at stepped
      obtain rfl := Option.some.inj stepped
      refine ⟨.returned, ?_, by simp [Call.left], ?_⟩ <;>
        simp only [State.goes, State.gpioIrqRecordTrigger] <;> split_ifs <;> rfl
  | detaches arg =>
    rw [doing, stepCall] at stepped
    cases pin : s.irqRecord with
    | none =>
      rw [pin] at stepped
      obtain rfl := Option.some.inj stepped
      exact ⟨_, rfl, by simp [Call.left], rfl⟩
    | some r =>
      rw [pin] at stepped
      dsimp only at stepped
      split_ifs at stepped <;> obtain rfl := Option.some.inj stepped <;>
        exact ⟨_, rfl, by simp [Call.left], rfl⟩
  | destroys r unsets =>
    rw [doing] at stepped
    obtain rfl := Option.some.inj stepped
    refine ⟨_, rfl, ?_, rfl⟩
    split_ifs <;> simp [Call.left]
  | locks r unsets =>
    rw [doing] at stepped
    obtain ⟨locked, -, rfl⟩ := Option.map_eq_some_iff.mp stepped
    exact ⟨_, rfl, by simp [Call.left], rfl⟩
  | unlocks r unsets | frees r unsets =>
    rw [doing] at stepped returns
    obtain rfl := Option.some.inj stepped
    exact returns _ r unsets rfl rfl (by simp [Call.left])
  | inits r | unwinds r | removes r unsets | posts r unsets =>
    rw [doing] at stepped
    obtain rfl := Option.some.inj stepped
    exact ⟨_, rfl, by simp [Call.left], rfl⟩
  | returned =>
    rw [doing, stepCall] at stepped
    cases stepped

/-- A step of a thread changes its record only. -/
theorem stepThread_spec (stepped : stepThread s r got = some t) : ∃ irqRecord,
    (s.records r).gpioCntlrIrqThreadHandler got = some irqRecord ∧
      t.records = Function.update s.records r irqRecord ∧ t.calls = s.calls ∧
      t.begun = s.begun := by
  obtain ⟨irqRecord, ran, rfl⟩ := Option.map_eq_some_iff.mp stepped
  refine ⟨irqRecord, ran, ?_⟩
  cases (s.records r).thread with
  | handles post =>
    cases post with
    | callback c =>
      dsimp only
      split_ifs <;> exact ⟨rfl, rfl, rfl⟩
    | last => exact ⟨rfl, rfl, rfl⟩
  | unstarted | waits | reads _ | returns | locks | unlocks | destroysSem | destroysSpin
  | destroysThread | frees | exited => exact ⟨rfl, rfl, rfl⟩

/-- A step of a call that has begun leaves the other calls as they are. -/
theorem calls_of_step (begun : i < s.begun) (stepped : step action s = some t) :
    i < t.begun ∧ (t.calls i).left + (if action.isCall i then 1 else 0) ≤ (s.calls i).left := by
  have begins (call : Call) : i < (s.begins call).begun ∧
      ((s.begins call).calls i).left + 0 ≤ (s.calls i).left := by
    refine ⟨Nat.lt_succ_of_lt begun, ?_⟩
    change (Function.update s.calls s.begun call i).left ≤ _
    rw [Function.update_of_ne begun.ne]
  cases action with
  | gpioCntlrSetIrq mode func arg =>
    obtain rfl := Option.some.inj stepped
    exact begins _
  | gpioCntlrUnsetIrq arg =>
    obtain rfl := Option.some.inj stepped
    exact begins _
  | gpioCntlrIrqCallback =>
    obtain rfl := Option.some.inj stepped
    exact begins _
  | call j ok ok' =>
    obtain ⟨call, calls, lower, same⟩ := calls_of_stepCall stepped
    rw [calls, same]
    refine ⟨begun, ?_⟩
    by_cases here : j = i
    · subst here
      rw [Function.update_self, Action.isCall, if_pos (beq_self_eq_true j)]
      exact lower
    · rw [Function.update_of_ne (Ne.symm here), Action.isCall, if_neg (by simpa using here),
        Nat.add_zero]
  | thread r got =>
    obtain ⟨irqRecord, -, -, calls, same⟩ := stepThread_spec stepped
    rw [calls, same]
    exact ⟨begun, le_rfl⟩

/-- What a step does to a record that only its thread has. -/
theorem Change.gone (change : Change s t) (sound : Sound place s) (gone : place r = .loose) :
    t.records r = s.records r ∨
      ∃ got, (s.records r).gpioCntlrIrqThreadHandler got = some (t.records r) := by
  have other {i q : ℕ} (had : (s.calls i).holds = some q) : r ≠ q := by
    rintro rfl
    cases gone.symm.trans ((sound.owns.held i r).mp had)
  -- the step is one of a thread, and that of this record or of another one
  have mine {q : ℕ} {irqRecord : GpioIrqRecord}
      (stepped : ∃ got, (s.records q).gpioCntlrIrqThreadHandler got = some irqRecord) :
      Function.update s.records q irqRecord r = s.records r ∨
        ∃ got, (s.records r).gpioCntlrIrqThreadHandler got =
          some (Function.update s.records q irqRecord r) := by
    by_cases same : r = q
    · subst same
      rw [Function.update_self]
      exact .inr stepped
    · exact .inl (Function.update_of_ne same ..)
  have returns (u : State) (i q : ℕ) (unsets : Bool) :
      (u.returns i q unsets).records = u.records := by cases unsets <;> rfl
  cases change with
  | begins call free | returns i free going => exact .inl rfl
  | triggers i q free going pin =>
    have ne : r ≠ q := by
      rintro rfl
      cases gone.symm.trans ((sound.owns.shared r).mp pin)
    refine .inl ?_
    rw [State.goes_records, State.gpioIrqRecordTrigger]
    split_ifs <;> exact Function.update_of_ne ne ..
  | creates i free going call irqRecord has fits new empty =>
    refine .inl (Function.update_of_ne ?_ ..)
    rintro rfl
    cases gone.symm.trans ((sound.owns.absent s.allocated).mp le_rfl)
  | keeps i q had call irqRecord has fits fewer =>
    exact .inl (Function.update_of_ne (other had) ..)
  | attaches i q had pin live | detaches i q free going pin =>
    exact .inl (congrFun (Function.update_eq_self q s.records) r)
  | leaves i q had unsets irqRecord loose used fewer =>
    rw [returns]
    exact .inl (Function.update_of_ne (other had) ..)
  | frees i q had unsets idle =>
    rw [returns]
    exact .inl (Function.update_of_ne (other had) ..)
  | handles q c irqRecord used stepped same carries fewer | exits q used stepped
  | thread q irqRecord used stepped same fewer => exact mine stepped

/-- What holds of a record that nobody has but its thread. -/
theorem Sound.loose (sound : Sound place s) (gone : place r = .loose) :
    (s.records r).Loose := by
  have fits := sound.fits r
  rwa [gone] at fits

/-- The thread of a record that nobody else has goes forward. -/
theorem left_of_step (sound : Sound place s) (gone : place r = .loose)
    (inits : action.SpinInits s) (stepped : step action s = some t) :
    (t.records r).thread.left + (if action.isThread r then 1 else 0) ≤
      (s.records r).thread.left := by
  have loose := sound.loose gone
  by_cases mine : action.isThread r
  · rw [if_pos mine]
    cases action with
    | thread q got =>
      obtain rfl : q = r := beq_iff_eq.mp mine
      obtain ⟨irqRecord, ran, records, -⟩ := stepThread_spec stepped
      rw [records, Function.update_self]
      exact loose.left_lt ran
    | gpioCntlrSetIrq | gpioCntlrUnsetIrq | gpioCntlrIrqCallback | call => cases mine
  · rw [if_neg mine, Nat.add_zero]
    obtain same | ⟨got, ran⟩ := (change_of_step sound inits stepped).gone sound gone
    · rw [same]
    · exact (loose.left_lt ran).le

/-- The calls that have begun are never stopped. -/
theorem Sound.callGoes (sound : Sound place s) (going : s.calls i ≠ .returned) :
    (step (.call i ok ok') s).isSome := by
  change (stepCall s i ok ok' (s.calls i)).isSome
  cases doing : s.calls i with
  | creates mode func arg | starts r => cases ok <;> rfl
  | attaches r =>
    rw [stepCall]
    cases s.irqRecord <;> cases ok <;> rfl
  | triggers =>
    rw [stepCall]
    cases s.irqRecord <;> rfl
  | detaches arg =>
    rw [stepCall]
    cases s.irqRecord with
    | none => rfl
    | some r =>
      dsimp only
      split_ifs <;> rfl
  | locks r unsets =>
    have has : (s.calls i).holds = some r := by rw [doing]; rfl
    have fits := sound.held has
    rw [doing] at fits
    rw [stepCall, (fits.1.locks fits.2).1]
    rfl
  | createsThread r | inits r | unwinds r | destroys r unsets | removes r unsets
  | posts r unsets | unlocks r unsets | frees r unsets => rfl
  | returned => exact absurd doing going

/-- The thread of a record that nobody else has is never stopped. -/
theorem Sound.threadGoes (sound : Sound place s) (gone : place r = .loose)
    (used : (s.records r).freed = false) : ThreadGoes s r := by
  obtain ⟨freed, -⟩ | ⟨-, removed, leaving⟩ := sound.loose gone
  · exact absurd (used.symm.trans freed) Bool.false_ne_true
  -- a step of the thread is one of the handler
  have goes {got : Option ℕ} (some : ((s.records r).gpioCntlrIrqThreadHandler got).isSome) :
      (step (.thread r got) s).isSome := (Option.isSome_map ..).trans some
  rw [GpioIrqRecord.Leaving] at leaving
  cases doing : (s.records r).thread with
  | waits =>
    rw [doing] at leaving
    cases made : (s.records r).sem with
    | none =>
      refine ⟨none, goes ?_, fun _ there => absurd made there⟩
      rw [GpioIrqRecord.gpioCntlrIrqThreadHandler, doing]
      rfl
    | some posts =>
      obtain ⟨k, last⟩ := List.getElem?_of_mem (leaving.2 posts made)
      refine ⟨some k, goes ?_, fun _ _ => by simp⟩
      rw [GpioIrqRecord.gpioCntlrIrqThreadHandler, doing]
      simp [GpioIrqRecord.osalSemWait, made, last]
  | locks =>
    rw [doing] at leaving
    refine ⟨none, goes ?_, by simp [doing]⟩
    rw [GpioIrqRecord.gpioCntlrIrqThreadHandler, doing]
    simp [GpioIrqRecord.osalSpinLockIrqSave, leaving]
  | reads _ | handles _ | returns | unlocks | destroysSem | destroysSpin | destroysThread
  | frees =>
    refine ⟨none, goes ?_, by simp [doing]⟩
    rw [GpioIrqRecord.gpioCntlrIrqThreadHandler, doing]
    rfl
  | unstarted | exited =>
    rw [doing] at leaving
    exact leaving.elim

end Frees

/-- What holds in every state that is reached. -/
def Inv (s : State) : Prop := (∃ place, Sound place s) ∧ Unset s ∧ Told s

theorem inv_init : Inv init := by
  have none (i : ℕ) : (init.calls i).holds = none := rfl
  refine ⟨⟨fun _ => .absent, ?_⟩, fun r there => (by cases there), ?_⟩
  · exact ⟨⟨by simp [none], by simp [init], by simp [init]⟩, fun _ => ⟨rfl, rfl, rfl⟩,
      fun _ _ => rfl, rfl⟩
  · refine ⟨fun _ => rfl, by simp [init, isAttached], ?_, ?_⟩
    · rintro r c (⟨posts, made, -⟩ | now | now)
      · cases made
      · cases now
      · cases now
    · intro r c earlier before
      simp [init] at before

theorem inv_step (action : Action) (s t : State) (inv : Inv s) (inits : action.SpinInits s)
    (stepped : step action s = some t) : Inv t := by
  obtain ⟨⟨place, sound⟩, unset, told⟩ := inv
  have change := change_of_step sound inits stepped
  obtain ⟨place', sound', -⟩ := change.sound sound
  exact ⟨⟨place', sound'⟩, change.unset sound unset, change.told sound unset told⟩

/-- The steps of a call that has begun are not more than those it has left. -/
theorem call_left_add_le {s t : State} {i : ℕ} {actions : List Action} (begun : i < s.begun)
    (ran : runs step s actions = some t) :
    (t.calls i).left + actions.countP (Action.isCall i) ≤ (s.calls i).left := by
  have goes (action : Action) (s t : State) (begun : i < s.begun) (_ : True)
      (stepped : step action s = some t) : i < t.begun ∧
        (t.calls i).left + (if action.isCall i then 1 else 0) ≤ (s.calls i).left :=
    calls_of_step begun stepped
  have meets : Meets step (fun _ _ => True) s actions :=
    @meets_of_forall _ _ step s actions (fun _ => True) fun _ _ => trivial
  exact @rank_add_countP_le _ _ step _ s t actions _ (fun s => (s.calls i).left) _ goes begun
    meets ran

/-- So are those of the thread of a record that nobody else has. -/
theorem thread_left_add_le {s t : State} {r : ℕ} {actions : List Action} (inv : Inv s)
    (gone : Gone s r) (inits : Meets step Action.SpinInits s actions)
    (ran : runs step s actions = some t) : Inv t ∧ Gone t r ∧
      (t.records r).thread.left + actions.countP (Action.isThread r) ≤
        (s.records r).thread.left := by
  have goes (action : Action) (s t : State) (all : Inv s ∧ Gone s r) (inits : action.SpinInits s)
      (stepped : step action s = some t) : (Inv t ∧ Gone t r) ∧
        (t.records r).thread.left + (if action.isThread r then 1 else 0) ≤
          (s.records r).thread.left := by
    obtain ⟨inv, gone⟩ := all
    have inv' := inv_step action s t inv inits stepped
    obtain ⟨⟨place, sound⟩, -, -⟩ := inv
    have here := sound.gone_iff.mp gone
    obtain ⟨place', sound', kept⟩ := (change_of_step sound inits stepped).sound sound
    exact ⟨⟨inv', sound'.gone_iff.mpr (kept r here)⟩, left_of_step sound here inits stepped⟩
  obtain ⟨inv', gone'⟩ := runs_invariant (fun action s t all inits stepped =>
    (goes action s t all inits stepped).1) ⟨inv, gone⟩ inits ran
  exact ⟨inv', gone', @rank_add_countP_le _ _ step _ s t actions (fun s => Inv s ∧ Gone s r)
    (fun s => (s.records r).thread.left) _ goes ⟨inv, gone⟩ inits ran⟩

/-- What has been promised of every state that is reached. -/
theorem Inv.freedOnceAndLast {s : State} (inv : Inv s) : FreedOnceAndLast s := by
  have all := inv
  obtain ⟨⟨place, sound⟩, unset, told⟩ := inv
  refine ⟨sound.untouched, fun r => ?_, fun q r first second => ?_, told.onTime,
    fun i ok ok' => sound.callGoes, fun i actions t begun ran many => ?_, fun r gone there => ?_,
    fun r actions t gone inits ran many => ?_⟩
  · rw [told.frees]
    split_ifs <;> simp
  · have same := ((told.attached q).mp first).symm.trans ((told.attached r).mp second)
    exact Option.some.inj same
  · have most := call_left_add_le begun ran
    have whole : (s.calls i).left ≤ 10 := by cases s.calls i <;> simp [Call.left]
    have done : (t.calls i).left = 0 := by omega
    cases returned : t.calls i <;> simp_all [Call.left]
  · refine sound.threadGoes (sound.gone_iff.mp gone) ?_
    have none := told.frees r
    rw [List.count_eq_zero_of_not_mem there] at none
    cases freed : (s.records r).freed with
    | true => simp [freed] at none
    | false => rfl
  · obtain ⟨⟨⟨place', sound'⟩, -, told'⟩, gone', most⟩ := thread_left_add_le all gone inits ran
    have whole : (s.records r).thread.left ≤ 10 := by
      cases (s.records r).thread <;> simp [ThreadStep.left]
    have done : (t.records r).thread.left = 0 := by omega
    have freed : (t.records r).freed = true := by
      obtain ⟨freed, -⟩ | ⟨-, -, leaving⟩ := sound'.loose (sound'.gone_iff.mp gone')
      · exact freed
      · rw [GpioIrqRecord.Leaving] at leaving
        cases ends : (t.records r).thread <;> simp_all [ThreadStep.left]
    have once := told'.frees r
    rw [freed, if_pos rfl] at once
    exact List.count_pos_iff.mp (by omega)

/-- Every record is freed once and last if every lock can be made. -/
theorem freedOnceAndLast_of_runs {actions : List Action} {t : State}
    (inits : Meets step Action.SpinInits init actions) (ran : runs step init actions = some t) :
    FreedOnceAndLast t :=
  (runs_invariant inv_step inv_init inits ran).freedOnceAndLast

/-- An interrupt with a thread is set, comes once, and is unset. -/
def handledRun : List Action :=
  [.gpioCntlrSetIrq 0x100 1 7, .call 0 true true, .call 0 true true, .call 0 true true,
    .call 0 true true, .call 0 true true, .gpioCntlrIrqCallback, .call 1 true true,
    .thread 0 (some 0), .thread 0 none, .gpioCntlrUnsetIrq 7, .call 2 true true,
    .thread 0 none, .call 2 true true, .call 2 true true, .thread 0 none, .call 2 true true,
    .thread 0 none, .thread 0 none, .call 2 true true, .call 2 true true, .thread 0 none,
    .thread 0 none, .thread 0 none, .thread 0 none, .thread 0 none, .thread 0 none]

theorem freedOnceAndLast_handledRun : ∃ t, runs step init handledRun = some t ∧
    t.history.count (.frees 0) = 1 ∧ FreedOnceAndLast t := by
  have once : (runs step init handledRun).map (·.history.count (.frees 0)) = some 1 := by decide
  obtain ⟨t, ran, once⟩ := Option.map_eq_some_iff.mp once
  exact ⟨t, ran, once, freedOnceAndLast_of_runs (by decide) ran⟩

/-- The lock of a record cannot be made: the thread does not wait for the call that gives the
record up, which posts a semaphore that has been freed. -/
def unlockedRun : List Action :=
  [.gpioCntlrSetIrq 0x100 1 7, .call 0 true true, .call 0 true true, .call 0 false true,
    .call 0 true true, .call 0 true true, .gpioCntlrIrqCallback, .call 1 true true,
    .gpioCntlrUnsetIrq 7, .call 2 true true, .call 2 true true, .call 2 true true,
    .call 2 true true, .thread 0 (some 0), .thread 0 none, .thread 0 none, .thread 0 none,
    .thread 0 none, .thread 0 none, .thread 0 none, .thread 0 none, .call 2 true true]

theorem posts_freed_record :
    ¬∀ actions t, runs step init actions = some t → FreedOnceAndLast t := by
  intro all
  have touched : (runs step init unlockedRun).map (·.touched) = some true := by decide
  obtain ⟨t, ran, touched⟩ := Option.map_eq_some_iff.mp touched
  exact absurd ((all unlockedRun t ran).untouched.symm.trans touched) Bool.false_ne_true

end Hdf.Platform.GpioIrq
