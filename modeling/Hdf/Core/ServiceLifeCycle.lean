import Mathlib.Computability.Language
import Hdf.Core.ServiceNames

/-!
# The life cycle that a listener sees

A listener that is registered with the service manager is told when a service of
its class starts, changes and stops. A start comes with the registration of the
service or of the listener, a stop with the removal of the service; in between, the
listener is told of changes.

An update may give a service another class. The listeners of the old class are
then not told that their service is gone, and the listeners of the new class are
told of the change of a service that has never started for them.

## Main results

* `lifeCycles_of_steady`: steady runs
* `update_without_stop`: a listener that keeps a service which has left its class
-/

namespace Hdf.Core.ServiceManager

open KeyedList Computability

variable {Object : Type*}

/-- The status that an event tells a holder for a service. -/
def Event.told (holder : ℕ) (name : CString) : Event → Option ServiceStatusType
  | notifyStatus address status =>
    if address = holder ∧ status.serviceName = name then some status.status else none
  | recycle _ => none

/-- The statuses that a holder has received for a service. -/
def received (holder : ℕ) (name : CString) (events : List Event) : List ServiceStatusType :=
  events.filterMap (Event.told holder name)

/-- The statuses up to a stop. -/
def stopped : Language ServiceStatusType := ({[.start]} * {[.change]}∗ * {[.stop]})∗

/-- The statuses from a start on. -/
def running : Language ServiceStatusType := {[.start]} * {[.change]}∗

/-- The statuses that may be seen of a service. -/
def lifeCycle : Language ServiceStatusType :=
  ({[.start]} * {[.change]}∗ * {[.stop]})∗ * (1 + {[.start]} * {[.change]}∗)

/-- A service is registered with a class that a holder listens to. -/
def Heard (holder : ServStatListenerHolder) (registered : Option (Object × UInt16)) : Prop :=
  ∃ entry ∈ registered, holder.Listens entry.2

/-- What the registered listeners have received are life cycles, and those that have started
and not stopped belong to the services that the listener listens to. -/
def ConsistentLifeCycles (h : History Object) : Prop :=
  ∀ holder ∈ h.manager.svcstatListeners, holder.notifyStatus → ∀ name,
    received holder.address name h.events ∈ lifeCycle ∧
      ((∃ last ∈ (received holder.address name h.events).getLast?, last = .start ∨ last = .change) ↔
        Heard holder (registration name h.log))

variable (charSigned : Bool)

/-- The name of a call does not have the key of another registered name, and an update does
not give a service a class that a listener listens to unless it has listened to the old one. -/
def Steady (call : Call Object) (h : History Object) : Prop :=
  Distinct charSigned call h ∧
  match call.operation with
  | .update (some name) devClass (some _) (some _) =>
    call.allocs.servInfo → ∀ record ∈ recordOf name h.manager,
      ∀ holder ∈ h.manager.svcstatListeners, holder.notifyStatus →
        (holder.Listens record.devClass ↔ holder.Listens devClass)
  | _ => True

variable {charSigned} {manager manager' : DevSvcManager Object} {name : CString}
  {operation : Operation Object} {status : HdfStatus} {events : List Event}
  {record : DevSvcRecord Object} {holder : ServStatListenerHolder}
  {word : List ServiceStatusType} {h t : History Object} {calls : List (Call Object)}

/-! ### Life cycles -/

theorem nil_mem_stopped : [] ∈ stopped := Language.nil_mem_kstar _

theorem append_start (closed : word ∈ stopped) : word ++ [.start] ∈ stopped * running := by
  refine Language.append_mem_mul closed (Language.mem_mul.mpr ?_)
  exact ⟨[.start], rfl, [], Language.nil_mem_kstar _, rfl⟩

theorem append_mem_kstar {l : Language ServiceStatusType} {last : List ServiceStatusType}
    (words : word ∈ l∗) (one : last ∈ l) : word ++ last ∈ l∗ := by
  have more : l∗ * l ≤ l∗ := kstar_mul_le_kstar
  exact more (Language.append_mem_mul words one)

theorem append_change (started : word ∈ stopped * running) :
    word ++ [.change] ∈ stopped * running := by
  obtain ⟨closed, past, opened, ⟨first, begins, changes, many, rfl⟩, rfl⟩ := started
  rw [List.append_assoc, List.append_assoc]
  refine Language.append_mem_mul past (Language.append_mem_mul begins ?_)
  exact append_mem_kstar many rfl

theorem append_stop (started : word ∈ stopped * running) : word ++ [.stop] ∈ stopped := by
  obtain ⟨closed, past, opened, present, rfl⟩ := started
  rw [List.append_assoc]
  exact append_mem_kstar past (Language.append_mem_mul present rfl)

theorem mem_lifeCycle_of_stopped (closed : word ∈ stopped) : word ∈ lifeCycle := by
  rw [← List.append_nil word]
  exact Language.append_mem_mul closed (.inl rfl)

theorem mem_lifeCycle_of_started (started : word ∈ stopped * running) : word ∈ lifeCycle := by
  obtain ⟨closed, past, opened, present, rfl⟩ := started
  exact Language.append_mem_mul past (.inr present)

theorem getLast?_of_stopped (closed : word ∈ stopped) : ∀ last ∈ word.getLast?, last = .stop := by
  obtain ⟨parts, rfl, each⟩ := Language.mem_kstar.mp closed
  induction parts using List.reverseRecOn with
  | nil => simp
  | append_singleton parts part ih =>
    obtain ⟨body, -, final, rfl, rfl⟩ := each part (by simp)
    simp

theorem getLast?_of_started (started : word ∈ stopped * running) :
    ∃ last ∈ word.getLast?, last = .start ∨ last = .change := by
  obtain ⟨closed, -, opened, ⟨first, rfl, changes, many, rfl⟩, rfl⟩ := started
  obtain ⟨parts, rfl, each⟩ := Language.mem_kstar.mp many
  induction parts using List.reverseRecOn with
  | nil => exact ⟨.start, by simp, .inl rfl⟩
  | append_singleton parts part ih =>
    obtain rfl := each part (by simp)
    refine ⟨.change, ?_, .inr rfl⟩
    have ends : closed ++ ([ServiceStatusType.start] ++
        (parts ++ [[ServiceStatusType.change]]).flatten) =
          (closed ++ .start :: parts.flatten) ++ [.change] := by simp
    exact (congrArg List.getLast? ends).trans List.getLast?_concat

/-! ### Events -/

theorem received_append {more : List Event} {address : ℕ} :
    received address name (events ++ more) =
      received address name events ++ received address name more :=
  List.filterMap_append

/-- A holder learns nothing from the events of others. -/
theorem received_eq_nil {address : ℕ} (others : ∀ event ∈ events, event.holder ≠ address) :
    received address name events = [] := by
  refine List.filterMap_eq_nil_iff.mpr fun event member => ?_
  cases event with
  | notifyStatus holder status => exact if_neg fun own => others _ member own.1
  | recycle holder => rfl

theorem received_flatMap {α : Type*} (key : α → ℕ) {send : α → List Event} {xs : List α} {x : α}
    (sends : ∀ y, ∀ event ∈ send y, event.holder = key y) (unique : (xs.map key).Nodup)
    (member : x ∈ xs) :
    received (key x) name (xs.flatMap send) = received (key x) name (send x) := by
  induction xs with
  | nil => cases member
  | cons y ys ih =>
    rw [List.map_cons, List.nodup_cons] at unique
    rw [List.flatMap_cons, received_append]
    rcases List.mem_cons.mp member with rfl | later
    · have others : received (key x) name (ys.flatMap send) = [] := by
        refine received_eq_nil fun event sent same => unique.1 ?_
        obtain ⟨z, member, sent⟩ := List.mem_flatMap.mp sent
        rw [← same, sends z event sent]
        exact List.mem_map_of_mem member
      rw [others, List.append_nil]
    · have others : received (key x) name (send y) = [] := by
        refine received_eq_nil fun event sent same => unique.1 ?_
        rw [← sends y event sent, same]
        exact List.mem_map_of_mem later
      rw [others, List.nil_append, ih unique.2 later]

theorem received_forget {address : ℕ}
    (other : ∀ listenerHolder, operation = .regster (some listenerHolder) →
      listenerHolder.address ≠ address) :
    received address name (operation.forget events) = received address name events := by
  unfold Operation.forget
  split
  case h_1 events listenerHolder =>
    rw [received, List.filterMap_filter, received]
    refine List.filterMap_congr fun event _ => ?_
    split
    case isTrue kept => rfl
    case isFalse dropped =>
      -- an event that is forgotten belongs to the new holder
      cases event with
      | notifyStatus address' status =>
        have own : address' = listenerHolder.address := not_not.mp (of_decide_eq_false
          (Bool.not_eq_true _ ▸ dropped))
        exact (if_neg fun told => other _ rfl (own.symm.trans told.1)).symm
      | recycle address' => rfl
  case h_2 => rfl

theorem notifyHolder_of_nil {status : ServiceStatusType} :
    notifyHolder record status [] holder =
      (if holder.Listens record.devClass ∧ holder.notifyStatus then
        [.notifyStatus holder.address (record.serviceStatus status)] else [], some holder) := by
  rw [notifyHolder]
  by_cases told : holder.Listens record.devClass ∧ holder.notifyStatus
  · rw [if_pos told, if_pos told]
    rfl
  · rw [if_neg told, if_neg told]

theorem received_notifyStatus {status : ServiceStatusType} {address : ℕ} :
    received address name [.notifyStatus address (record.serviceStatus status)] =
      if record.servName = name then [status] else [] := by
  by_cases named : record.servName = name
  · have told : Event.told address name (.notifyStatus address (record.serviceStatus status)) =
        some status := if_pos ⟨rfl, named⟩
    rw [received, List.filterMap_cons_some told, if_pos named, List.filterMap_nil]
  · have untold : Event.told address name (.notifyStatus address (record.serviceStatus status)) =
        none := if_neg fun own => named own.2
    rw [received, List.filterMap_cons_none untold, if_neg named, List.filterMap_nil]

/-- When no notification fails, no listener is lost. -/
theorem notifyServiceStatusLocked_of_nil {status : ServiceStatusType} :
    (notifyServiceStatusLocked record status [] manager).2 = manager := by
  simp [notifyServiceStatusLocked, notifyHolder_of_nil, List.filterMap_map]

theorem listeners_of_notified {status : ServiceStatusType}
    (notified : notifyServiceStatusLocked record status [] manager = (events, manager')) :
    manager'.svcstatListeners = manager.svcstatListeners := by
  have kept : (notifyServiceStatusLocked record status [] manager).2 = manager :=
    notifyServiceStatusLocked_of_nil
  rw [notified] at kept
  exact congrArg (·.svcstatListeners) kept

/-- A listener of the class of a service is told its status. -/
theorem received_notify {status : ServiceStatusType}
    (unique : (manager.svcstatListeners.map (·.address)).Nodup)
    (member : holder ∈ manager.svcstatListeners) (tells : holder.notifyStatus) :
    received holder.address name (notifyServiceStatusLocked record status [] manager).1 =
      if record.servName = name ∧ holder.Listens record.devClass then [status] else [] := by
  rw [notifyServiceStatusLocked]
  simp only [List.flatMap_map, notifyHolder_of_nil]
  rw [received_flatMap (·.address) (fun other event sent => ?_) unique member]
  · by_cases told : holder.Listens record.devClass
    · rw [if_pos ⟨told, tells⟩, received_notifyStatus]
      simp only [told, and_true]
    · rw [if_neg fun heard => told heard.1, if_neg fun heard => told heard.2]
      rfl
  · split at sent
    · cases List.mem_singleton.mp sent
      rfl
    · cases sent

/-- A new listener is told of the services of its class. -/
theorem received_onRegister (tells : holder.notifyStatus)
    (unique : (manager.services.map (·.servName)).Nodup) :
    received holder.address name (notifyServiceStatusOnRegisterLocked holder manager) =
      if ∃ record ∈ recordOf name manager, holder.Listens record.devClass then [.start]
      else [] := by
  rw [notifyServiceStatusOnRegisterLocked, recordOf]
  generalize manager.services = services at unique ⊢
  induction services with
  | nil => simp [received]
  | cons record records ih =>
    rw [List.map_cons, List.nodup_cons] at unique
    rw [List.flatMap_cons, received_append, ih unique.2, search_cons]
    by_cases named : record.servName = name
    · have absent : search (·.servName) name records = none :=
        search_eq_none_iff.mpr (named ▸ unique.1)
      rw [absent, if_pos named]
      split
      case isTrue told => simp [received_notifyStatus, named, told]
      case isFalse untold => simp_all [received]
    · rw [if_neg named]
      split
      case isTrue told => simp [received_notifyStatus, named]
      case isFalse untold => rfl

theorem holder_of_onRegister :
    ∀ event ∈ notifyServiceStatusOnRegisterLocked holder manager,
      event.holder = holder.address := by
  intro event sent
  obtain ⟨record, -, sent⟩ := List.mem_flatMap.mp sent
  split at sent
  · cases List.mem_singleton.mp sent
    rfl
  · cases sent

/-! ### Steady runs -/

/-- The statuses of a service fit its record. -/
def InPhase (holder : ServStatListenerHolder) (record : Option (DevSvcRecord Object))
    (word : List ServiceStatusType) : Prop :=
  if ∃ r ∈ record, holder.Listens r.devClass then word ∈ stopped * running else word ∈ stopped

theorem inPhase_none : InPhase holder (none : Option (DevSvcRecord Object)) word ↔
    word ∈ stopped := by
  rw [InPhase, if_neg]
  rintro ⟨r, absent, -⟩
  cases absent

theorem inPhase_some : InPhase holder (some record) word ↔
    if holder.Listens record.devClass then word ∈ stopped * running else word ∈ stopped := by
  simp only [InPhase, Option.mem_def, Option.some.injEq, exists_eq_left']

/-- The registered listeners have received what fits the records. -/
def Told (manager : DevSvcManager Object) (events : List Event) : Prop :=
  ∀ holder ∈ manager.svcstatListeners, holder.notifyStatus → ∀ name,
    InPhase holder (recordOf name manager) (received holder.address name events)

section

variable {past : List Event} {changed : DevSvcRecord Object} {servStatus : ServiceStatusType}

/-- A notification of a change to the records, which only concerns one name. -/
theorem Told.notify (told : Told manager past)
    (linked : (manager.svcstatListeners.map (·.address)).Nodup)
    (listeners : manager'.svcstatListeners = manager.svcstatListeners)
    (others : ∀ other, other ≠ record.servName → recordOf other manager' = recordOf other manager)
    (own : ∀ holder ∈ manager.svcstatListeners, holder.notifyStatus → ∀ word,
      InPhase holder (recordOf record.servName manager) word →
        InPhase holder (recordOf record.servName manager')
          (word ++ if holder.Listens record.devClass then [servStatus] else [])) :
    Told manager' (past ++ (notifyServiceStatusLocked record servStatus [] manager).1) := by
  intro holder member tells name
  rw [listeners] at member
  rw [received_append, received_notify linked member tells]
  by_cases same : record.servName = name
  · subst same
    simp only [true_and]
    exact own holder member tells _ (told holder member tells _)
  · rw [if_neg fun both => same both.1, List.append_nil, others name (Ne.symm same)]
    exact told holder member tells name

theorem Told.added (told : Told manager past)
    (linked : (manager.svcstatListeners.map (·.address)).Nodup)
    (absent : recordOf record.servName manager = none)
    (notified : notifyServiceStatusLocked record .start []
      { manager with services := manager.services ++ [record] } = (events, manager')) :
    Told manager' (past ++ events) := by
  obtain rfl := congrArg Prod.snd notified
  obtain rfl := congrArg Prod.fst notified
  rw [notifyServiceStatusLocked_of_nil]
  refine told.notify linked rfl (fun other differs => ?_) fun holder _ _ word fits => ?_
  · rw [recordOf_append absent rfl, if_neg differs]
  · rw [absent, inPhase_none] at fits
    rw [recordOf_append absent rfl, if_pos rfl, inPhase_some]
    split
    · exact append_start fits
    · rwa [List.append_nil]

theorem Told.updated (told : Told manager past)
    (linked : (manager.svcstatListeners.map (·.address)).Nodup)
    (found : recordOf changed.servName manager = some record)
    (steady : ∀ holder ∈ manager.svcstatListeners, holder.notifyStatus →
      (holder.Listens record.devClass ↔ holder.Listens changed.devClass))
    (notified : notifyServiceStatusLocked changed .change [] { manager with
      services := update (·.servName) changed.servName (fun _ => changed) manager.services } =
        (events, manager')) :
    Told manager' (past ++ events) := by
  obtain rfl := congrArg Prod.snd notified
  obtain rfl := congrArg Prod.fst notified
  rw [notifyServiceStatusLocked_of_nil]
  refine told.notify linked rfl (fun other differs => ?_) fun holder member tells word fits => ?_
  · rw [recordOf_update rfl (fun _ _ => rfl), if_neg differs]
  · rw [found, inPhase_some, if_congr (steady holder member tells) rfl rfl] at fits
    rw [recordOf_update rfl (fun _ _ => rfl), if_pos rfl, found, Option.map_some, inPhase_some]
    split
    case isTrue heard => exact append_change (by rwa [if_pos heard] at fits)
    case isFalse unheard =>
      rw [if_neg unheard] at fits
      rwa [List.append_nil]

theorem Told.removed (told : Told manager past) (keyed : WellKeyed charSigned manager)
    (linked : (manager.svcstatListeners.map (·.address)).Nodup)
    (found : recordOf record.servName manager = some record)
    (notified : notifyServiceStatusLocked record .stop [] manager = (events, manager')) :
    Told { manager' with services := remove (·.servName) record.servName manager'.services }
      (past ++ events) := by
  obtain rfl := congrArg Prod.snd notified
  obtain rfl := congrArg Prod.fst notified
  rw [notifyServiceStatusLocked_of_nil]
  refine told.notify linked rfl (fun other differs => ?_) fun holder _ _ word fits => ?_
  · rw [recordOf_remove keyed rfl, if_neg differs]
  · rw [found, inPhase_some] at fits
    rw [recordOf_remove keyed rfl, if_pos rfl, inPhase_none]
    split
    case isTrue heard => exact append_stop (by rwa [if_pos heard] at fits)
    case isFalse unheard =>
      rw [if_neg unheard] at fits
      rwa [List.append_nil]

/-- Records that keep their classes, seen by listeners that are told nothing. -/
theorem Told.silent (told : Told manager past)
    (listeners : ∀ holder ∈ manager'.svcstatListeners, holder ∈ manager.svcstatListeners)
    (classes : ∀ name, (recordOf name manager').map (·.devClass) =
      (recordOf name manager).map (·.devClass)) : Told manager' past := by
  intro holder member tells name
  have fits := told holder (listeners holder member) tells name
  have same : (∃ r ∈ recordOf name manager', holder.Listens r.devClass) ↔
      ∃ r ∈ recordOf name manager, holder.Listens r.devClass := by
    have mapped (o : Option (DevSvcRecord Object)) : (∃ r ∈ o, holder.Listens r.devClass) ↔
        ∃ devClass ∈ o.map (·.devClass), holder.Listens devClass := by simp
    rw [mapped, mapped, classes]
  rw [InPhase, if_congr same rfl rfl]
  exact fits

theorem received_forget_self {listenerHolder : ServStatListenerHolder} :
    received listenerHolder.address name
      ((.regster (some listenerHolder) : Operation Object).forget past) = [] := by
  refine received_eq_nil fun event kept => ?_
  simpa using (List.mem_filter.mp kept).2

theorem Told.regstered {listenerHolder : Option ServStatListenerHolder}
    (told : Told manager past) (keyed : WellKeyed charSigned manager)
    (linked : (manager.svcstatListeners.map (·.address)).Nodup)
    (registered : regsterServListener listenerHolder manager = some (status, events, manager')) :
    (manager'.svcstatListeners.map (·.address)).Nodup ∧
      Told manager' ((.regster listenerHolder : Operation Object).forget past ++ events) := by
  unfold regsterServListener at registered
  split at registered
  case h_1 =>
    cases registered
    exact ⟨linked, by rwa [List.append_nil]⟩
  case h_2 listenerHolder =>
    split at registered
    case isTrue => cases registered
    case isFalse fresh =>
      cases registered
      constructor
      · rw [List.map_append, List.map_singleton, ← List.concat_eq_append, List.nodup_concat]
        exact ⟨fresh, linked⟩
      · intro holder member tells name
        rw [received_append]
        rcases List.mem_append.mp member with member | last
        · -- a listener that is already there neither forgets nor learns
          have differs : listenerHolder.address ≠ holder.address :=
            fun same => fresh (same ▸ List.mem_map_of_mem member)
          have silent : received holder.address name (notifyServiceStatusOnRegisterLocked
              listenerHolder { manager with
                svcstatListeners := manager.svcstatListeners ++ [listenerHolder] }) = [] :=
            received_eq_nil fun event sent => (holder_of_onRegister event sent).trans_ne differs
          rw [silent, List.append_nil, received_forget]
          · exact told holder member tells name
          · intro other same
            cases same
            exact differs
        · obtain rfl := List.mem_singleton.mp last
          -- the new listener forgets what it heard before, and hears of every service there is
          have unique : (({ manager with
              svcstatListeners := manager.svcstatListeners ++ [holder] } :
                DevSvcManager Object).services.map (·.servName)).Nodup := keyed.unique
          rw [received_forget_self, List.nil_append, received_onRegister tells unique, InPhase]
          split
          · exact append_start nil_mem_stopped
          · exact nil_mem_stopped

theorem Told.unregstered {listenerHolder : Option ℕ} (told : Told manager past)
    (linked : (manager.svcstatListeners.map (·.address)).Nodup)
    (unlinked : unregsterServListener listenerHolder manager = some manager') :
    (manager'.svcstatListeners.map (·.address)).Nodup ∧ Told manager' past := by
  unfold unregsterServListener at unlinked
  split at unlinked
  case h_1 =>
    cases unlinked
    exact ⟨linked, told⟩
  case h_2 address =>
    split at unlinked
    · cases unlinked
    · cases unlinked
      exact ⟨linked.sublist map_key_remove_sublist,
        told.silent (fun _ member => List.mem_of_mem_eraseP member) fun _ => rfl⟩

end

/-- A steady history: the records are what has been registered, and the listeners know. -/
structure Informed (charSigned : Bool) (h : History Object) : Prop where
  records : Records charSigned h
  linked : (h.manager.svcstatListeners.map (·.address)).Nodup
  told : Told h.manager h.events

theorem informed_start : Informed charSigned (start : History Object) where
  records := records_start
  linked := List.nodup_nil
  told _ member := absurd member List.not_mem_nil

theorem Informed.stepped {call : Call Object} (informed : Informed charSigned h)
    (quiet : call.failing = []) (steady : Steady charSigned call h)
    (stepped : step charSigned call h = some t) : Informed charSigned t := by
  obtain ⟨records, linked, told⟩ := informed
  obtain ⟨status, events, performed, -, sent⟩ := performs_of_step records.keyed steady.1 stepped
  have after := records.stepped steady.1 stepped
  obtain ⟨-, changes⟩ := steady
  rw [quiet] at performed
  cases call with | mk operation allocs failing =>
  dsimp only at performed changes sent
  suffices (t.manager.svcstatListeners.map (·.address)).Nodup ∧ Told t.manager t.events from
    ⟨after, this.1, this.2⟩
  rw [sent]
  generalize t.manager = manager at performed
  cases performed with
  | refused failed service =>
    rw [service, List.append_nil]
    exact ⟨linked, told⟩
  | @addedAgain name _ service _ _ _ found _ made =>
    rw [List.append_nil]
    have services : manager.services = update (·.servName) name
      (fun record => { record with value := service }) h.manager.services := by rw [made]
    have listeners : manager.svcstatListeners = h.manager.svcstatListeners := by rw [made]
    -- only the object is replaced, and listeners hear nothing about objects
    refine ⟨listeners ▸ linked, told.silent (fun _ member => listeners ▸ member) fun other => ?_⟩
    rw [recordOf_update services fun _ named => named]
    split
    case isTrue same =>
      rw [same, Option.map_map]
      rfl
    case isFalse => rfl
  | @added name _ _ _ _ record absent made _ _ notified =>
    obtain ⟨rfl, -⟩ := made
    have listeners := listeners_of_notified notified
    exact ⟨listeners ▸ linked, told.added linked absent notified⟩
  | @updated name _ _ _ _ record changed found copied made _ _ notified =>
    have listeners := listeners_of_notified notified
    have key : record.servName = name := key_of_search found
    have named : changed.servName = name := by rw [made, ← key]
    subst named
    refine ⟨listeners ▸ linked, told.updated linked found ?_ notified⟩
    rw [made]
    exact changes copied record found
  | removedNothing absent => exact ⟨linked, by rwa [List.append_nil]⟩
  | @removed name _ record found _ left notified =>
    have listeners := listeners_of_notified notified
    obtain rfl := key_of_search found
    exact ⟨listeners ▸ linked, told.removed records.keyed linked found notified⟩
  | regstered registered => exact told.regstered records.keyed linked registered
  | unregstered unlinked =>
    rw [List.append_nil]
    exact told.unregstered linked unlinked

theorem Informed.consistent (informed : Informed charSigned h) : ConsistentLifeCycles h := by
  intro holder member tells name
  have fits := informed.told holder member tells name
  have heard : Heard holder (registration name h.log) ↔
      ∃ r ∈ recordOf name h.manager, holder.Listens r.devClass := by
    rw [← informed.records.registered, Heard, entryOf]
    simp
  rw [heard]
  unfold InPhase at fits
  split at fits
  case isTrue present =>
    exact ⟨mem_lifeCycle_of_started fits, iff_of_true (getLast?_of_started fits) present⟩
  case isFalse absent =>
    refine ⟨mem_lifeCycle_of_stopped fits, iff_of_false ?_ absent⟩
    rintro ⟨last, ends, opened⟩
    obtain rfl := getLast?_of_stopped fits last ends
    simp at opened

/-- In a steady run without failing notifications, the listeners see life cycles. -/
theorem lifeCycles_of_steady (quiet : ∀ call ∈ calls, call.failing = [])
    (steady : Meets (step charSigned) (Steady charSigned) start calls)
    (ran : runs (step charSigned) start calls = some h) : ConsistentLifeCycles h := by
  have new : Informed charSigned (start : History Object) := informed_start
  have conditions := steady.and (meets_of_forall quiet)
  refine (runs_invariant (fun call s t informed conditions stepped => ?_) new conditions
    ran).consistent
  exact informed.stepped conditions.2 conditions.1 stepped

/-- A listener comes while a service is registered, sees it change and go. -/
def visit : List (Call ℕ) := [
  ⟨.add (some (.ofAscii "camera")) 1 (some 10) none, ⟨true, true, true⟩, []⟩,
  ⟨.regster (some ⟨7, 1, true, true⟩), ⟨true, true, true⟩, []⟩,
  ⟨.update (some (.ofAscii "camera")) 3 (some 11) (some (.ofAscii "info")), ⟨true, true, true⟩, []⟩,
  ⟨.remove (some (.ofAscii "camera")), ⟨true, true, true⟩, []⟩]

theorem lifeCycles_visit : ∃ h ∈ runs (step true) start visit, ConsistentLifeCycles h ∧
    received 7 (.ofAscii "camera") h.events = [.start, .change, .stop] := by
  have steady : Meets (step true) (Steady true) start visit := by
    refine ⟨⟨by decide, trivial⟩, fun _ first => ?_⟩
    cases first
    refine ⟨⟨by decide, trivial⟩, fun _ second => ?_⟩
    cases second
    refine ⟨⟨by decide, fun _ => by decide⟩, fun _ third => ?_⟩
    cases third
    exact ⟨⟨by decide, trivial⟩, fun _ _ => trivial⟩
  exact ⟨_, rfl, lifeCycles_of_steady (by decide) steady rfl, by decide⟩

/-- A service of class 1, which a listener has seen start, moves to class 2. -/
def move : List (Call ℕ) := [
  ⟨.regster (some ⟨7, 1, true, true⟩), ⟨true, true, true⟩, []⟩,
  ⟨.add (some (.ofAscii "camera")) 1 (some 10) none, ⟨true, true, true⟩, []⟩,
  ⟨.update (some (.ofAscii "camera")) 2 (some 10) (some (.ofAscii "info")), ⟨true, true, true⟩, []⟩]

theorem update_without_stop : ∃ calls : List (Call ℕ), (∀ call ∈ calls, call.failing = []) ∧
    ∃ h ∈ runs (step true) start calls, ¬ ConsistentLifeCycles h := by
  refine ⟨move, by decide, _, rfl, fun consistent => ?_⟩
  have seen := (consistent ⟨7, 1, true, true⟩ (by decide) rfl (.ofAscii "camera")).2
  obtain ⟨entry, registered, heard⟩ := seen.mp ⟨.start, by decide, .inl rfl⟩
  cases registered
  exact heard (by decide)

end Hdf.Core.ServiceManager
