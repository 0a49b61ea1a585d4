import Hdf.Core.ServiceObserver

/-!
# Who sees a service

A service is meant for the drivers of its own device when its policy is private,
and for all drivers of the host otherwise. The observer decides this in two
places: when a service is published, for the subscribers that wait, and when a
driver subscribes, from the policy and the device id in the record.

A record that a subscriber has created keeps the policy and the device id that it
was created with. So a private service is handed to every driver that subscribes
after the publication, once some driver has subscribed before it.

## Main definitions

* `Call`, `History`, `step`: calls on one observer and what they have led to
* `Visible`: exactly the permitted subscribers have been called
* `Regular`: the calls under which the observer decides right

## Main results

* `visible_of_regular`: regular runs
* `private_service_leaks`: a driver that gets another device's private service
-/

namespace Hdf.Core.ServiceObserver

open KeyedList

variable {Service : Type*}

/-- What a publisher says about its service. -/
structure Publication (Service : Type*) where
  devId : UInt32
  policy : UInt16
  service : Option Service
  deriving DecidableEq

/-- The drivers of a device may use the service. -/
def Publication.Permits (publication : Publication Service) (devId : UInt32) : Prop :=
  publication.policy ≠ servicePolicyPrivate ∨ devId = publication.devId

instance (publication : Publication Service) (devId : UInt32) :
    Decidable (publication.Permits devId) :=
  inferInstanceAs (Decidable (_ ∨ _))

/-- A call on the observer, with the outcomes of its allocations. -/
inductive Call (Service : Type*) where
  | subscribe (svcName : CString) (devId : UInt32) (callback : SubscriberCallback)
      (recordAlloc subscriberAlloc : Bool)
  | publish (svcName : CString) (publication : Publication Service) (recordAlloc : Bool)
  deriving DecidableEq

/-- A call that has succeeded. A subscription comes with the address of the subscriber. -/
inductive Entry (Service : Type*) where
  | subscribed (address : ℕ) (svcName : CString) (devId : UInt32) (callback : SubscriberCallback)
  | published (svcName : CString) (publication : Publication Service)
  deriving DecidableEq

def Call.svcName : Call Service → CString
  | subscribe svcName .. => svcName
  | publish svcName .. => svcName

def Entry.svcName : Entry Service → CString
  | subscribed _ svcName _ _ => svcName
  | published svcName _ => svcName

def Entry.isPublished : Entry Service → Bool
  | subscribed .. => false
  | published .. => true

/-- An observer, the calls on it that have succeeded and the callbacks that it has run. -/
structure History (Service : Type*) where
  observer : Observer Service
  log : List (Entry Service)
  notices : List (Notice Service)
  deriving DecidableEq

/-- The history of a new observer. -/
def start : History Service := { observer := [], log := [], notices := [] }

variable (charSigned : Bool)

/-- A call, with what it adds to the history. -/
def step (call : Call Service) (h : History Service) : Option (History Service) :=
  match call with
  | .subscribe svcName devId callback recordAlloc subscriberAlloc =>
    let address := h.log.length
    let (status, notices, observer) := subscribeService charSigned (some svcName) devId callback
      recordAlloc (if subscriberAlloc then some address else none) h.observer
    some {
      observer := observer
      log := h.log ++
        if status = .success then [.subscribed address svcName devId callback] else []
      notices := h.notices ++ notices }
  | .publish svcName publication recordAlloc =>
    let (status, notices, observer) := publishService charSigned (some svcName)
      publication.devId publication.policy publication.service recordAlloc h.observer
    some {
      observer := observer
      log := h.log ++ if status = .success then [.published svcName publication] else []
      notices := h.notices ++ notices }

/-- Every name has one publisher. -/
def OnePublisher (calls : List (Call Service)) : Prop :=
  ∃ publisher : CString → Publication Service, ∀ svcName publication recordAlloc,
    .publish svcName publication recordAlloc ∈ calls → publication = publisher svcName

/-- Of the subscribers with a callback, those that may use a published service have been
called with it, and no others. -/
def Visible (h : History Service) : Prop :=
  ∀ address svcName devId callback publication,
    .subscribed address svcName devId callback ∈ h.log → callback.onServiceConnected →
    .published svcName publication ∈ h.log →
    (⟨address, callback.deviceObject, publication.service⟩ ∈ h.notices ↔
      publication.Permits devId)

/-- The first call for a name has published the service. -/
def publishedFirst (svcName : CString) (log : List (Entry Service)) : Bool :=
  (search Entry.svcName svcName log).any Entry.isPublished

/-- A call under which the observer goes on to decide right. Its name does not share the key
with another name. A published service is not null. Nobody subscribes to a private service of
another device that was published to earlier subscribers. -/
def Regular (call : Call Service) (h : History Service) : Prop :=
  (∀ entry ∈ h.log, serviceKey charSigned entry.svcName = serviceKey charSigned call.svcName →
    entry.svcName = call.svcName) ∧
  match call with
  | .subscribe svcName devId callback _ _ =>
    callback.onServiceConnected → ∀ publication, .published svcName publication ∈ h.log →
      ¬ publication.Permits devId → publishedFirst svcName h.log
  | .publish _ publication _ => publication.service.isSome

/-! ### The two operations -/

section

variable {charSigned} {svcName : CString} {devId : UInt32} {callback : SubscriberCallback}
  {recordAlloc : Bool} {subscriberAlloc : Option ℕ} {observer observer' : Observer Service}
  {status : HdfStatus} {notices : List (Notice Service)} {publication : Publication Service}
  {record : HdfServiceObserverRecord Service} {log : List (Entry Service)}

@[simp] theorem serviceKey_subscribe (subscriber : HdfServiceSubscriber) :
    (subscribe record subscriber).2.serviceKey = record.serviceKey := by
  unfold subscribe
  split <;> rfl

@[simp] theorem serviceKey_recordNotifySubscribers {policy : UInt16} :
    (recordNotifySubscribers record devId policy).2.serviceKey = record.serviceKey := rfl

/-- A subscription fails without a trace, or goes to the record of the service. -/
theorem subscribeService_spec
    (result : subscribeService charSigned (some svcName) devId callback recordAlloc
      subscriberAlloc observer = (status, notices, observer')) :
    (status ≠ .success ∧ notices = [] ∧ observer' = observer) ∨
      status = .success ∧ ∃ address record changed, subscriberAlloc = some address ∧
        record = (search (·.serviceKey) (serviceKey charSigned svcName) observer).getD
          { serviceKey := serviceKey charSigned svcName } ∧
        (notices, changed) = subscribe record (subscriberObtain address callback devId) ∧
        ∀ k, search (·.serviceKey) k observer' =
          if k = serviceKey charSigned svcName then some changed
          else search (·.serviceKey) k observer := by
  unfold subscribeService at result
  dsimp only at result
  split at result
  case h_1 absent =>
    split at result
    · cases result
      exact .inl ⟨by decide, rfl, rfl⟩
    · split at result
      · cases result
        exact .inl ⟨by decide, rfl, rfl⟩
      · cases result
        refine .inr ⟨rfl, _, _, _, rfl, by rw [absent, Option.getD_none], rfl, fun k => ?_⟩
        rw [search_cons, serviceKey_subscribe]
        exact ite_congr (propext eq_comm) (fun _ => rfl) fun _ => rfl
  case h_2 found there =>
    split at result
    · cases result
      exact .inl ⟨by decide, rfl, rfl⟩
    · cases result
      refine .inr ⟨rfl, _, _, _, rfl, by rw [there, Option.getD_some], rfl, fun k => ?_⟩
      exact search_update_const (by rw [serviceKey_subscribe, key_of_search there]) there

/-- The record of a service after its publication, and the callbacks that are run. -/
def publish (publication : Publication Service) (key : UInt32) :
    Option (HdfServiceObserverRecord Service) →
      List (Notice Service) × HdfServiceObserverRecord Service
  | none => ([], {
      serviceKey := key
      publisher := publication.service
      devId := publication.devId
      policy := publication.policy })
  | some record =>
    recordNotifySubscribers { record with publisher := publication.service } publication.devId
      publication.policy

/-- A publication fails without a trace, or goes to the record of the service. -/
theorem publishService_spec
    (result : publishService charSigned (some svcName) publication.devId publication.policy
      publication.service recordAlloc observer = (status, notices, observer')) :
    (status ≠ .success ∧ notices = [] ∧ observer' = observer) ∨
      status = .success ∧ ∃ changed,
        (notices, changed) = publish publication (serviceKey charSigned svcName)
          (search (·.serviceKey) (serviceKey charSigned svcName) observer) ∧
        ∀ k, search (·.serviceKey) k observer' =
          if k = serviceKey charSigned svcName then some changed
          else search (·.serviceKey) k observer := by
  unfold publishService at result
  dsimp only at result
  split at result
  case h_1 absent =>
    split at result
    · cases result
      exact .inl ⟨by decide, rfl, rfl⟩
    · cases result
      refine .inr ⟨rfl, _, by rw [absent, publish], fun k => ?_⟩
      rw [search_cons]
      exact ite_congr (propext eq_comm) (fun _ => rfl) fun _ => rfl
  case h_2 found there =>
    cases result
    refine .inr ⟨rfl, _, by rw [there, publish], fun k => ?_⟩
    exact search_update_const (by rw [serviceKey_recordNotifySubscribers, key_of_search there])
      there

end

/-! ### The books of a regular run -/

/-- What the record of a service knows of the calls for it. -/
structure Matches (publication : Publication Service) (svcName : CString)
    (log : List (Entry Service)) (record : HdfServiceObserverRecord Service) : Prop where
  waiting : .published svcName publication ∉ log → record.publisher = none
  publisher : .published svcName publication ∈ log → record.publisher = publication.service
  access : publishedFirst svcName log →
    record.policy = publication.policy ∧ record.devId = publication.devId
  unset : ¬ publishedFirst svcName log → record.policy ≠ servicePolicyPrivate
  subscribers : ∀ address devId callback,
    .subscribed address svcName devId callback ∈ log ↔
      ∃ state, ⟨address, state, devId, callback⟩ ∈ record.subscribers

/-- The observer is what the calls for each name make of it. -/
structure Books (publisher : CString → Publication Service) (h : History Service) : Prop where
  apart : ∀ e ∈ h.log, ∀ e' ∈ h.log,
    serviceKey charSigned e.svcName = serviceKey charSigned e'.svcName → e.svcName = e'.svcName
  published : ∀ svcName publication, .published svcName publication ∈ h.log →
    publication = publisher svcName ∧ publication.service.isSome
  address : ∀ address svcName devId callback,
    .subscribed address svcName devId callback ∈ h.log →
      h.log[address]? = some (.subscribed address svcName devId callback)
  recorded : ∀ e ∈ h.log, ∃ record,
    search (·.serviceKey) (serviceKey charSigned e.svcName) h.observer = some record ∧
      Matches (publisher e.svcName) e.svcName h.log record
  logged : ∀ k record, search (·.serviceKey) k h.observer = some record →
    ∃ e ∈ h.log, serviceKey charSigned e.svcName = k
  sound : ∀ notice ∈ h.notices, ∃ svcName devId callback,
    .subscribed notice.subscriber svcName devId callback ∈ h.log ∧
      .published svcName (publisher svcName) ∈ h.log ∧ (publisher svcName).Permits devId
  complete : ∀ address svcName devId callback,
    .subscribed address svcName devId callback ∈ h.log → callback.onServiceConnected →
      .published svcName (publisher svcName) ∈ h.log → (publisher svcName).Permits devId →
      ⟨address, callback.deviceObject, (publisher svcName).service⟩ ∈ h.notices

section

variable {charSigned} {publisher : CString → Publication Service} {h t : History Service}
  {svcName : CString} {record : HdfServiceObserverRecord Service} {log : List (Entry Service)}
  {entry : Entry Service} {publication : Publication Service}

theorem Books.visible (books : Books charSigned publisher h) : Visible h := by
  intro address svcName devId callback publication subscribed connects published
  obtain ⟨rfl, -⟩ := books.published svcName publication published
  constructor
  · intro noticed
    obtain ⟨svcName', devId', callback', subscribed', -, permits⟩ := books.sound _ noticed
    -- an address belongs to one subscription
    have same := (books.address _ _ _ _ subscribed).symm.trans (books.address _ _ _ _ subscribed')
    cases same
    exact permits
  · exact books.complete address svcName devId callback subscribed connects published

theorem books_start : Books charSigned publisher (start : History Service) where
  apart _ member := absurd member List.not_mem_nil
  published _ _ member := absurd member List.not_mem_nil
  address _ _ _ _ member := absurd member List.not_mem_nil
  recorded _ member := absurd member List.not_mem_nil
  logged _ _ found := absurd found (by simp [start])
  sound _ member := absurd member List.not_mem_nil
  complete _ _ _ _ member := absurd member List.not_mem_nil

/-! ### Single records -/

theorem publishedFirst_append : publishedFirst svcName (log ++ [entry]) =
    ((search Entry.svcName svcName log).or
      (if entry.svcName = svcName then some entry else none)).any Entry.isPublished := by
  rw [publishedFirst, search_append_singleton]

theorem publishedFirst_append_ne (other : entry.svcName ≠ svcName) :
    publishedFirst svcName (log ++ [entry]) = publishedFirst svcName log := by
  rw [publishedFirst_append, if_neg other, Option.or_none, publishedFirst]

theorem publishedFirst_append_of_mem (entry : Entry Service)
    (named : svcName ∈ log.map Entry.svcName) :
    publishedFirst svcName (log ++ [entry]) = publishedFirst svcName log := by
  obtain ⟨first, found⟩ := Option.isSome_iff_exists.mp (search_isSome_iff.mpr named)
  rw [publishedFirst_append, found, Option.some_or, publishedFirst, found]

/-- A call for another name changes nothing. -/
theorem Matches.append_ne (fits : Matches publication svcName log record)
    (other : entry.svcName ≠ svcName) :
    Matches publication svcName (log ++ [entry]) record := by
  have mem_append {e : Entry Service} (own : e.svcName = svcName) :
      e ∈ log ++ [entry] ↔ e ∈ log := by
    rw [List.mem_append, List.mem_singleton, or_iff_left]
    rintro rfl
    exact other own
  constructor
  · rw [mem_append rfl]
    exact fits.waiting
  · rw [mem_append rfl]
    exact fits.publisher
  · rw [publishedFirst_append_ne other]
    exact fits.access
  · rw [publishedFirst_append_ne other]
    exact fits.unset
  · intro address devId callback
    rw [mem_append rfl]
    exact fits.subscribers address devId callback

/-- A new record knows of no calls. -/
theorem matches_new {key : UInt32} (unnamed : svcName ∉ log.map Entry.svcName) :
    Matches publication svcName log { serviceKey := key } := by
  have absent {e : Entry Service} (own : e.svcName = svcName) : e ∉ log :=
    fun member => unnamed (List.mem_map.mpr ⟨e, member, own⟩)
  have first : ¬ publishedFirst svcName log := by
    rw [publishedFirst, search_eq_none_iff.mpr unnamed]
    exact Bool.false_ne_true
  constructor
  · exact fun _ => rfl
  · exact fun member => absurd member (absent rfl)
  · exact fun published => absurd published first
  · exact fun _ same => absurd same (by decide : (0 : UInt16) ≠ servicePolicyPrivate)
  · intro address devId callback
    exact iff_of_false (absent rfl) fun ⟨_, member⟩ => absurd member List.not_mem_nil

theorem mem_connect {subscriber : HdfServiceSubscriber} {service : Option Service}
    {notice : Notice Service} : notice ∈ connect subscriber service ↔
      subscriber.callback.onServiceConnected ∧
        notice = ⟨subscriber.address, subscriber.callback.deviceObject, service⟩ := by
  unfold connect
  split <;> simp_all

theorem subscribe_snd (record : HdfServiceObserverRecord Service)
    (subscriber : HdfServiceSubscriber) : ∃ state,
    (subscribe record subscriber).2 = { record with
      subscribers := { subscriber with state := state } :: record.subscribers } := by
  unfold subscribe
  split
  · exact ⟨.ready, rfl⟩
  · exact ⟨subscriber.state, rfl⟩

theorem mem_subscribe_fst {subscriber : HdfServiceSubscriber} {notice : Notice Service} :
    notice ∈ (subscribe record subscriber).1 ↔
      record.publisher.isSome ∧ subscriber.callback.onServiceConnected ∧
        (record.policy ≠ servicePolicyPrivate ∨ record.devId = subscriber.devId) ∧
        notice = ⟨subscriber.address, subscriber.callback.deviceObject, record.publisher⟩ := by
  unfold subscribe
  split
  case isTrue called =>
    rw [mem_connect]
    exact ⟨fun noticed => ⟨called.1, called.2.1, called.2.2, noticed.2⟩,
      fun noticed => ⟨called.2.1, noticed.2.2.2⟩⟩
  case isFalse skipped =>
    exact iff_of_false List.not_mem_nil fun noticed =>
      skipped ⟨noticed.1, noticed.2.1, noticed.2.2.1⟩

theorem Matches.subscribe {address : ℕ} {devId : UInt32} {callback : SubscriberCallback}
    (fits : Matches publication svcName log record) :
    Matches publication svcName (log ++ [.subscribed address svcName devId callback])
      (subscribe record (subscriberObtain address callback devId)).2 := by
  have published : Entry.published svcName publication ∈
      log ++ [Entry.subscribed address svcName devId callback] ↔
        Entry.published svcName publication ∈ log := by simp
  have first : publishedFirst svcName (log ++ [Entry.subscribed address svcName devId callback]) =
      publishedFirst svcName log := by
    rw [publishedFirst_append, publishedFirst]
    cases search Entry.svcName svcName log <;> simp [Entry.svcName, Entry.isPublished]
  obtain ⟨state, changed⟩ := subscribe_snd record
    (subscriberObtain address callback devId)
  rw [changed]
  constructor
  · rw [published]
    exact fits.waiting
  · rw [published]
    exact fits.publisher
  · rw [first]
    exact fits.access
  · rw [first]
    exact fits.unset
  · intro address' devId' callback'
    rw [List.mem_append, fits.subscribers, List.mem_singleton]
    constructor
    · rintro (⟨state', member⟩ | same)
      · exact ⟨state', List.mem_cons_of_mem _ member⟩
      · cases same
        exact ⟨state, List.mem_cons_self⟩
    · rintro ⟨state', member⟩
      rcases List.mem_cons.mp member with same | member
      · cases same
        exact .inr rfl
      · exact .inl ⟨state', member⟩

theorem mem_publish_fst {key : UInt32} {notice : Notice Service} :
    notice ∈ (publish publication key (some record)).1 ↔
      ∃ subscriber ∈ record.subscribers, publication.Permits subscriber.devId ∧
        subscriber.callback.onServiceConnected ∧
        notice = ⟨subscriber.address, subscriber.callback.deviceObject, publication.service⟩ := by
  have single (subscriber : HdfServiceSubscriber) :
      notice ∈ (notifySubscriber publication.devId publication.policy publication.service
        subscriber).1 ↔ publication.Permits subscriber.devId ∧
          subscriber.callback.onServiceConnected ∧
          notice = ⟨subscriber.address, subscriber.callback.deviceObject,
            publication.service⟩ := by
    unfold notifySubscriber
    split
    case isTrue permits =>
      rw [mem_connect]
      exact (and_iff_right (permits.symm.imp_right Eq.symm)).symm
    case isFalse denied =>
      exact iff_of_false List.not_mem_nil fun noticed =>
        denied (noticed.1.symm.imp_left Eq.symm)
  simp only [publish, recordNotifySubscribers, List.mem_flatMap, List.mem_map,
    exists_exists_and_eq_and, single]

/-- Notifying a subscriber only changes its state. -/
theorem notifySubscriber_snd (devId : UInt32) (policy : UInt16) (service : Option Service)
    (subscriber : HdfServiceSubscriber) : ∃ state,
      (notifySubscriber devId policy service subscriber).2 =
        { subscriber with state := state } := by
  unfold notifySubscriber
  split
  · exact ⟨.ready, rfl⟩
  · exact ⟨subscriber.state, rfl⟩

theorem Matches.publish {key : UInt32} (fits : Matches publication svcName log record)
    (named : svcName ∈ log.map Entry.svcName) :
    Matches publication svcName (log ++ [Entry.published svcName publication])
      (publish publication key (some record)).2 := by
  have first := publishedFirst_append_of_mem (Entry.published svcName publication) named
  constructor
  · exact fun absent => absurd (by simp) absent
  · exact fun _ => rfl
  · rw [first]
    exact fits.access
  · rw [first]
    exact fits.unset
  · intro address devId callback
    rw [List.mem_append, fits.subscribers, List.mem_singleton, or_iff_left (by simp)]
    simp only [ServiceObserver.publish, recordNotifySubscribers, List.map_map, List.mem_map,
      Function.comp_apply]
    constructor
    · rintro ⟨state, member⟩
      obtain ⟨state', changed⟩ := notifySubscriber_snd publication.devId
        publication.policy publication.service
        ⟨address, state, devId, callback⟩
      exact ⟨state', _, member, changed⟩
    · rintro ⟨state, ⟨address', state', devId', callback'⟩, member, same⟩
      obtain ⟨state'', changed⟩ := notifySubscriber_snd publication.devId
        publication.policy publication.service
        ⟨address', state', devId', callback'⟩
      cases changed.symm.trans same
      exact ⟨state', member⟩

theorem matches_publish_new {key : UInt32} (unnamed : svcName ∉ log.map Entry.svcName) :
    Matches publication svcName (log ++ [Entry.published svcName publication])
      (publish publication key none).2 := by
  have first : publishedFirst svcName (log ++ [Entry.published svcName publication]) := by
    rw [publishedFirst_append, search_eq_none_iff.mpr unnamed]
    simp [Entry.svcName, Entry.isPublished]
  constructor
  · exact fun absent => absurd (by simp) absent
  · exact fun _ => rfl
  · exact fun _ => ⟨rfl, rfl⟩
  · exact fun absent => absurd first absent
  · intro address devId callback
    refine iff_of_false (fun member => ?_) fun ⟨_, member⟩ => absurd member List.not_mem_nil
    rw [List.mem_append, List.mem_singleton, or_iff_left (by simp)] at member
    exact unnamed (List.mem_map.mpr ⟨_, member, rfl⟩)

/-! ### Regular runs -/

/-- The record that a call for a name finds, or makes, knows the calls for that name. -/
theorem Books.current (books : Books charSigned publisher h)
    (alone : ∀ e ∈ h.log,
      serviceKey charSigned e.svcName = serviceKey charSigned svcName → e.svcName = svcName) :
    (search (·.serviceKey) (serviceKey charSigned svcName) h.observer = none ∧
      svcName ∉ h.log.map Entry.svcName) ∨
    ∃ record, search (·.serviceKey) (serviceKey charSigned svcName) h.observer = some record ∧
      svcName ∈ h.log.map Entry.svcName ∧ Matches (publisher svcName) svcName h.log record := by
  cases found : search (·.serviceKey) (serviceKey charSigned svcName) h.observer with
  | none =>
    refine .inl ⟨rfl, fun named => ?_⟩
    obtain ⟨e, member, rfl⟩ := List.mem_map.mp named
    obtain ⟨record, there, -⟩ := books.recorded e member
    cases found.symm.trans there
  | some record =>
    obtain ⟨e, member, same⟩ := books.logged _ _ found
    obtain rfl := alone e member same
    obtain ⟨record', there, fits⟩ := books.recorded e member
    cases found.symm.trans there
    exact .inr ⟨record, rfl, List.mem_map_of_mem member, fits⟩

/-- The books after a call for a name that shares its key with no other: the record of the
name changes along with the log. -/
theorem Books.append (books : Books charSigned publisher h) {changed} {notices}
    (svcName : CString) (entry : Entry Service) (own : entry.svcName = svcName)
    (alone : ∀ e ∈ h.log,
      serviceKey charSigned e.svcName = serviceKey charSigned svcName → e.svcName = svcName)
    (published : ∀ publication, entry = .published svcName publication →
      publication = publisher svcName ∧ publication.service.isSome)
    (address : ∀ address devId callback,
      entry = .subscribed address svcName devId callback → address = h.log.length)
    (records : ∀ k, search (·.serviceKey) k t.observer =
      if k = serviceKey charSigned svcName then some changed
      else search (·.serviceKey) k h.observer)
    (logs : t.log = h.log ++ [entry]) (sends : t.notices = h.notices ++ notices)
    (fits : Matches (publisher svcName) svcName (h.log ++ [entry]) changed)
    (sound : ∀ notice ∈ notices, ∃ devId callback,
      .subscribed notice.subscriber svcName devId callback ∈ h.log ++ [entry] ∧
        .published svcName (publisher svcName) ∈ h.log ++ [entry] ∧
        (publisher svcName).Permits devId)
    (complete : ∀ address devId callback,
      .subscribed address svcName devId callback ∈ h.log ++ [entry] →
        callback.onServiceConnected → .published svcName (publisher svcName) ∈ h.log ++ [entry] →
        (publisher svcName).Permits devId →
        ⟨address, callback.deviceObject, (publisher svcName).service⟩ ∈ h.notices ++ notices) :
    Books charSigned publisher t := by
  have older {e : Entry Service} (member : e ∈ h.log) : e ∈ h.log ++ [entry] :=
    List.mem_append_left _ member
  -- the new entry is about one service, and everything about others is old
  have before {e : Entry Service} (member : e ∈ h.log ++ [entry]) (other : e.svcName ≠ svcName) :
      e ∈ h.log := by
    rcases List.mem_append.mp member with member | last
    · exact member
    · obtain rfl := List.mem_singleton.mp last
      exact absurd own other
  have keys {e : Entry Service} (member : e ∈ h.log ++ [entry])
      (same : serviceKey charSigned e.svcName = serviceKey charSigned svcName) :
      e.svcName = svcName := by
    by_contra other
    exact other (alone e (before member other) same)
  constructor
  · rw [logs]
    intro e member e' member' same
    -- keys that are equal belong to equal names
    by_cases first : e.svcName = svcName
    · exact first.trans (keys member' (first ▸ same.symm)).symm
    · by_cases second : e'.svcName = svcName
      · exact absurd (keys member (second ▸ same)) first
      · exact books.apart e (before member first) e' (before member' second) same
  · rw [logs]
    intro svcName' publication member
    rcases List.mem_append.mp member with member | last
    · exact books.published _ _ member
    · have last := List.mem_singleton.mp last
      obtain rfl : svcName' = svcName := by rw [← own, ← last]; rfl
      exact published _ last.symm
  · rw [logs]
    intro address' svcName' devId callback member
    rcases List.mem_append.mp member with member | last
    · have there := books.address _ _ _ _ member
      obtain ⟨bound, -⟩ := List.getElem?_eq_some_iff.mp there
      rw [List.getElem?_append_left bound, there]
    · have last := List.mem_singleton.mp last
      obtain rfl : svcName' = svcName := by rw [← own, ← last]; rfl
      obtain rfl := address _ _ _ last.symm
      rw [List.getElem?_concat_length, last]
  · rw [logs]
    intro e member
    rw [records]
    by_cases same : e.svcName = svcName
    · rw [same, if_pos rfl]
      exact ⟨changed, rfl, fits⟩
    · rw [if_neg fun equal => same (keys member equal)]
      obtain ⟨record, there, fits⟩ := books.recorded e (before member same)
      refine ⟨record, there, fits.append_ne ?_⟩
      rw [own]
      exact Ne.symm same
  · rw [logs]
    intro k record found
    rw [records] at found
    split at found
    case isTrue same => exact ⟨entry, by simp, by rw [own, same]⟩
    case isFalse =>
      obtain ⟨e, member, same⟩ := books.logged k record found
      exact ⟨e, older member, same⟩
  · rw [logs, sends]
    intro notice member
    rcases List.mem_append.mp member with member | new
    · obtain ⟨svcName', devId, callback, subscribed, shown, permits⟩ := books.sound _ member
      exact ⟨svcName', devId, callback, older subscribed, older shown, permits⟩
    · obtain ⟨devId, callback, subscribed, shown, permits⟩ := sound _ new
      exact ⟨svcName, devId, callback, subscribed, shown, permits⟩
  · rw [logs, sends]
    intro address' svcName' devId callback subscribed connects shown permits
    by_cases same : svcName' = svcName
    · subst same
      exact complete _ _ _ subscribed connects shown permits
    · exact List.mem_append_left _ (books.complete _ _ _ _ (before subscribed same) connects
        (before shown same) permits)

theorem Books.step_subscribe {devId : UInt32} {callback : SubscriberCallback}
    {recordAlloc subscriberAlloc : Bool} (books : Books charSigned publisher h)
    (regular : Regular charSigned
      (.subscribe svcName devId callback recordAlloc subscriberAlloc) h)
    (stepped : step charSigned (.subscribe svcName devId callback recordAlloc subscriberAlloc) h =
      some t) : Books charSigned publisher t := by
  have alone : ∀ e ∈ h.log,
    serviceKey charSigned e.svcName = serviceKey charSigned svcName → e.svcName = svcName :=
    regular.1
  have entitled : callback.onServiceConnected → ∀ publication,
      .published svcName publication ∈ h.log → ¬ publication.Permits devId →
        publishedFirst svcName h.log :=
    regular.2
  rw [step] at stepped
  generalize result : subscribeService charSigned (some svcName) devId callback recordAlloc
    (if subscriberAlloc then some h.log.length else none) h.observer = outcome at stepped
  obtain ⟨status, notices, observer⟩ := outcome
  rcases subscribeService_spec result with
    ⟨failed, rfl, rfl⟩ | ⟨rfl, address, record, changed, placed, found, ran, records⟩
  · simp only [if_neg failed, List.append_nil, Option.some.injEq] at stepped
    exact stepped ▸ books
  simp only [if_pos, Option.some.injEq] at stepped
  subst stepped
  obtain ⟨-, same⟩ := Option.ite_none_right_eq_some.mp placed
  obtain rfl := Option.some.inj same
  obtain ⟨rfl, rfl⟩ := Prod.ext_iff.mp ran
  have fits : Matches (publisher svcName) svcName h.log record := by
    rcases books.current alone with ⟨absent, unnamed⟩ | ⟨known, there, -, fits⟩
    · rw [found, absent]
      exact matches_new unnamed
    · rw [found, there]
      exact fits
  have shown : Entry.published svcName (publisher svcName) ∈
      h.log ++ [Entry.subscribed h.log.length svcName devId callback] ↔
        Entry.published svcName (publisher svcName) ∈ h.log := by simp
  refine books.append svcName (.subscribed h.log.length svcName devId callback) rfl alone
    (fun _ same => nomatch same) ?_ records rfl rfl fits.subscribe ?_ ?_
  · intro _ _ _ same
    cases same
    rfl
  · intro notice noticed
    obtain ⟨ready, connects, access, rfl⟩ := mem_subscribe_fst.mp noticed
    rw [shown]
    have published : .published svcName (publisher svcName) ∈ h.log := by
      by_contra absent
      rw [fits.waiting absent] at ready
      cases ready
    refine ⟨devId, callback, by simp [subscriberObtain], published, ?_⟩
    -- a private service is only asked for by its own device, or its record is up to date
    by_contra denied
    obtain ⟨policy, owner⟩ := fits.access (entitled connects _ published denied)
    rw [policy, owner] at access
    exact denied (access.imp_right Eq.symm)
  · intro address devId' callback' subscribed connects published permits
    rw [shown] at published
    rcases List.mem_append.mp subscribed with earlier | last
    · exact List.mem_append_left _ (books.complete _ _ _ _ earlier connects published permits)
    · cases List.mem_singleton.mp last
      refine List.mem_append_right _ (mem_subscribe_fst.mpr ?_)
      have publishes := fits.publisher published
      refine ⟨?_, connects, ?_, by rw [publishes]; rfl⟩
      · rw [publishes]
        exact (books.published _ _ published).2
      · by_cases first : publishedFirst svcName h.log
        · rw [(fits.access first).1, (fits.access first).2]
          exact permits.imp_right Eq.symm
        · exact .inl (fits.unset first)

theorem Books.step_publish {recordAlloc : Bool} (books : Books charSigned publisher h)
    (own : publication = publisher svcName)
    (regular : Regular charSigned (.publish svcName publication recordAlloc) h)
    (stepped : step charSigned (.publish svcName publication recordAlloc) h = some t) :
    Books charSigned publisher t := by
  have alone : ∀ e ∈ h.log,
    serviceKey charSigned e.svcName = serviceKey charSigned svcName → e.svcName = svcName :=
    regular.1
  have present : publication.service.isSome := regular.2
  rw [step] at stepped
  generalize result : publishService charSigned (some svcName) publication.devId
    publication.policy publication.service recordAlloc h.observer = outcome at stepped
  obtain ⟨status, notices, observer⟩ := outcome
  rcases publishService_spec result with ⟨failed, rfl, rfl⟩ | ⟨rfl, changed, ran, records⟩
  · simp only [if_neg failed, List.append_nil, Option.some.injEq] at stepped
    exact stepped ▸ books
  simp only [if_pos, Option.some.injEq] at stepped
  subst stepped
  obtain ⟨rfl, rfl⟩ := Prod.ext_iff.mp ran
  have subscribers (address : ℕ) (devId : UInt32) (callback : SubscriberCallback) :
      Entry.subscribed address svcName devId callback ∈
          h.log ++ [Entry.published svcName publication] ↔
        Entry.subscribed address svcName devId callback ∈ h.log := by simp
  have published : Entry.published svcName publication ∈
      h.log ++ [Entry.published svcName publication] := by simp
  have only : ∀ publication',
      Entry.published svcName publication = .published svcName publication' →
        publication' = publisher svcName ∧ publication'.service.isSome := by
    intro publication' same
    cases same
    exact ⟨own, present⟩
  rcases books.current alone with ⟨absent, unnamed⟩ | ⟨record, there, named, fits⟩
  · refine books.append svcName (.published svcName publication) rfl alone only
      (fun _ _ _ same => nomatch same) records rfl rfl ?_ ?_ ?_
    · rw [absent, ← own]
      exact matches_publish_new unnamed
    · intro notice noticed
      rw [absent] at noticed
      exact absurd noticed List.not_mem_nil
    · intro address devId callback subscribed
      rw [subscribers] at subscribed
      exact absurd (List.mem_map_of_mem subscribed) unnamed
  · refine books.append svcName (.published svcName publication) rfl alone only
      (fun _ _ _ same => nomatch same) records rfl rfl ?_ ?_ ?_
    · rw [there, own]
      exact fits.publish named
    · intro notice noticed
      rw [there] at noticed
      obtain ⟨⟨address, state, devId, callback⟩, member, permits, connects, rfl⟩ :=
        mem_publish_fst.mp noticed
      refine ⟨devId, callback, ?_, own ▸ published, own ▸ permits⟩
      exact (subscribers ..).mpr ((fits.subscribers address devId callback).mpr ⟨state, member⟩)
    · intro address devId callback subscribed connects _ permits
      rw [subscribers] at subscribed
      obtain ⟨state, member⟩ := (fits.subscribers address devId callback).mp subscribed
      refine List.mem_append_right _ ?_
      rw [there, ← own]
      exact mem_publish_fst.mpr ⟨_, member, own ▸ permits, connects, rfl⟩

/-- A publication is the one of the publisher of its name. -/
def Call.Publishes (publisher : CString → Publication Service) : Call Service → Prop
  | subscribe .. => True
  | publish svcName publication _ => publication = publisher svcName

/-- In a regular run with one publisher per name, the order of the calls does not matter:
the subscribers that have been called with a service are those that may use it. -/
theorem visible_of_regular {calls : List (Call Service)} (single : OnePublisher calls)
    (regular : Meets (step charSigned) (Regular charSigned) start calls)
    (ran : runs (step charSigned) start calls = some h) : Visible h := by
  obtain ⟨publisher, single⟩ := single
  have own : ∀ call ∈ calls, call.Publishes publisher := by
    intro call member
    cases call with
    | subscribe svcName devId callback recordAlloc subscriberAlloc => trivial
    | publish svcName publication recordAlloc => exact single svcName publication recordAlloc member
  have holds : Books charSigned publisher start := books_start
  refine (runs_invariant ?_ holds
    (regular.and (meets_of_forall own)) ran).visible
  intro call s t books conditions stepped
  cases call with
  | subscribe svcName devId callback recordAlloc subscriberAlloc =>
    exact books.step_subscribe conditions.1 stepped
  | publish svcName publication recordAlloc =>
    exact books.step_publish conditions.2 conditions.1 stepped

/-- A private service, and a driver of another device that asks for it first. -/
def guarded : List (Call ℕ) := [
  .publish (.ofAscii "camera") ⟨2, servicePolicyPrivate, some 7⟩ true,
  .subscribe (.ofAscii "camera") 3 ⟨30, true⟩ true true,
  .subscribe (.ofAscii "camera") 2 ⟨20, true⟩ true true]

theorem visible_guarded : ∃ h ∈ runs (step true) start guarded, Visible h ∧
    h.notices = [⟨2, 20, some 7⟩] := by
  have single : OnePublisher guarded :=
    ⟨fun _ => ⟨2, servicePolicyPrivate, some 7⟩, by simp [guarded]⟩
  have regular : Meets (step true) (Regular true) start guarded := by
    refine ⟨⟨by decide, rfl⟩, fun _ first => ?_⟩
    cases first
    refine ⟨⟨by decide, fun _ _ _ _ => by decide⟩, fun _ second => ?_⟩
    cases second
    exact ⟨⟨by decide, fun _ _ _ _ => by decide⟩, fun _ _ => trivial⟩
  exact ⟨_, rfl, visible_of_regular single regular rfl, by decide⟩

/-- A driver of another device asks for a private service, and the record of the service is
already there when it is published. -/
def leak : List (Call ℕ) := [
  .subscribe (.ofAscii "camera") 1 ⟨10, true⟩ true true,
  .publish (.ofAscii "camera") ⟨2, servicePolicyPrivate, some 7⟩ true,
  .subscribe (.ofAscii "camera") 3 ⟨30, true⟩ true true]

theorem private_service_leaks : ∃ calls : List (Call ℕ), OnePublisher calls ∧
    ∃ h ∈ runs (step true) start calls, ¬ Visible h := by
  refine ⟨leak, ⟨fun _ => ⟨2, servicePolicyPrivate, some 7⟩, by simp [leak]⟩, _, rfl, ?_⟩
  intro visible
  have called := visible 2 (.ofAscii "camera") 3 ⟨30, true⟩ ⟨2, servicePolicyPrivate, some 7⟩
    (by decide) rfl (by decide)
  exact absurd (called.mp (by decide)) (by decide)

end

end Hdf.Core.ServiceObserver
