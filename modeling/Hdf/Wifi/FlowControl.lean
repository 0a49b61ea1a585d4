import Hdf.Core.Base

/-!
# Flow control queues

A flow control module has nine queues for each direction. A worker for each direction
hands the queues to the driver in the order of a priority map, which depends on the
role of the device. The pass of the transmitting worker covers three entries of its
map, that of the receiving worker all nine.

## Main results

* `sendAll_spec`: handing over the queues of a list, one after the other
* `never_handed`: queues that no number of passes hands over
* `served_iff`: when one pass serves every queue
-/

namespace Hdf.Wifi.FlowControl

open Hdf.Core

/-- `FlowControlQueueID`. -/
inductive FlowControlQueueID
  | ctrl | vip | normal | tcpData | tcpAck | bk | be | vi | vo
  deriving DecidableEq, Repr

open FlowControlQueueID

/-- The queue with a number, where the number is less than `QUEUE_ID_COUNT`. -/
def FlowControlQueueID.ofNat? : ℕ → Option FlowControlQueueID
  | 0 => some ctrl
  | 1 => some vip
  | 2 => some normal
  | 3 => some tcpData
  | 4 => some tcpAck
  | 5 => some bk
  | 6 => some be
  | 7 => some vi
  | 8 => some vo
  | _ => none

/-- The number of a queue. -/
def FlowControlQueueID.toNat : FlowControlQueueID → ℕ
  | ctrl => 0
  | vip => 1
  | normal => 2
  | tcpData => 3
  | tcpAck => 4
  | bk => 5
  | be => 6
  | vi => 7
  | vo => 8

@[simp] theorem FlowControlQueueID.ofNat?_toNat (id : FlowControlQueueID) :
    ofNat? id.toNat = some id := by
  cases id <;> rfl

/-- `FlowDir`. -/
inductive FlowDir
  | tx | rx
  deriving DecidableEq, Repr

/-- The direction with a number, where the number is less than `FLOW_DIR_COUNT`. -/
def FlowDir.ofNat? : ℕ → Option FlowDir
  | 0 => some .tx
  | 1 => some .rx
  | _ => none

/-- The number of a direction. -/
def FlowDir.toNat : FlowDir → ℕ
  | tx => 0
  | rx => 1

@[simp] theorem FlowDir.ofNat?_toNat (dir : FlowDir) : ofNat? dir.toNat = some dir := by
  cases dir <;> rfl

/-- A network buffer: `NetBufGetDataLen`, and what is in it. -/
structure NetBuf where
  dataLen : ℕ
  content : ℕ
  deriving DecidableEq, Repr

/-- `struct FlowControlQueue`. -/
structure FlowControlQueue where
  dataQueue : List NetBuf
  queueThreshold : ℕ
  pktCount : ℕ
  deriving DecidableEq, Repr

/-- `struct FlowControlOp`: what the driver does, on its own data. A function that transfers
packets leaves some of the queue it is given. -/
structure FlowControlOp (σ : Type*) where
  isDeviceStaOrP2PClient : Option (σ → Bool)
  txDataPacket : Option (List NetBuf → ℤ → σ → List NetBuf × σ)
  rxDataPacket : Option (List NetBuf → ℤ → σ → List NetBuf × σ)
  getTxPriorityId : Option (FlowControlQueueID → ℤ)
  getRxPriorityId : Option (FlowControlQueueID → ℤ)

/-- A queue that was handed to the driver, with what was in it. -/
structure Handed where
  dir : FlowDir
  id : FlowControlQueueID
  packets : List NetBuf
  deriving DecidableEq, Repr

/-- `struct FlowControlModule`: its queues and its operations, the data of the driver, and the
queues that the driver was given so far. -/
structure FlowControlModule (σ : Type*) where
  fcmQueue : FlowDir → FlowControlQueueID → FlowControlQueue
  op : Option (FlowControlOp σ)
  fcmPriv : σ
  handed : List Handed

variable {σ : Type*}

/-- The module with one queue replaced. -/
def FlowControlModule.setQueue (fcm : FlowControlModule σ) (dir : FlowDir)
    (id : FlowControlQueueID) (queue : FlowControlQueue) : FlowControlModule σ :=
  { fcm with
    fcmQueue := fun dir' id' => if dir' = dir ∧ id' = id then queue else fcm.fcmQueue dir' id' }

/-- `FcmQueuePreProcess`: a queue that is longer than its threshold loses its oldest packet. -/
def fcmQueuePreProcess (queue : FlowControlQueue) : FlowControlQueue :=
  if 0 < queue.queueThreshold ∧ queue.queueThreshold < queue.dataQueue.length then
    { queue with dataQueue := queue.dataQueue.tail }
  else queue

/-- `SendBuffToFCM`. -/
def sendBuffToFCM (fcm : FlowControlModule σ) (buff : Option NetBuf) (id dir : ℕ) :
    HdfStatus × FlowControlModule σ :=
  match buff, FlowControlQueueID.ofNat? id, FlowDir.ofNat? dir with
  | some buff, some id, some dir =>
    if buff.dataLen = 0 then (.invalidParam, fcm)
    else
      let queue := fcmQueuePreProcess (fcm.fcmQueue dir id)
      let pktCount := if queue.dataQueue = [] then 0 else queue.pktCount
      (.success, fcm.setQueue dir id
        { queue with dataQueue := queue.dataQueue ++ [buff], pktCount := pktCount + 1 })
  | _, _, _ => (.invalidParam, fcm)

/-- The function of the driver for the packets of one direction. -/
def FlowControlOp.dataPacket (op : FlowControlOp σ) :
    FlowDir → Option (List NetBuf → ℤ → σ → List NetBuf × σ)
  | .tx => op.txDataPacket
  | .rx => op.rxDataPacket

/-- The priority that the driver gives a queue, or 0. -/
def FlowControlOp.priorityId (op : FlowControlOp σ) (id : FlowControlQueueID) : FlowDir → ℤ
  | .tx => (op.getTxPriorityId.map fun get => get id).getD 0
  | .rx => (op.getRxPriorityId.map fun get => get id).getD 0

/-- `SendFlowControlQueue`. -/
def sendFlowControlQueue (fcm : FlowControlModule σ) (id dir : ℕ) :
    HdfStatus × FlowControlModule σ :=
  match FlowControlQueueID.ofNat? id, FlowDir.ofNat? dir with
  | some id, some dir =>
    let queue := fcm.fcmQueue dir id
    if queue.dataQueue = [] then (.success, fcm)
    else
      match fcm.op.bind fun op => (op.dataPacket dir).map fun send => (op, send) with
      | none => (.invalidParam, fcm)
      | some (op, send) =>
        let (left, fcmPriv) := send queue.dataQueue (op.priorityId id dir) fcm.fcmPriv
        (.success, { fcm.setQueue dir id { queue with dataQueue := left } with
          fcmPriv
          handed := fcm.handed ++ [⟨dir, id, queue.dataQueue⟩] })
  | _, _ => (.invalidParam, fcm)

/-- `g_staPriorityMapTx`. -/
def staPriorityMapTx : List FlowControlQueueID :=
  [ctrl, vip, normal, tcpAck, tcpData, vo, vi, be, bk]

/-- `g_staPriorityMapRx`. -/
def staPriorityMapRx : List FlowControlQueueID :=
  [ctrl, vip, normal, tcpData, tcpAck, vo, vi, be, bk]

/-- `g_priorityMapTx`. -/
def priorityMapTx : List FlowControlQueueID :=
  [ctrl, vip, normal, tcpData, tcpAck, vo, vi, be, bk]

/-- `g_priorityMapRx`. -/
def priorityMapRx : List FlowControlQueueID :=
  [ctrl, vip, normal, tcpAck, tcpData, vo, vi, be, bk]

/-- `QUEUE_ID_COUNT`. -/
def queueIdCount : ℕ := 9

/-- `FLOW_CONTROL_MAP_SIZE`. -/
def flowControlMapSize : ℕ := 3

/-- Whether the device is a station, as the driver says. -/
def FlowControlModule.isSta (fcm : FlowControlModule σ) : Bool :=
  ((fcm.op.bind FlowControlOp.isDeviceStaOrP2PClient).map fun ask => ask fcm.fcmPriv).getD false

/-- `SendFlowControlQueue` for the first entries of a map. -/
def sendAll (dir : FlowDir) (map : List FlowControlQueueID) (fcm : FlowControlModule σ) :
    FlowControlModule σ :=
  map.foldl (fun fcm id => (sendFlowControlQueue fcm id.toNat dir.toNat).2) fcm

/-- `FlowControlTxTreadProcess`. -/
def flowControlTxTreadProcess (fcm : FlowControlModule σ) : FlowControlModule σ :=
  if fcm.isSta then sendAll .tx (staPriorityMapTx.take flowControlMapSize) fcm
  else sendAll .tx (priorityMapTx.take flowControlMapSize) fcm

/-- `FlowControlRxTreadProcess`. -/
def flowControlRxTreadProcess (fcm : FlowControlModule σ) : FlowControlModule σ :=
  if fcm.isSta then sendAll .rx (staPriorityMapRx.take queueIdCount) fcm
  else sendAll .rx (priorityMapRx.take queueIdCount) fcm

/-- One pass of the worker for a direction. -/
def threadProcess : FlowDir → FlowControlModule σ → FlowControlModule σ
  | .tx => flowControlTxTreadProcess
  | .rx => flowControlRxTreadProcess

/-- The priority map of a direction. -/
def priorityMap (isSta : Bool) : FlowDir → List FlowControlQueueID
  | .tx => if isSta then staPriorityMapTx else priorityMapTx
  | .rx => if isSta then staPriorityMapRx else priorityMapRx

/-- What a pass over a list of queues should hand to the driver. -/
def FlowControlModule.waiting (fcm : FlowControlModule σ) (dir : FlowDir)
    (map : List FlowControlQueueID) : List Handed :=
  (map.filter fun id => (fcm.fcmQueue dir id).dataQueue ≠ []).map fun id =>
    ⟨dir, id, (fcm.fcmQueue dir id).dataQueue⟩

/-- Every queue of a direction is served: one pass hands each that is not empty to the driver,
once and in the order of the map, and none stays behind for ever. -/
structure Served (dir : FlowDir) (fcm : FlowControlModule σ) : Prop where
  inOrder : (threadProcess dir fcm).handed =
    fcm.handed ++ fcm.waiting dir (priorityMap fcm.isSta dir)
  notBehind : ∀ id, (fcm.fcmQueue dir id).dataQueue ≠ [] →
    ∃ passes packets, ⟨dir, id, packets⟩ ∈
      ((threadProcess dir)^[passes] fcm).handed.drop fcm.handed.length

/-! ## Handing queues over -/

variable {fcm fcm' : FlowControlModule σ} {op : FlowControlOp σ} {dir : FlowDir}
  {id : FlowControlQueueID} {map map' : List FlowControlQueueID}

/-- The driver takes packets in both directions. -/
structure Registered (fcm : FlowControlModule σ) : Prop where
  exists_op : ∃ op, fcm.op = some op ∧ op.txDataPacket ≠ none ∧ op.rxDataPacket ≠ none

theorem Registered.exists_dataPacket (registered : Registered fcm) (dir : FlowDir) :
    ∃ op send, fcm.op = some op ∧ op.dataPacket dir = some send := by
  obtain ⟨op, known, tx, rx⟩ := registered.exists_op
  cases dir with
  | tx =>
    obtain ⟨send, here⟩ := Option.ne_none_iff_exists'.mp tx
    exact ⟨op, send, known, here⟩
  | rx =>
    obtain ⟨send, here⟩ := Option.ne_none_iff_exists'.mp rx
    exact ⟨op, send, known, here⟩

/-- What handing over one queue does: it is handed over if it is not empty, and all else
stays. -/
theorem sendFlowControlQueue_spec (registered : Registered fcm) (id : FlowControlQueueID)
    (dir : FlowDir) :
    let fcm' := (sendFlowControlQueue fcm id.toNat dir.toNat).2
    fcm'.op = fcm.op ∧ fcm'.handed = fcm.handed ++ fcm.waiting dir [id] ∧
      ∀ dir' id', (dir', id') ≠ (dir, id) → fcm'.fcmQueue dir' id' = fcm.fcmQueue dir' id' := by
  obtain ⟨op, send, known, here⟩ := registered.exists_dataPacket dir
  by_cases empty : (fcm.fcmQueue dir id).dataQueue = []
  · simp [sendFlowControlQueue, FlowControlModule.waiting, empty]
  · simp only [sendFlowControlQueue, FlowControlQueueID.ofNat?_toNat, FlowDir.ofNat?_toNat, empty,
      known, here, Option.bind_some, Option.map_some, if_false]
    refine ⟨known, by simp [FlowControlModule.waiting, empty], fun dir' id' other => if_neg ?_⟩
    exact fun same => other (Prod.ext same.1 same.2)

theorem sendFlowControlQueue_registered (registered : Registered fcm) :
    Registered (sendFlowControlQueue fcm id.toNat dir.toNat).2 :=
  ⟨(sendFlowControlQueue_spec registered id dir).1 ▸ registered.exists_op⟩

theorem waiting_cons :
    fcm.waiting dir (id :: map) = fcm.waiting dir [id] ++ fcm.waiting dir map := by
  by_cases empty : (fcm.fcmQueue dir id).dataQueue = [] <;>
    simp [FlowControlModule.waiting, empty]

theorem waiting_append :
    fcm.waiting dir (map ++ map') = fcm.waiting dir map ++ fcm.waiting dir map' := by
  simp [FlowControlModule.waiting]

theorem waiting_congr
    (same : ∀ id ∈ map, fcm'.fcmQueue dir id = fcm.fcmQueue dir id) :
    fcm'.waiting dir map = fcm.waiting dir map := by
  have filtered : (map.filter fun id => (fcm'.fcmQueue dir id).dataQueue ≠ []) =
      map.filter fun id => (fcm.fcmQueue dir id).dataQueue ≠ [] :=
    List.filter_congr fun id mem => by rw [same id mem]
  rw [FlowControlModule.waiting, FlowControlModule.waiting, filtered]
  exact List.map_congr_left fun id mem => by rw [same id (List.mem_filter.mp mem).1]

theorem waiting_eq_nil_iff :
    fcm.waiting dir map = [] ↔ ∀ id ∈ map, (fcm.fcmQueue dir id).dataQueue = [] := by
  simp [FlowControlModule.waiting]

/-- Handing over the queues of a list, one after the other: each that is not empty is handed
over as it is at the start, and the queues that are not in the list stay. -/
theorem sendAll_spec (registered : Registered fcm) (distinct : map.Nodup) :
    let fcm' := sendAll dir map fcm
    fcm'.op = fcm.op ∧ fcm'.handed = fcm.handed ++ fcm.waiting dir map ∧
      ∀ dir' id', (dir' = dir → id' ∉ map) → fcm'.fcmQueue dir' id' = fcm.fcmQueue dir' id' := by
  induction map generalizing fcm with
  | nil => simp [sendAll, FlowControlModule.waiting]
  | cons id map ih =>
    obtain ⟨notIn, distinct⟩ := List.nodup_cons.mp distinct
    obtain ⟨sameOp, sent, others⟩ := sendFlowControlQueue_spec registered id dir
    obtain ⟨sameOp', sent', others'⟩ := ih (sendFlowControlQueue_registered registered) distinct
    have later : (sendFlowControlQueue fcm id.toNat dir.toNat).2.waiting dir map =
        fcm.waiting dir map := by
      refine waiting_congr fun id' mem => others dir id' fun same => ?_
      exact notIn ((Prod.mk.inj same).2 ▸ mem)
    refine ⟨sameOp'.trans sameOp, ?_, fun dir' id' away => ?_⟩
    · rw [sent, later, List.append_assoc, ← waiting_cons] at sent'
      exact sent'
    · refine (others' dir' id' fun same mem => away same (List.mem_cons_of_mem id mem)).trans
        (others dir' id' fun same => ?_)
      obtain ⟨rfl, rfl⟩ := Prod.mk.inj same
      exact away rfl List.mem_cons_self

/-! ## One pass -/

/-- The queues that a pass goes through: three in one direction, all in the other. -/
def visited (isSta : Bool) : FlowDir → List FlowControlQueueID
  | .tx => [ctrl, vip, normal]
  | .rx => priorityMap isSta .rx

theorem threadProcess_eq : threadProcess dir fcm = sendAll dir (visited fcm.isSta dir) fcm := by
  cases dir <;> rw [threadProcess]
  · rw [flowControlTxTreadProcess, visited]
    split <;> rfl
  · rw [flowControlRxTreadProcess, visited, priorityMap]
    split <;> rfl

theorem nodup_visited {isSta : Bool} : (visited isSta dir).Nodup := by
  cases dir <;> cases isSta <;> decide

theorem mem_visited_rx {isSta : Bool} : id ∈ visited isSta .rx := by
  cases isSta <;> cases id <;> decide

theorem mem_priorityMap {isSta : Bool} : id ∈ priorityMap isSta dir := by
  cases dir <;> cases isSta <;> cases id <;> decide

/-- A priority map starts with the queues that a pass goes through. -/
theorem priorityMap_eq (isSta : Bool) (dir : FlowDir) :
    ∃ rest, priorityMap isSta dir = visited isSta dir ++ rest ∧
      ∀ id, id ∉ visited isSta dir ↔ id ∈ rest := by
  cases dir <;> cases isSta
  · exact ⟨[tcpData, tcpAck, vo, vi, be, bk], rfl, fun id => by cases id <;> decide⟩
  · exact ⟨[tcpAck, tcpData, vo, vi, be, bk], rfl, fun id => by cases id <;> decide⟩
  · exact ⟨[], rfl, fun id => by cases id <;> decide⟩
  · exact ⟨[], rfl, fun id => by cases id <;> decide⟩

theorem threadProcess_spec (registered : Registered fcm) (dir : FlowDir) :
    (threadProcess dir fcm).op = fcm.op ∧
      (threadProcess dir fcm).handed = fcm.handed ++ fcm.waiting dir (visited fcm.isSta dir) ∧
      ∀ dir' id', (dir' = dir → id' ∉ visited fcm.isSta dir) →
        (threadProcess dir fcm).fcmQueue dir' id' = fcm.fcmQueue dir' id' := by
  rw [threadProcess_eq]
  exact sendAll_spec registered nodup_visited

theorem mem_waiting {h : Handed} (mem : h ∈ fcm.waiting dir map) : h.dir = dir ∧ h.id ∈ map := by
  obtain ⟨id, waits, rfl⟩ := List.mem_map.mp mem
  exact ⟨rfl, (List.mem_filter.mp waits).1⟩

/-- What is in a queue that a transmitting pass does not go through stays there and is never
handed to the driver, however many passes there are. -/
theorem never_handed (registered : Registered fcm) (left : id ∉ [ctrl, vip, normal])
    (passes : ℕ) :
    ((threadProcess .tx)^[passes] fcm).fcmQueue .tx id = fcm.fcmQueue .tx id ∧
      ∀ h ∈ ((threadProcess .tx)^[passes] fcm).handed.drop fcm.handed.length, h.id ≠ id := by
  suffices ∃ new, ((threadProcess .tx)^[passes] fcm).op = fcm.op ∧
      ((threadProcess .tx)^[passes] fcm).fcmQueue .tx id = fcm.fcmQueue .tx id ∧
      ((threadProcess .tx)^[passes] fcm).handed = fcm.handed ++ new ∧ ∀ h ∈ new, h.id ≠ id by
    obtain ⟨new, -, same, handed, notThere⟩ := this
    rw [handed, List.drop_left]
    exact ⟨same, notThere⟩
  induction passes with
  | zero => exact ⟨[], rfl, rfl, (List.append_nil _).symm, by simp⟩
  | succ passes ih =>
    obtain ⟨new, sameOp, same, handed, notThere⟩ := ih
    rw [Function.iterate_succ_apply']
    generalize (threadProcess .tx)^[passes] fcm = now at sameOp same handed
    -- a pass only goes through the queues it visits, and the one in question is not visited
    have registered' : Registered now := ⟨sameOp ▸ registered.exists_op⟩
    obtain ⟨op', handed', others⟩ := threadProcess_spec registered' .tx
    refine ⟨new ++ now.waiting .tx (visited now.isSta .tx), op'.trans sameOp, ?_, ?_, ?_⟩
    · exact (others .tx id fun _ => left).trans same
    · rw [handed', handed, List.append_assoc]
    · intro h mem
      rcases List.mem_append.mp mem with old | last
      · exact notThere h old
      · exact fun here => left (here ▸ (mem_waiting last).2)

theorem not_mem_visited_iff {isSta : Bool} :
    id ∉ visited isSta dir ↔ dir = .tx ∧ id ∉ [ctrl, vip, normal] := by
  cases dir with
  | tx => simp [visited]
  | rx => simp [mem_visited_rx]

/-- A pass serves every queue exactly in the receiving direction, and in the transmitting one
if only the control, the priority and the normal queue hold packets. -/
theorem served_iff (registered : Registered fcm) :
    Served dir fcm ↔
      dir = .rx ∨ ∀ id, (fcm.fcmQueue dir id).dataQueue ≠ [] → id ∈ [ctrl, vip, normal] := by
  obtain ⟨rest, map_eq, rest_iff⟩ := priorityMap_eq fcm.isSta dir
  obtain ⟨-, handed, -⟩ := threadProcess_spec registered dir
  have exact_iff : (∀ id ∈ rest, (fcm.fcmQueue dir id).dataQueue = []) ↔
      dir = .rx ∨ ∀ id, (fcm.fcmQueue dir id).dataQueue ≠ [] → id ∈ [ctrl, vip, normal] := by
    simp only [← rest_iff, not_mem_visited_iff]
    cases dir with
    | tx => simp only [true_and, reduceCtorEq, false_or, not_imp_comm, ne_eq]
    | rx => simp
  rw [← exact_iff, ← waiting_eq_nil_iff]
  constructor
  · intro served
    have inOrder := served.inOrder
    rw [handed, map_eq, waiting_append, List.append_cancel_left_eq] at inOrder
    simpa using inOrder
  · intro nothing
    have inOrder : (threadProcess dir fcm).handed =
        fcm.handed ++ fcm.waiting dir (priorityMap fcm.isSta dir) := by
      rw [handed, map_eq, waiting_append, nothing, List.append_nil]
    refine ⟨inOrder, fun id waits => ⟨1, (fcm.fcmQueue dir id).dataQueue, ?_⟩⟩
    rw [Function.iterate_one, inOrder, List.drop_left]
    exact List.mem_map.mpr ⟨id, List.mem_filter.mpr ⟨mem_priorityMap, by simpa using waits⟩, rfl⟩

/-- A packet in a data queue of the receiving direction is served. -/
theorem served_iff_receiving :
    let op : FlowControlOp Unit :=
      ⟨some fun _ => true, some fun _ _ s => ([], s), some fun _ _ s => ([], s), none, none⟩
    let fcm : FlowControlModule Unit := ⟨fun _ _ => ⟨[⟨60, 1⟩], 0, 1⟩, some op, (), []⟩
    Served .rx fcm ↔ FlowDir.rx = .rx ∨
      ∀ id, (fcm.fcmQueue .rx id).dataQueue ≠ [] → id ∈ [ctrl, vip, normal] :=
  served_iff ⟨⟨_, rfl, Option.some_ne_none _, Option.some_ne_none _⟩⟩

/-- A packet that was accepted into the data queue of the transmitting direction stays there
for ever, though the driver takes all it is given. -/
theorem tcp_data_left_behind :
    let op : FlowControlOp Unit :=
      ⟨some fun _ => true, some fun _ _ s => ([], s), some fun _ _ s => ([], s), none, none⟩
    let start : FlowControlModule Unit := ⟨fun _ _ => ⟨[], 0, 0⟩, some op, (), []⟩
    ∃ fcm, sendBuffToFCM start (some ⟨60, 1⟩) 3 0 = (.success, fcm) ∧ Registered fcm ∧
      ¬ Served .tx fcm ∧
      ∀ passes, ((threadProcess .tx)^[passes] fcm).fcmQueue .tx tcpData = ⟨[⟨60, 1⟩], 0, 1⟩ := by
  intro op start
  have registered : Registered (sendBuffToFCM start (some ⟨60, 1⟩) 3 0).2 :=
    ⟨⟨op, rfl, Option.some_ne_none _, Option.some_ne_none _⟩⟩
  have stays := never_handed registered (by decide : tcpData ∉ [ctrl, vip, normal])
  refine ⟨_, rfl, registered, fun served => ?_, fun passes => (stays passes).1⟩
  obtain ⟨passes, packets, mem⟩ := served.notBehind tcpData (by decide)
  exact (stays passes).2 _ mem rfl

end Hdf.Wifi.FlowControl
