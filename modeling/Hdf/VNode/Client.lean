import Mathlib.Algebra.Order.Ring.Nat
import Mathlib.Data.List.Basic

/-!
# A client of the vnode adapter

A user process that opens the device node of a service gets a client. The
service sends events to it, which wait in the client's queue until the process
reads them. The queue has a counter of its own, which decides when the oldest
event has to go.

The outcomes of allocations and of copies between the kernel and the user are
arguments. Functions return the events that they free along with the client; a
function has no result when it takes the list head for an event.
-/

namespace Hdf.VNode

/-- `EVENT_QUEUE_MAX`. -/
def eventQueueMax : ℕ := 100

/-- `MAX_RW_SIZE`. -/
def maxRwSize : ℕ := 1024 * 1204

/-- `enum HdfVNodeClientStatus`. -/
inductive ClientStatus where
  | running | listening | stopped | exited
  deriving DecidableEq, Repr

/-- The error codes that the functions return. -/
inductive HdfStatus where
  | success | failure | invalidParam | ioError | noData | noRange | noMemory
  deriving DecidableEq, Repr

/-- `struct HdfDevEvent`, with the bytes of its sbuf. -/
structure HdfDevEvent where
  id : UInt32
  data : List UInt8
  deriving DecidableEq, Repr

/-- `struct HdfVNodeAdapterClient`. -/
structure HdfVNodeAdapterClient where
  eventQueue : List HdfDevEvent
  eventQueueSize : ℤ
  wakeup : ℤ
  status : ClientStatus
  deriving DecidableEq, Repr

/-- `struct HdfWriteReadBuf`, as far as reading events uses it. -/
structure HdfWriteReadBuf where
  readSize : ℕ
  readConsumed : ℕ
  cmdCode : Int32
  deriving DecidableEq, Repr

/-- The client that `HdfNewVNodeAdapterClient` returns. -/
def newClient : HdfVNodeAdapterClient where
  eventQueue := []
  eventQueueSize := 0
  wakeup := 0
  status := .running

/-! ### Reading -/

/-- A call of `HdfVNodeAdapterReadDevEvent`: the structure that the user passes, if any, and
whether the three copies between the kernel and the user succeed. -/
structure ReadRequest where
  bwrUser : Option HdfWriteReadBuf
  copyFromUser : Bool
  copyDataToUser : Bool
  copyBwrToUser : Bool
  deriving DecidableEq, Repr

/-- What the user gets: the return value, the structure and the bytes that are copied back. -/
structure ReadReply where
  ret : HdfStatus
  bwr : Option HdfWriteReadBuf
  data : List UInt8
  deriving DecidableEq, Repr

/-- A reply with a return value only. -/
def ReadReply.of (ret : HdfStatus) : ReadReply := { ret := ret, bwr := none, data := [] }

/-- `HdfSbufCopyToUser`, given whether the copy succeeds. -/
def sbufCopyToUser (data : List UInt8) (dstUserSize : ℕ) (copyToUser : Bool) : HdfStatus :=
  if data.length = 0 then .success
  else if dstUserSize < data.length then .noRange
  else if copyToUser then .success
  else .ioError

/-- `HdfVNodeAdapterReadDevEvent`: the reply, the freed event and the client. -/
def readDevEvent (request : ReadRequest) (client : HdfVNodeAdapterClient) :
    ReadReply × List HdfDevEvent × HdfVNodeAdapterClient :=
  match request.bwrUser with
  | none => (.of .invalidParam, [], client)
  | some bwr =>
    if !request.copyFromUser then (.of .failure, [], client)
    else if maxRwSize < bwr.readSize then (.of .invalidParam, [], client)
    else match client.eventQueue with
      | [] => (.of .noData, [], client)
      | event :: rest =>
        let eventSize := event.data.length
        if bwr.readSize < eventSize then
          let bwr := { bwr with readSize := eventSize % 2 ^ 32 }
          if request.copyBwrToUser then
            ({ ret := .noRange, bwr := some bwr, data := [] }, [], client)
          else (.of .ioError, [], client)
        else if sbufCopyToUser event.data bwr.readSize request.copyDataToUser ≠ .success then
          (.of .ioError, [], client)
        else
          let bwr := { bwr with readConsumed := eventSize, cmdCode := event.id.toInt32 }
          if request.copyBwrToUser then
            ({ ret := .success, bwr := some bwr, data := event.data }, [event],
              { client with eventQueue := rest, eventQueueSize := client.eventQueueSize - 1 })
          else ({ ret := .ioError, bwr := none, data := event.data }, [], client)

/-! ### Sending -/

/-- `HdfVnodeAdapterDropOldEventLocked`: the dropped event and the client. -/
def dropOldEventLocked (client : HdfVNodeAdapterClient) :
    Option (HdfDevEvent × HdfVNodeAdapterClient) :=
  match client.eventQueue with
  | [] => none
  | dropEvent :: rest => some (dropEvent,
      { client with eventQueue := rest, eventQueueSize := client.eventQueueSize - 1 })

/-- The rest of `VNodeAdapterSendDevEventToClient`, once there is room: whether the allocations
of the event and of its sbuf succeed decides. -/
def queueEvent (eventAlloc sbufAlloc : Bool) (event : HdfDevEvent)
    (client : HdfVNodeAdapterClient) : HdfStatus × HdfVNodeAdapterClient :=
  if !eventAlloc then (.noMemory, client)
  else if !sbufAlloc then (.noMemory, client)
  else (.success, {
      client with
      eventQueue := client.eventQueue ++ [event], eventQueueSize := client.eventQueueSize + 1 })

/-- `VNodeAdapterSendDevEventToClient`: the return value, the freed event and the client. -/
def sendDevEventToClient (eventAlloc sbufAlloc : Bool) (event : HdfDevEvent)
    (client : HdfVNodeAdapterClient) :
    Option (HdfStatus × List HdfDevEvent × HdfVNodeAdapterClient) :=
  if client.status ≠ .listening then some (.success, [], client)
  else if (eventQueueMax : ℤ) ≤ client.eventQueueSize then
    (dropOldEventLocked client).map fun dropped =>
      let queued := queueEvent eventAlloc sbufAlloc event dropped.2
      (queued.1, [dropped.1], queued.2)
  else
    let queued := queueEvent eventAlloc sbufAlloc event client
    some (queued.1, [], queued.2)

/-- `HdfVNodeAdapterSendDevEvent` to the one client. -/
def sendDevEvent (eventAlloc sbufAlloc : Bool) (event : HdfDevEvent)
    (client : HdfVNodeAdapterClient) :
    Option (HdfStatus × List HdfDevEvent × HdfVNodeAdapterClient) :=
  if event.data.length = 0 then some (.invalidParam, [], client)
  else sendDevEventToClient eventAlloc sbufAlloc event client

/-! ### Listening -/

/-- `HdfVNodeAdapterClientStartListening`. -/
def startListening (client : HdfVNodeAdapterClient) : HdfVNodeAdapterClient :=
  { client with status := .listening }

/-- `HdfVnodeCleanEventQueue`: the freed events and the client. -/
def cleanEventQueue (client : HdfVNodeAdapterClient) :
    List HdfDevEvent × HdfVNodeAdapterClient :=
  (client.eventQueue, { client with eventQueue := [] })

/-- `HdfVNodeAdapterClientStopListening`. -/
def stopListening (client : HdfVNodeAdapterClient) : List HdfDevEvent × HdfVNodeAdapterClient :=
  cleanEventQueue { client with status := .stopped }

/-- `HdfVNodeAdapterClientExitListening`. -/
def exitListening (client : HdfVNodeAdapterClient) : List HdfDevEvent × HdfVNodeAdapterClient :=
  cleanEventQueue { client with status := .exited }

/-- `HdfVNodeAdapterClientWakeup`. -/
def wakeup (client : HdfVNodeAdapterClient) : HdfVNodeAdapterClient :=
  if client.status ≠ .listening then client else { client with wakeup := client.wakeup + 1 }

/-- The bits of the mask that `HdfVNodeAdapterPoll` returns. -/
inductive PollMask where
  | none | pollin | pollhup
  deriving DecidableEq, Repr

/-- `HdfVNodeAdapterPoll`. -/
def poll (client : HdfVNodeAdapterClient) : PollMask × HdfVNodeAdapterClient :=
  if client.status = .exited then (.pollhup, client)
  else if !client.eventQueue.isEmpty then (.pollin, client)
  else if 0 < client.wakeup then (.pollin, { client with wakeup := client.wakeup - 1 })
  else (.none, client)

end Hdf.VNode
