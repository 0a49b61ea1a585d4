import Hdf.Core.AddDevice
import Hdf.Sbuf.StringLimits
import Hdf.VNode.Client
import Mathlib.Algebra.BigOperators.Group.List.Basic

/-!
# Calls of a remote service

A user process calls a service with an `ioctl` on its device node. The kernel copies
the request into an sbuf of its own, has the driver's `Dispatch` method answer it, and
copies the answer into the storage of the user's reply. Any allocation and any copy on
the way may fail; their outcomes are arguments.

A service is specified by the requests that it understands and by what its answers
hold. A process that makes calls one after
the other sees the service take a step for some of them, in the same order and never
twice for the same call. Whenever a call does not return an error, its step has been
taken, and the return value and the reply are those of that step.

## Main definitions

* `deviceNodeExtDispatch`, `servCall`, `hdfSyscallAdapterDispatch`: a call, from the inside out
* `Serves`: a `Dispatch` method meets the specification of a service
* `Reports`: what a call returns, given the step that the service has taken for it
* `makeCalls`, `Steps`: a process, and the service behind it

## Main results

* `dispatch_reports`: one call
* `makeCalls_reports`: the calls of a process
-/

namespace Hdf.VNode

open Hdf.Sbuf (HdfSBufRaw Block Item Holds WellFormed written)

/-- `VOID_DATA_SIZE`. -/
def voidDataSize : ℕ := 4

/-- `HDF_SBUF_DEFAULT_SIZE`. -/
def hdfSbufDefaultSize : ℕ := 256

/-- `HDF_FAILURE`. -/
def hdfFailure : Int32 := -1

/-- `HDF_ERR_INVALID_PARAM`. -/
def hdfErrInvalidParam : Int32 := -3

/-- `HDF_ERR_INVALID_OBJECT`. -/
def hdfErrInvalidObject : Int32 := -4

/-- `HDF_ERR_IO`. -/
def hdfErrIo : Int32 := -17

/-- `HDF_DEV_ERR_NO_DEVICE`. -/
def hdfDevErrNoDevice : Int32 := -202

variable {σ ρ : Type}

/-! ### The driver -/

/-- A `Dispatch` method, with the state of its driver: from the command, the request and the
reply to the return value and the reply that is left. -/
abbrev Dispatch (σ : Type) :=
  Int32 → HdfSBufRaw → HdfSBufRaw → σ → Option (Int32 × HdfSBufRaw × σ)

/-- `struct HdfDeviceNode`, as far as calls use it: its policy and the service of its device
object, whose `Dispatch` method may be `NULL` and takes a pointer to the client. -/
structure HdfDeviceNode (σ : Type) where
  policy : UInt16
  service : Option (Option (UInt64 → Dispatch σ))

/-- `DeviceNodeExtDispatch`. -/
def deviceNodeExtDispatch (devNode : HdfDeviceNode σ) : Dispatch σ := fun code data reply state =>
  match Sbuf.readUint64 reply with
  | none => none
  | some (none, reply) => some (hdfFailure, reply, state)
  | some (some ioClientPtr, reply) =>
    if ioClientPtr = 0 then some (hdfFailure, reply, state)
    else
      let reply := Sbuf.flush reply
      match devNode.service with
      | none => some (hdfFailure, reply, state)
      | some deviceMethod =>
        if devNode.policy = Core.AddDevice.servicePolicyCapacity then
          match deviceMethod with
          | none => some (hdfFailure, reply, state)
          | some dispatch => dispatch ioClientPtr code data reply state
        else some (hdfFailure, reply, state)

/-! ### The kernel -/

/-- What a call depends on: the copies between the user and the kernel, and the allocations. -/
structure CallOutcomes where
  /-- The structure of the user can be copied. -/
  bwrFromUser : Bool
  /-- The memory for a request with data. -/
  kData : Option ℕ
  /-- The request can be copied. -/
  dataFromUser : Bool
  /-- The sbuf of the request. -/
  dataStruct : Bool
  /-- The storage of a request without data. -/
  dataBlock : Option ℕ
  /-- The sbuf of the reply. -/
  replyStruct : Bool
  /-- The storage of the reply. -/
  replyBlock : Option ℕ
  /-- How many bytes of the reply cannot be copied. -/
  replyToUser : ℕ
  /-- What stands in `readConsumed` when the structure cannot be copied back. -/
  bwrFault : Option ℕ
  deriving DecidableEq, Repr

/-- `struct HdfWriteReadBuf` as a call uses it, with the memory that its buffers point to. -/
structure ServCallBuf where
  writeSize : ℕ
  writeBuffer : List UInt8
  readSize : ℕ
  readBuffer : List UInt8
  readConsumed : ℕ
  cmdCode : Int32
  deriving DecidableEq, Repr

/-- A client of an adapter: its dispatcher, with the target, unless one of the pointers on the
way to it is `NULL`, and the address of its `ioServiceClient`. -/
structure ServCallClient (σ : Type) where
  dispatcher : Option (Dispatch σ)
  ioServiceClient : UInt64

/-- `HdfSbufCopyFromUser` of `size` bytes of the memory at `data`. -/
def sbufCopyFromUser (o : CallOutcomes) (data : List UInt8) (size : ℕ) :
    Option (Option HdfSBufRaw) :=
  if size = 0 then some (Sbuf.obtainRaw o.dataStruct o.dataBlock voidDataSize)
  else match o.kData with
    | none => some none
    | some kData =>
      if !o.dataFromUser then some none
      else (loadAt data 0 size).map fun bytes =>
        (Sbuf.bindRaw o.dataStruct kData bytes).map Sbuf.transDataOwnership

/-- The memory of the user after `HdfSbufCopyToUser` of `data`. -/
def copiedToUser (dst : List UInt8) (dstUserSize : ℕ) (data : List UInt8) (notCopied : ℕ) :
    Option (List UInt8) :=
  if data.length = 0 ∨ dstUserSize < data.length then some dst
  else storeAt dst 0 (data.take (data.length - notCopied))

/-- The end of `HdfVNodeAdapterServCall`, once the driver has answered. -/
def returnReply (o : CallOutcomes) (bwr : ServCallBuf) (ret : Int32) (reply : HdfSBufRaw)
    (state : σ) : Option (Int32 × ServCallBuf × σ) :=
  match loadAt (reply.data.elim [] Block.bytes) 0 reply.writePos with
  | none => none
  | some bytes =>
    let copied :=
      if bwr.readSize = 0 then some (true, bwr.readBuffer)
      else (copiedToUser bwr.readBuffer bwr.readSize bytes o.replyToUser).map fun dst =>
        (sbufCopyToUser bytes bwr.readSize (o.replyToUser = 0) = .success, dst)
    match copied with
    | none => none
    | some (false, dst) => some (hdfErrIo, { bwr with readBuffer := dst }, state)
    | some (true, dst) =>
      match o.bwrFault with
      | none => some (ret,
          { bwr with readBuffer := dst, readConsumed := reply.writePos % 2 ^ 32 }, state)
      | some consumed =>
        some (hdfFailure, { bwr with readBuffer := dst, readConsumed := consumed }, state)

/-- `HdfVNodeAdapterServCall`: the return value, what the user finds in the structure, and the
state of the driver. -/
def servCall (o : CallOutcomes) (client : ServCallClient σ) (bwr : ServCallBuf) (state : σ) :
    Option (Int32 × ServCallBuf × σ) :=
  match client.dispatcher with
  | none => some (hdfErrInvalidObject, bwr, state)
  | some dispatch =>
    if !o.bwrFromUser then some (hdfFailure, bwr, state)
    else if maxRwSize < bwr.writeSize ∨ maxRwSize < bwr.readSize then
      some (hdfErrInvalidParam, bwr, state)
    else match sbufCopyFromUser o bwr.writeBuffer bwr.writeSize with
      | none => none
      | some none => some (hdfFailure, bwr, state)
      | some (some data) =>
        match Sbuf.obtainRaw o.replyStruct o.replyBlock hdfSbufDefaultSize with
        | none => some (hdfFailure, bwr, state)
        | some reply =>
          -- an sbuf of the default size has room for the pointer
          match Sbuf.writeUint64 none reply client.ioServiceClient with
          | none => none
          | some (_, reply) =>
            (dispatch bwr.cmdCode data reply state).bind fun answered =>
              returnReply o bwr answered.1 answered.2.1 answered.2.2

/-- `HdfVNodeAdapterIoctl` of `HDF_WRITE_READ`. -/
def vnodeAdapterIoctl (o : CallOutcomes) (client : Option (ServCallClient σ)) (bwr : ServCallBuf)
    (state : σ) : Option (Int32 × ServCallBuf × σ) :=
  match client with
  | none => some (hdfDevErrNoDevice, bwr, state)
  | some client => servCall o client bwr state

/-! ### The user -/

/-- What `ioctl` returns, and `errno` after it: a small negative return value of the kernel is
an error. -/
def ioctlReturn (errno ret : Int32) : Int32 × Int32 :=
  if -4095 ≤ ret ∧ ret < 0 then (-1, -ret) else (ret, errno)

/-- The structure that `HdfSyscallAdapterDispatch` passes to `ioctl`. -/
def wrBuf (code : Int32) (data reply : Option HdfSBufRaw) : ServCallBuf where
  writeSize := data.elim 0 (·.writePos) % 2 ^ 32
  writeBuffer := (data.bind (·.data)).elim [] Block.bytes
  readSize := reply.elim 0 (·.capacity) % 2 ^ 32
  readBuffer := (reply.bind (·.data)).elim [] Block.bytes
  readConsumed := 0
  cmdCode := code

/-- The reply once `ioctl` has returned, with the size of its data set. -/
def takeReply (reply : HdfSBufRaw) (bwr : ServCallBuf) : HdfSBufRaw :=
  Sbuf.setDataSize {
    reply with data := reply.data.map fun block => { block with bytes := bwr.readBuffer } }
    bwr.readConsumed

/-- `HdfSyscallAdapterDispatch`: the return value, the reply, and the state of the driver. -/
def hdfSyscallAdapterDispatch (o : CallOutcomes) (errno : Int32)
    (client : Option (ServCallClient σ)) (code : Int32) (data reply : Option HdfSBufRaw)
    (state : σ) : Option (Int32 × Option HdfSBufRaw × σ) :=
  (vnodeAdapterIoctl o client (wrBuf code data reply) state).map fun called =>
    let returned := ioctlReturn errno called.1
    let ret := if returned.1 < 0 then -returned.2 else returned.1
    (ret, reply.map (takeReply · called.2.1), called.2.2)

/-! ### Services -/

/-- A service: the command and the items of a request, and what may be done for it, from the state
to the return value, the items of the reply and the new state. -/
structure ServiceSpec (σ ρ : Type) where
  code : ρ → Int32
  items : ρ → List Item
  step : ρ → σ → Int32 → List Item → σ → Prop

/-- The `Dispatch` method does what is specified when it gets a request and an empty reply. -/
def Serves (dispatch : UInt64 → Dispatch σ) (spec : ServiceSpec σ ρ) : Prop :=
  ∀ client request data reply state, Holds data (spec.items request) → Holds reply [] →
    ∃ ret answered answer state',
      dispatch client (spec.code request) data reply state = some (ret, answered, state') ∧
      Holds answered answer ∧ spec.step request state ret answer state'

/-- A client of a device node with such a service. The return values are success or errors that
`ioctl` can tell. -/
structure Connected (client : ServCallClient σ) (spec : ServiceSpec σ ρ) : Prop where
  address : client.ioServiceClient ≠ 0
  served : ∃ devNode dispatch, client.dispatcher = some (deviceNodeExtDispatch devNode) ∧
    devNode.policy = Core.AddDevice.servicePolicyCapacity ∧
    devNode.service = some (some dispatch) ∧ Serves dispatch spec
  told : ∀ request state ret answer state', spec.step request state ret answer state' → -4095 ≤ ret

/-- A step of a service: the request, the return value and the answer. -/
structure Step (ρ : Type) where
  request : ρ
  ret : Int32
  answer : List Item

/-- The service takes the steps, one after the other. -/
inductive Steps (spec : ServiceSpec σ ρ) : σ → List (Step ρ) → σ → Prop
  | nil (state : σ) : Steps spec state [] state
  | cons {state state' state'' : σ} {step : Step ρ} {steps : List (Step ρ)}
    (first : spec.step step.request state step.ret step.answer state')
    (rest : Steps spec state' steps state'') : Steps spec state (step :: steps) state''

/-- A call of a process with a request, and the sbufs that it passes. -/
structure Call (ρ : Type) where
  outcomes : CallOutcomes
  errno : Int32
  request : ρ
  data : Option HdfSBufRaw
  reply : Option HdfSBufRaw

/-- The first sbuf holds the items of the request, and the reply has storage. -/
structure Call.Ready (call : Call ρ) (spec : ServiceSpec σ ρ) : Prop where
  holds : ∀ data, call.data = some data → Holds data (spec.items call.request)
  nothing : call.data = none → spec.items call.request = []
  storage : ∀ reply, call.reply = some reply → WellFormed reply ∧ reply.data.isSome ∧
    0 < reply.capacity ∧ reply.capacity ≤ Sbuf.hdfSbufMaxSize

/-- Nothing goes wrong on the way to the driver. -/
structure CallOutcomes.Arrives (o : CallOutcomes) : Prop where
  bwrFromUser : o.bwrFromUser = true
  kData : ∃ base, o.kData = some base ∧ base ≠ 0 ∧ base &&& 3 = 0
  dataFromUser : o.dataFromUser = true
  dataStruct : o.dataStruct = true
  dataBlock : o.dataBlock.isSome
  replyStruct : o.replyStruct = true
  replyBlock : o.replyBlock.isSome

/-- Nothing goes wrong on the way back. -/
structure CallOutcomes.Returns (o : CallOutcomes) : Prop where
  replyToUser : o.replyToUser = 0
  bwrFault : o.bwrFault = none

/-- The bytes that the elements of items take. -/
def sizeOf (items : List Item) : ℕ :=
  ((items.flatMap Item.fields).map fun src => roundUp4 src.length).sum

/-- The answer has no room in the storage of the reply. -/
def Call.TooLong (call : Call ρ) (answer : List Item) : Prop :=
  ∃ reply, call.reply = some reply ∧ reply.capacity < sizeOf answer

/-- What a call returns, given the step that the service has taken for it, if any. -/
inductive Reports (call : Call ρ) : Int32 × Option HdfSBufRaw → Option (Step ρ) → Prop
  | undone {ret : Int32} {reply : Option HdfSBufRaw} (fault : ¬ call.outcomes.Arrives)
    (error : ret < 0) : Reports call (ret, reply) none
  | lost {ret ret' : Int32} {reply : Option HdfSBufRaw} {answer : List Item}
    (fault : ¬ call.outcomes.Returns ∨ call.TooLong answer) (error : ret < 0) :
    Reports call (ret, reply) (some ⟨call.request, ret', answer⟩)
  | answered {ret : Int32} {reply : Option HdfSBufRaw} {answer : List Item}
    (same : reply.isSome = call.reply.isSome)
    (holds : ∀ sbuf, reply = some sbuf → Holds sbuf answer) :
    Reports call (ret, reply) (some ⟨call.request, ret, answer⟩)

/-- What a process gets from the calls that it makes, one after the other. -/
def makeCalls (client : ServCallClient σ) (spec : ServiceSpec σ ρ) : List (Call ρ) → σ →
    Option (List (Int32 × Option HdfSBufRaw) × σ)
  | [], state => some ([], state)
  | call :: calls, state =>
    (hdfSyscallAdapterDispatch call.outcomes call.errno (some client) (spec.code call.request)
      call.data call.reply state).bind fun called =>
        (makeCalls client spec calls called.2.2).map fun later =>
          ((called.1, called.2.1) :: later.1, later.2)

section

variable {o : CallOutcomes} {items answer : List Item} {data reply : HdfSBufRaw}

/-! ### The request -/

theorem written_of_holds_nil (holds : Holds data []) : written data = [] := by
  have padded := holds.padded
  generalize written data = bytes at padded
  cases padded
  rfl

/-- The kernel's sbuf holds what the user's sbuf holds. -/
theorem sbufCopyFromUser_spec (o : CallOutcomes) (holds : Holds data items) :
    ∃ r, sbufCopyFromUser o (data.data.elim [] Block.bytes) data.writePos = some r ∧
      (r = none → ¬ o.Arrives) ∧ ∀ request, r = some request → Holds request items := by
  obtain ⟨block, there⟩ := Option.isSome_iff_exists.mp holds.data
  have length := Sbuf.length_written holds.wellFormed there
  have known := Sbuf.written_of_data there
  rw [sbufCopyFromUser, there]
  by_cases empty : data.writePos = 0
  · rw [if_pos empty]
    refine ⟨_, rfl, fun none arrives => ?_, fun request made => ?_⟩
    · obtain ⟨base, allocates⟩ := Option.isSome_iff_exists.mp arrives.dataBlock
      rw [arrives.dataStruct, allocates] at none
      cases none
    · have fresh := Sbuf.holds_of_filled (.fresh made)
      refine holds.of_written fresh.wellFormed fresh.data fresh.limit fresh.readPos ?_
      rw [written_of_holds_nil fresh, known, empty, List.take_zero]
  · rw [if_neg empty]
    cases allocated : o.kData with
    | none =>
      refine ⟨none, rfl, fun _ arrives => ?_, by simp⟩
      obtain ⟨base, allocates, -⟩ := arrives.kData
      cases allocated.symm.trans allocates
    | some base =>
      have inside : 0 + data.writePos ≤ block.bytes.length := by
        have blockLength := holds.wellFormed.block block there
        have fits := holds.wellFormed.write_le
        omega
      dsimp only [Option.elim]
      rw [loadAt_eq inside, List.drop_zero, ← known, Option.map_some]
      cases copies : o.dataFromUser with
      | false =>
        exact ⟨none, rfl, fun _ arrives =>
          Bool.false_ne_true (copies.symm.trans arrives.dataFromUser), by simp⟩
      | true =>
        refine ⟨_, rfl, fun none arrives => ?_, fun request made => ?_⟩
        · obtain ⟨base', allocates, address, aligned⟩ := arrives.kData
          cases allocated.symm.trans allocates
          rw [Sbuf.bindRaw, if_neg (by simp [address, length, empty]), if_neg (not_not.mpr aligned),
            arrives.dataStruct] at none
          cases none
        · obtain ⟨bound, binds, rfl⟩ := Option.map_eq_some_iff.mp made
          unfold Sbuf.bindRaw at binds
          split at binds
          · cases binds
          · split at binds
            · cases binds
            · split at binds
              · cases binds
              · cases binds
                have small := holds.wellFormed.write_le.trans holds.limit
                refine holds.of_written ⟨Nat.zero_le _, le_refl _, ?_, ?_⟩ rfl ?_ rfl ?_
                · change (written data).length < 2 ^ 64
                  rw [length]
                  exact small.trans_lt (by norm_num [Sbuf.hdfSbufMaxSize])
                · intro block' same
                  cases same
                  rfl
                · exact length.trans_le small
                · change (written data).take (written data).length = written data
                  exact List.take_length

/-- A process without a request sends an empty one. -/
theorem sbufCopyFromUser_nothing (o : CallOutcomes) :
    ∃ r, sbufCopyFromUser o [] 0 = some r ∧ (r = none → ¬ o.Arrives) ∧
      ∀ request, r = some request → Holds request [] := by
  rw [sbufCopyFromUser, if_pos rfl]
  refine ⟨_, rfl, fun none arrives => ?_, fun request made => Sbuf.holds_of_filled (.fresh made)⟩
  obtain ⟨base, allocates⟩ := Option.isSome_iff_exists.mp arrives.dataBlock
  rw [arrives.dataStruct, allocates] at none
  cases none

/-- The request of a call that is ready reaches the kernel, or something has gone wrong. -/
theorem Call.Ready.request {call : Call ρ} {spec : ServiceSpec σ ρ} (ready : call.Ready spec)
    (o : CallOutcomes) (code : Int32) :
    ∃ r, sbufCopyFromUser o (wrBuf code call.data call.reply).writeBuffer
        (wrBuf code call.data call.reply).writeSize = some r ∧ (r = none → ¬ o.Arrives) ∧
      ∀ request, r = some request → Holds request (spec.items call.request) := by
  rw [wrBuf]
  cases there : call.data with
  | none =>
    rw [ready.nothing there]
    exact sbufCopyFromUser_nothing o
  | some data =>
    have holds := ready.holds data there
    have small := holds.wellFormed.write_le.trans holds.limit
    rw [Sbuf.hdfSbufMaxSize] at small
    have size : data.writePos % 2 ^ 32 = data.writePos := Nat.mod_eq_of_lt (by omega)
    dsimp only [Option.elim, Option.bind]
    rw [size]
    exact sbufCopyFromUser_spec o holds

/-! ### The reply -/

/-- The kernel's reply carries the pointer to the client, and is empty for the driver. -/
theorem reply_carries {structAlloc : Bool} {alloc : Option ℕ}
    (made : Sbuf.obtainRaw structAlloc alloc hdfSbufDefaultSize = some reply) (client : UInt64) :
    ∃ carrying taken, Sbuf.writeUint64 none reply client = some (true, carrying) ∧
      Sbuf.readUint64 carrying = some (some client, taken) ∧ Holds (Sbuf.flush taken) [] := by
  obtain ⟨-, base, same⟩ := Sbuf.newInstance_spec made
  have empty := Sbuf.holds_of_filled (.fresh made)
  have room : reply.writePos + roundUp4 (leBytes 8 client.toNat).length ≤ reply.capacity := by
    rw [same, length_leBytes, roundUp4]
    norm_num [hdfSbufDefaultSize]
  obtain ⟨carrying, writes, -⟩ := Sbuf.write_of_room none empty.wellFormed (by rw [same])
    (empty.limit.trans (by decide)) (by simp [length_leBytes]) room
  have holds : Holds carrying [.scalar (.uint64 client)] :=
    @Holds.writeItem _ _ [] (.scalar (.uint64 client)) none none empty writes
  obtain ⟨block, there⟩ := Option.isSome_iff_exists.mp holds.data
  obtain ⟨taken, reads, left⟩ := (holds.unread there).readScalar
  have capacity : taken.capacity = carrying.capacity :=
    (left.wellFormed.block block left.there).symm.trans (holds.wellFormed.block block there)
  refine ⟨carrying, taken, writes, ?_, ?_⟩
  · obtain ⟨read, done, same⟩ := Option.map_eq_some_iff.mp reads
    obtain ⟨value, sbuf⟩ := read
    cases value with
    | none => cases same
    | some value =>
      cases same
      exact done
  · refine ⟨⟨le_rfl, Nat.zero_le _, left.wellFormed.capacity_lt, left.wellFormed.block⟩,
      Option.isSome_iff_exists.mpr ⟨block, left.there⟩, capacity.trans_le holds.limit, rfl, ?_, ?_⟩
    · rw [written, Sbuf.flush, List.take_zero]
      exact .nil
    · simp

theorem length_padded {srcs : List (List UInt8)} {bytes : List UInt8}
    (padded : Sbuf.Padded srcs bytes) :
    bytes.length = (srcs.map fun src => roundUp4 src.length).sum := by
  induction padded with
  | nil => rfl
  | cons length _ ih =>
    rw [List.map_cons, List.sum_cons, ← ih, ← length, List.length_append, List.length_append]
    omega

/-- The written bytes of an sbuf that holds items: they can be loaded, and their length is the
write position. -/
theorem bytes_of_holds (holds : Holds data items) :
    loadAt (data.data.elim [] Block.bytes) 0 data.writePos = some (written data) ∧
      (written data).length = data.writePos ∧ data.writePos = sizeOf items := by
  obtain ⟨block, there⟩ := Option.isSome_iff_exists.mp holds.data
  have length := Sbuf.length_written holds.wellFormed there
  have inside : 0 + data.writePos ≤ block.bytes.length := by
    have blockLength := holds.wellFormed.block block there
    have fits := holds.wellFormed.write_le
    omega
  refine ⟨?_, length, length.symm.trans (length_padded holds.padded)⟩
  rw [there, Option.elim, loadAt_eq inside, List.drop_zero, Sbuf.written_of_data there]

/-- `HdfSbufCopyToUser` fails for want of room or by a fault, or it copies all bytes. -/
theorem copiedToUser_spec (dst bytes : List UInt8) (notCopied : ℕ) :
    ∃ dst', copiedToUser dst dst.length bytes notCopied = some dst' ∧
      (sbufCopyToUser bytes dst.length (notCopied = 0) ≠ .success →
        notCopied ≠ 0 ∨ dst.length < bytes.length) ∧
      (sbufCopyToUser bytes dst.length (notCopied = 0) = .success →
        bytes.length ≤ dst.length ∧ dst'.length = dst.length ∧
          dst'.take bytes.length = bytes) := by
  rw [copiedToUser, sbufCopyToUser]
  by_cases empty : bytes.length = 0
  · obtain rfl := List.length_eq_zero_iff.mp empty
    exact ⟨dst, if_pos (.inl rfl), by simp, by simp⟩
  · by_cases long : dst.length < bytes.length
    · exact ⟨dst, if_pos (.inr long), fun _ => .inr long, by simp [empty, long]⟩
    · obtain ⟨dst', stores⟩ := @exists_storeAt _ dst (bytes.take (bytes.length - notCopied)) 0
        (by rw [List.length_take]; omega)
      rw [if_neg (by simp [empty, long]), if_neg empty, if_neg long]
      refine ⟨dst', stores, fun failed => .inl fun all => ?_, fun done => ?_⟩
      · simp [all] at failed
      · have all : notCopied = 0 := by
          by_contra some_
          simp [some_] at done
        rw [all, Nat.sub_zero, List.take_length] at stores
        obtain ⟨inside, rfl⟩ := storeAt_spec stores
        rw [Nat.zero_add] at inside
        refine ⟨inside, ?_, ?_⟩
        · simp only [List.take_zero, List.nil_append, Nat.zero_add, List.length_append,
            List.length_drop]
          omega
        · rw [List.take_zero, List.nil_append, List.take_left]

/-- A successful call leaves the answer in the user's reply. -/
theorem takeReply_holds {bwr : ServCallBuf} {block : Block} {bytes : List UInt8}
    {answered : HdfSBufRaw} (holds : Holds answered answer) (wf : WellFormed reply)
    (limit : reply.capacity ≤ Sbuf.hdfSbufMaxSize) (there : reply.data = some block)
    (fits : answered.writePos ≤ reply.capacity) (length : bytes.length = block.bytes.length)
    (same : bytes.take answered.writePos = written answered) :
    Holds (takeReply reply
      { bwr with readBuffer := bytes, readConsumed := answered.writePos }) answer := by
  rw [takeReply, there, Option.map_some, Sbuf.setDataSize, if_pos fits]
  refine holds.of_written ⟨Nat.zero_le _, fits, wf.capacity_lt, ?_⟩ rfl limit rfl same
  intro data same
  cases same
  exact length.trans (wf.block block there)

/-- The kernel returns what the driver returns, with its reply, unless something goes wrong. -/
theorem returnReply_spec (o : CallOutcomes) (bwr : ServCallBuf)
    (readSize : bwr.readSize = bwr.readBuffer.length) {answered : HdfSBufRaw}
    (holds : Holds answered answer) (ret : Int32) (state : σ) :
    ∃ ret' dst consumed, returnReply o bwr ret answered state =
        some (ret', { bwr with readBuffer := dst, readConsumed := consumed }, state) ∧
      (-4095 ≤ ret' ∧ ret' < 0 ∧
          (¬ o.Returns ∨ bwr.readSize ≠ 0 ∧ bwr.readSize < sizeOf answer) ∨
        ret' = ret ∧ (bwr.readSize ≠ 0 → answered.writePos ≤ bwr.readSize ∧
          consumed = answered.writePos ∧ dst.length = bwr.readSize ∧
          dst.take answered.writePos = written answered)) := by
  obtain ⟨loads, length, size⟩ := bytes_of_holds holds
  have small := holds.wellFormed.write_le.trans holds.limit
  rw [Sbuf.hdfSbufMaxSize] at small
  have consumed : answered.writePos % 2 ^ 32 = answered.writePos := Nat.mod_eq_of_lt (by omega)
  have faulty {fault : ℕ} (there : o.bwrFault = some fault) : ¬ o.Returns := fun returns => by
    cases there.symm.trans returns.bwrFault
  rw [returnReply, loads]
  dsimp only
  by_cases nothing : bwr.readSize = 0
  · rw [if_pos nothing]
    cases there : o.bwrFault with
    | none => exact ⟨_, _, _, rfl, .inr ⟨rfl, fun some_ => absurd nothing some_⟩⟩
    | some fault => exact ⟨_, _, _, rfl, .inl ⟨by decide, by decide, .inl (faulty there)⟩⟩
  · obtain ⟨dst, copies, failed, done⟩ :=
      copiedToUser_spec bwr.readBuffer (written answered) o.replyToUser
    rw [← readSize] at copies failed done
    rw [if_neg nothing, copies, Option.map_some]
    by_cases copied : sbufCopyToUser (written answered) bwr.readSize (o.replyToUser = 0) = .success
    · obtain ⟨fits, dstLength, same⟩ := done copied
      rw [length] at fits same
      rw [decide_eq_true copied]
      cases there : o.bwrFault with
      | none => exact ⟨_, _, _, rfl, .inr ⟨rfl, fun _ => ⟨fits, consumed, dstLength, same⟩⟩⟩
      | some fault => exact ⟨_, _, _, rfl, .inl ⟨by decide, by decide, .inl (faulty there)⟩⟩
    · rw [decide_eq_false copied]
      refine ⟨_, _, _, rfl, .inl ⟨by decide, by decide, ?_⟩⟩
      rcases failed copied with fault | long
      · exact .inl fun returns => fault returns.replyToUser
      · exact .inr ⟨nothing, by omega⟩

/-! ### Calls -/

variable {call : Call ρ} {client : ServCallClient σ} {spec : ServiceSpec σ ρ}

/-- The sizes in the structure are those of the request and of the reply, and are within the
limits. -/
theorem Call.Ready.sizes (ready : call.Ready spec) (code : Int32) :
    (wrBuf code call.data call.reply).readSize =
        (wrBuf code call.data call.reply).readBuffer.length ∧
      (wrBuf code call.data call.reply).writeSize ≤ maxRwSize ∧
      (wrBuf code call.data call.reply).readSize ≤ maxRwSize ∧
      (wrBuf code call.data call.reply).readSize = call.reply.elim 0 (·.capacity) := by
  have request : call.data.elim 0 (·.writePos) % 2 ^ 32 ≤ maxRwSize := by
    cases there : call.data with
    | none => decide
    | some data =>
      have holds := ready.holds data there
      have small := holds.wellFormed.write_le.trans holds.limit
      exact (Nat.mod_le _ _).trans (small.trans (by decide))
  cases there : call.reply with
  | none => exact ⟨rfl, request, Nat.zero_le _, rfl⟩
  | some reply =>
    obtain ⟨wf, stored, positive, limit⟩ := ready.storage reply there
    obtain ⟨block, data⟩ := Option.isSome_iff_exists.mp stored
    have capacity : reply.capacity % 2 ^ 32 = reply.capacity :=
      Nat.mod_eq_of_lt (limit.trans_lt (by decide))
    have length : ((some reply).bind (·.data)).elim [] Block.bytes = block.bytes := by
      rw [Option.bind_some, data, Option.elim_some]
    refine ⟨?_, request, ?_, capacity⟩
    · change reply.capacity % 2 ^ 32 = (((some reply).bind (·.data)).elim [] Block.bytes).length
      rw [capacity, length, wf.block block data]
    · change reply.capacity % 2 ^ 32 ≤ _
      rw [capacity]
      exact limit.trans (by decide)

/-- A driver that gets the kernel's reply takes a step. -/
theorem Connected.dispatch (connected : Connected client spec) :
    ∃ dispatch, client.dispatcher = some dispatch ∧
      ∀ {carrying taken data} (request : ρ) (state : σ),
        Sbuf.readUint64 carrying = some (some client.ioServiceClient, taken) →
        Holds (Sbuf.flush taken) [] → Holds data (spec.items request) →
        ∃ ret answered answer state', dispatch (spec.code request) data carrying state =
            some (ret, answered, state') ∧ Holds answered answer ∧
          spec.step request state ret answer state' := by
  obtain ⟨devNode, dispatch, dispatcher, policy, service, serves⟩ := connected.served
  refine ⟨_, dispatcher, fun request state reads empty holds => ?_⟩
  rw [deviceNodeExtDispatch, reads]
  dsimp only
  rw [if_neg connected.address, service]
  dsimp only
  rw [if_pos policy]
  exact serves _ _ _ _ _ holds empty

theorem servCall_spec (connected : Connected client spec) (ready : call.Ready spec) (state : σ) :
    ∃ ret bwr state', servCall call.outcomes client
        (wrBuf (spec.code call.request) call.data call.reply) state =
          some (ret, bwr, state') ∧ -4095 ≤ ret ∧
      (ret < 0 ∧ ¬ call.outcomes.Arrives ∧ state' = state ∨
        ∃ ret' answer, spec.step call.request state ret' answer state' ∧
          (ret < 0 ∧ (¬ call.outcomes.Returns ∨ call.TooLong answer) ∨ ret = ret' ∧
            ∀ reply, call.reply = some reply → Holds (takeReply reply bwr) answer)) := by
  obtain ⟨readSize, writeLimit, readLimit, capacity⟩ := ready.sizes (spec.code call.request)
  obtain ⟨dispatch, dispatcher, takes⟩ := connected.dispatch
  obtain ⟨r, copies, missing, holds⟩ := ready.request call.outcomes (spec.code call.request)
  rw [servCall, dispatcher]
  dsimp only
  by_cases bwrFromUser : call.outcomes.bwrFromUser = true
  case neg =>
    rw [Bool.not_eq_true] at bwrFromUser
    rw [bwrFromUser]
    exact ⟨_, _, _, rfl, by decide, .inl ⟨by decide, fun arrives =>
      Bool.false_ne_true (bwrFromUser.symm.trans arrives.bwrFromUser), rfl⟩⟩
  case pos =>
    rw [bwrFromUser, if_neg (by simp), if_neg (by omega), copies]
    cases r with
    | none => exact ⟨_, _, _, rfl, by decide, .inl ⟨by decide, missing rfl, rfl⟩⟩
    | some request =>
      dsimp only
      cases made : Sbuf.obtainRaw call.outcomes.replyStruct call.outcomes.replyBlock
        hdfSbufDefaultSize with
      | none =>
        refine ⟨_, _, _, rfl, by decide, .inl ⟨by decide, fun arrives => ?_, rfl⟩⟩
        obtain ⟨base, allocates⟩ := Option.isSome_iff_exists.mp arrives.replyBlock
        rw [arrives.replyStruct, allocates] at made
        cases made
      | some reply =>
        obtain ⟨carrying, taken, writes, reads, empty⟩ :=
          reply_carries made client.ioServiceClient
        obtain ⟨ret, answered, answer, state', done, held, step⟩ :=
          takes call.request state reads empty (holds request rfl)
        obtain ⟨ret', dst, consumed, returns, outcome⟩ := returnReply_spec call.outcomes
          (wrBuf (spec.code call.request) call.data call.reply) readSize held ret state'
        refine ⟨ret', { wrBuf (spec.code call.request) call.data call.reply with
          readBuffer := dst, readConsumed := consumed }, state', ?_, ?_,
          .inr ⟨ret, answer, step, ?_⟩⟩
        · dsimp only
          rw [writes]
          dsimp only
          rw [show (wrBuf (spec.code call.request) call.data call.reply).cmdCode =
            spec.code call.request from rfl, done]
          exact returns
        · rcases outcome with ⟨told, -⟩ | ⟨rfl, -⟩
          · exact told
          · exact connected.told _ _ _ _ _ step
        · rcases outcome with ⟨-, error, fault⟩ | ⟨rfl, same⟩
          · refine .inl ⟨error, fault.imp id fun long => ?_⟩
            cases there : call.reply with
            | none =>
              rw [capacity, there] at long
              exact absurd rfl long.1
            | some reply =>
              rw [capacity, there] at long
              exact ⟨reply, there, long.2⟩
          · refine .inr ⟨rfl, fun reply there => ?_⟩
            obtain ⟨wf, stored, positive, limit⟩ := ready.storage reply there
            obtain ⟨block, data⟩ := Option.isSome_iff_exists.mp stored
            rw [capacity, there] at same
            obtain ⟨fits, rfl, length, bytes⟩ := same positive.ne'
            exact takeReply_holds held wf limit data fits
              (length.trans (wf.block block data).symm) bytes

/-- What the kernel returns is what the process sees, unless it is an error out of range. -/
theorem ioctlReturn_told {ret : Int32} (errno : Int32) (told : -4095 ≤ ret) :
    (if (ioctlReturn errno ret).1 < 0 then -(ioctlReturn errno ret).2
      else (ioctlReturn errno ret).1) = ret := by
  by_cases error : ret < 0
  · have fails : ioctlReturn errno ret = (-1, -ret) := if_pos ⟨told, error⟩
    rw [fails]
    exact (if_pos (show (-1 : Int32) < 0 by decide)).trans Int32.neg_neg
  · have succeeds : ioctlReturn errno ret = (ret, errno) := if_neg fun both => error both.2
    rw [succeeds]
    exact if_neg error

/-- A call returns the answer of the one step that the service takes for it, or an error: then
something has gone wrong on the way to the driver, which takes no step, or on the way back. -/
theorem dispatch_reports (connected : Connected client spec) (ready : call.Ready spec) (state : σ) :
    ∃ result state' step, hdfSyscallAdapterDispatch call.outcomes call.errno (some client)
        (spec.code call.request) call.data call.reply state =
          some (result.1, result.2, state') ∧
      Reports call result step ∧ Steps spec state step.toList state' := by
  obtain ⟨ret, bwr, state', calls, told, outcome⟩ := servCall_spec connected ready state
  have returns : hdfSyscallAdapterDispatch call.outcomes call.errno (some client)
      (spec.code call.request) call.data call.reply state =
        some (ret, call.reply.map (takeReply · bwr), state') := by
    rw [hdfSyscallAdapterDispatch, vnodeAdapterIoctl, calls, Option.map_some]
    dsimp only
    rw [ioctlReturn_told call.errno told]
  refine ⟨(ret, call.reply.map (takeReply · bwr)), state', ?_⟩
  rcases outcome with ⟨error, fault, rfl⟩ | ⟨ret', answer, step, outcome⟩
  · exact ⟨none, returns, .undone fault error, .nil _⟩
  · refine ⟨some ⟨call.request, ret', answer⟩, returns, ?_,
      .cons step (.nil _)⟩
    rcases outcome with ⟨error, fault⟩ | ⟨rfl, holds⟩
    · exact .lost fault error
    · refine .answered Option.isSome_map fun sbuf there => ?_
      obtain ⟨reply, same, rfl⟩ := Option.map_eq_some_iff.mp there
      exact holds reply same

theorem Steps.append {state state' state'' : σ} {steps steps' : List (Step ρ)}
    (first : Steps spec state steps state') (second : Steps spec state' steps' state'') :
    Steps spec state (steps ++ steps') state'' := by
  induction first with
  | nil => exact second
  | cons step _ ih => exact .cons step (ih second)

/-- The calls that a process makes, one after the other, are what the service sees, with some
left out but none in another order or more than once. Every call that does not return an error is
there, and its return value and its reply are those of its step. -/
theorem makeCalls_reports (connected : Connected client spec) {calls : List (Call ρ)}
    (ready : ∀ call ∈ calls, call.Ready spec) (state : σ) :
    ∃ reports state', makeCalls client spec calls state = some (reports.map Prod.fst, state') ∧
      List.Forall₂ (fun call report => Reports call report.1 report.2) calls reports ∧
      Steps spec state (reports.filterMap Prod.snd) state' := by
  induction calls generalizing state with
  | nil => exact ⟨[], state, rfl, .nil, .nil _⟩
  | cons call calls ih =>
    obtain ⟨result, state₁, step, done, first, taken⟩ :=
      dispatch_reports connected (ready call List.mem_cons_self) state
    obtain ⟨reports, state₂, later, others, rest⟩ :=
      ih (fun other member => ready other (List.mem_cons_of_mem _ member)) state₁
    refine ⟨(result, step) :: reports, state₂, ?_, .cons first others, ?_⟩
    · rw [makeCalls, done, Option.bind_some, later]
      rfl
    · cases step with
      | none | some step => exact taken.append rest

end

/-! ### Examples -/

/-- A service that numbers the calls: the number goes into the reply if there is room. -/
def numberCalls : UInt64 → Dispatch ℕ := fun _ _ _ reply calls =>
  (Sbuf.writeUint32 none reply (.ofNat calls)).map fun wrote =>
    (if wrote.1 then 0 else hdfErrIo, wrote.2, calls + 1)

/-- What it does. -/
def NumbersCalls : ServiceSpec ℕ Unit where
  code _ := 1
  items _ := []
  step _ calls ret answer calls' :=
    calls' = calls + 1 ∧ (ret = 0 ∧ answer = [.scalar (.uint32 (.ofNat calls))] ∨
      ret = hdfErrIo ∧ answer = [])

theorem serves_numberCalls : Serves numberCalls NumbersCalls := by
  intro client request data reply calls _ empty
  obtain ⟨ok, reply', writes, wrote⟩ :=
    Sbuf.writeScalar_spec empty.wellFormed none (.uint32 (.ofNat calls))
  have returns : numberCalls client 1 data reply calls =
      some (if ok then 0 else hdfErrIo, reply', calls + 1) := by
    change (Sbuf.writeScalar none reply (.uint32 (.ofNat calls))).map _ = _
    rw [writes]
    rfl
  cases ok with
  | true => exact ⟨0, reply', [.scalar (.uint32 (.ofNat calls))], calls + 1, returns,
      @Holds.writeItem _ _ [] (.scalar (.uint32 (.ofNat calls))) none none empty writes, rfl,
      .inl ⟨rfl, rfl⟩⟩
  | false => exact ⟨hdfErrIo, reply', [], calls + 1, returns, empty.wrote_failed wrote, rfl,
      .inr ⟨rfl, rfl⟩⟩

/-- A client of this service. -/
def numberedClient : ServCallClient ℕ where
  dispatcher := some (deviceNodeExtDispatch ⟨Core.AddDevice.servicePolicyCapacity,
    some (some numberCalls)⟩)
  ioServiceClient := 4096

/-- A call with room for the number. -/
def numberedCall : Call Unit where
  outcomes := {
    bwrFromUser := true, kData := some 8192, dataFromUser := true, dataStruct := true
    dataBlock := some 8192, replyStruct := true, replyBlock := some 8448, replyToUser := 0
    bwrFault := none }
  errno := 0
  request := ()
  data := none
  reply := some ⟨0, 0, 4, some ⟨12288, [0, 0, 0, 0]⟩, false⟩

/-- The same call when the reply cannot be copied to the user. -/
def faultyCall : Call Unit := { numberedCall with
  outcomes := { numberedCall.outcomes with replyToUser := 1 } }

theorem connected_numberedClient : Connected numberedClient NumbersCalls where
  address := by decide
  served := ⟨_, numberCalls, rfl, rfl, rfl, serves_numberCalls⟩
  told := by
    rintro _ calls ret answer calls' ⟨-, ⟨rfl, -⟩ | ⟨rfl, -⟩⟩ <;> decide

theorem ready_numberedCall : numberedCall.Ready NumbersCalls where
  holds data there := by cases there
  nothing _ := rfl
  storage reply there := by
    cases there
    refine ⟨⟨le_rfl, Nat.zero_le _, by decide, fun data same => ?_⟩, rfl, by decide, by decide⟩
    cases same
    rfl

/-- A faulty call between two others. -/
theorem makeCalls_reports_numbered : ∃ reports calls,
    makeCalls numberedClient NumbersCalls [numberedCall, faultyCall, numberedCall] 7 =
      some (reports.map Prod.fst, calls) ∧
    List.Forall₂ (fun call report => Reports call report.1 report.2)
      [numberedCall, faultyCall, numberedCall] reports ∧
    Steps NumbersCalls 7 (reports.filterMap Prod.snd) calls := by
  refine makeCalls_reports connected_numberedClient (fun call member => ?_) 7
  simp only [List.mem_cons, List.not_mem_nil, or_false] at member
  rcases member with rfl | rfl | rfl
  · exact ready_numberedCall
  · exact ⟨ready_numberedCall.holds, ready_numberedCall.nothing, ready_numberedCall.storage⟩
  · exact ready_numberedCall

end Hdf.VNode
