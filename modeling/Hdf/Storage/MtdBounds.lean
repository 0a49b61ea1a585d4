import Hdf.Lib.LoopOutput
import Mathlib.Data.BitVec
import Mathlib.Logic.Function.Iterate

/-!
# Requests stay on an MTD device

A request is checked against the capacity of the device and then goes to the driver, page
by page for data, or at once for an erasure. The sizes of a device are not zero, and that
is all that is required of them: they need not be powers of two, nor divide each other.

Addresses and sizes have 64 bits. An address is signed for the driver, and unsigned in
every computation and comparison with a size. A division by zero has no result. The two
nested loops over blocks and pages are one, with the rest of the block in `blockSize`.

## Main definitions

* `mtdDeviceRequest`: the calls of the driver during a request
* `StaysOnDevice`: every call is for a part of the device
* `Visits`: the blocks that a request comes to if the driver lets it go on
* `Fits`: the requests that stay on the device

## Main results

* `staysOnDevice_iff`: these and no others do
-/

namespace Hdf.Storage.MtdBounds

/-! ### The device and its driver -/

/-- The part of `struct MtdDevice` that is checked. -/
structure Parms where
  index : Int16
  hasName : Bool
  type : UInt32
  idLen : UInt16
  capacity : BitVec 64
  eraseSize : BitVec 64
  writeSize : BitVec 64
  readSize : BitVec 64
  oobSize : BitVec 64
  deriving DecidableEq

/-- `HDF_ERR_NOT_SUPPORT`. -/
def hdfErrNotSupport : Int32 := -2

/-- `HDF_ERR_INVALID_PARAM`. -/
def hdfErrInvalidParam : Int32 := -3

/-- `HDF_ERR_INVALID_OBJECT`. -/
def hdfErrInvalidObject : Int32 := -4

/-- `HDF_ERR_IO`. -/
def hdfErrIo : Int32 := -17

/-- `MTD_DEVICE_NUM_MAX`. -/
def mtdDeviceNumMax : Int16 := 3

/-- `MTD_TYPE_MAX`. -/
def mtdTypeMax : UInt32 := 4

/-- `MTD_FLASH_ID_LEN_MAX`. -/
def mtdFlashIdLenMax : UInt16 := 8

/-- `MtdDeviceCheckParms`. -/
def mtdDeviceCheckParms (parms : Parms) : Int32 :=
  if parms.index < 0 ∨ parms.index ≥ mtdDeviceNumMax then hdfErrInvalidObject
  else if parms.hasName = false then hdfErrInvalidObject
  else if parms.type ≥ mtdTypeMax then hdfErrInvalidObject
  else if parms.idLen > mtdFlashIdLenMax then hdfErrInvalidObject
  else if parms.capacity = 0 then hdfErrInvalidObject
  else if parms.eraseSize = 0 then hdfErrInvalidObject
  else if parms.writeSize = 0 then hdfErrInvalidObject
  else if parms.readSize = 0 then hdfErrInvalidObject
  else 0

/-- A device that `MtdDeviceAdd` has accepted. -/
structure MtdDevice extends Parms where
  accepted : mtdDeviceCheckParms toParms = 0

/-- `struct MtdDeviceMethod`, with what the callbacks answer. They may be missing. An answer may
depend on how often the loops have called before. -/
structure MtdDeviceMethod where
  lock : Int32
  isBadBlock : Option (ℕ → BitVec 64 → Bool)
  pageTransfer : Option (ℕ → BitVec 64 → BitVec 64 → Int32)
  erase : Option (BitVec 64 → BitVec 64 → Int32)

/-- A call of the driver, with its addresses and lengths. -/
inductive Call where
  | isBadBlock (addr : BitVec 64)
  | pageTransfer (addr dataLen : BitVec 64)
  | erase (addr len : BitVec 64)
  deriving DecidableEq

/-! ### Requests -/

/-- `MTD_MSG_TYPE_WRITE`. -/
def mtdMsgTypeWrite : UInt32 := 0

/-- `MTD_MSG_TYPE_READ`. -/
def mtdMsgTypeRead : UInt32 := 1

/-- `MTD_MSG_TYPE_ERASE`. -/
def mtdMsgTypeErase : UInt32 := 2

/-- `struct MtdMsg`. -/
structure MtdMsg where
  type : UInt32
  addr : BitVec 64
  hasBuf : Bool
  len : BitVec 64
  withOob : Bool
  skipBad : Bool
  deriving DecidableEq

variable (device : MtdDevice) (msg : MtdMsg) (ops : MtdDeviceMethod)

/-- The answer to a request for data that is not aligned to pages. -/
def unaligned : Int32 :=
  if msg.type ≠ mtdMsgTypeRead ∨ msg.withOob then hdfErrInvalidParam else 0

/-- `MtdDeviceCheckMsg`. -/
def mtdDeviceCheckMsg : Option Int32 :=
  if msg.hasBuf = false then some hdfErrInvalidParam
  else if msg.addr + msg.len > device.capacity then some hdfErrInvalidParam
  else if msg.type = mtdMsgTypeErase then
    some (if msg.addr % device.eraseSize ≠ 0 then hdfErrInvalidParam else 0)
  else
    let oobSize := if msg.withOob then device.oobSize else 0
    if msg.addr % device.writeSize ≠ 0 then some (unaligned msg)
    else if device.writeSize + oobSize = 0 then none
    else if msg.len % (device.writeSize + oobSize) ≠ 0 then some (unaligned msg)
    else some 0

/-- The data that is to be transferred. -/
def dataLen : BitVec 64 :=
  if msg.withOob then msg.len / (device.writeSize + device.oobSize) * device.writeSize
  else msg.len

/-- How far a request has come. -/
structure Cursor where
  addr : BitVec 64
  dataLenLeft : BitVec 64
  blockSize : BitVec 64
  turns : ℕ
  deriving DecidableEq

/-- `MtdDeviceIsBadBlockUnlocked`. -/
def mtdDeviceIsBadBlockUnlocked (c : Cursor) : Bool :=
  match ops.isBadBlock with
  | none => false
  | some isBadBlock => isBadBlock c.turns c.addr

/-- The call that asks for it. -/
def asksBadBlock (c : Cursor) : List Call :=
  if ops.isBadBlock.isSome then [.isBadBlock c.addr] else []

/-- The bytes of a page transfer. -/
def pageLen (c : Cursor) : BitVec 64 :=
  let dataLen := device.writeSize - (c.addr &&& (device.writeSize - 1))
  if dataLen > c.blockSize then c.blockSize else dataLen

/-- The cursor after a page transfer. -/
def Cursor.afterPage (c : Cursor) : Cursor where
  addr := c.addr + pageLen device c
  dataLenLeft := c.dataLenLeft - pageLen device c
  blockSize := c.blockSize - pageLen device c
  turns := c.turns + 1

/-- The cursor in front of the first page of a block. -/
def Cursor.inBlock (c : Cursor) : Cursor :=
  let rest := device.eraseSize - (c.addr &&& (device.eraseSize - 1))
  { c with
    blockSize := if c.dataLenLeft < rest then c.dataLenLeft else rest
    turns := c.turns + 1 }

/-- The cursor behind a bad block. -/
def Cursor.skip (c : Cursor) : Cursor :=
  { c with
    addr := (c.addr &&& ~~~(device.eraseSize - 1)) + device.eraseSize
    turns := c.turns + 1 }

/-- One turn of the loops of `MtdDeviceWriteReadByPageUnlock`. -/
def turn (c : Cursor) : Turn Cursor Call Int32 :=
  if c.blockSize > 0 then
    match ops.pageTransfer with
    | none => .ends [] hdfErrNotSupport
    | some pageTransfer =>
      let call := .pageTransfer c.addr (pageLen device c)
      let ret := pageTransfer c.turns c.addr (pageLen device c)
      if ret ≠ 0 then .ends [call] ret else .goes [call] (c.afterPage device)
  else if c.dataLenLeft > 0 ∧ c.addr < device.capacity then
    if mtdDeviceIsBadBlockUnlocked ops c then
      if msg.skipBad then .goes (asksBadBlock ops c) (c.skip device)
      else .ends (asksBadBlock ops c) hdfErrIo
    else .goes (asksBadBlock ops c) (c.inBlock device)
  else .ends [] (if c.dataLenLeft > 0 then hdfErrIo else 0)

/-- Where the loops begin. -/
def start : Cursor := ⟨msg.addr, dataLen device msg, 0, 0⟩

/-- `MtdDeviceRequest`: the calls during a number of turns, and the result if it has returned. -/
def mtdDeviceRequest (turns : ℕ) : Option (List Call × Option Int32) :=
  (mtdDeviceCheckMsg device msg).map fun ret =>
    if ret ≠ 0 then ([], some ret)
    else if ops.lock ≠ 0 then ([], some ops.lock)
    else if msg.type = mtdMsgTypeRead ∨ msg.type = mtdMsgTypeWrite then
      Turn.outputs (turn device msg ops) turns (start device msg)
    else if msg.type = mtdMsgTypeErase then
      match ops.erase with
      | none => ([], some hdfErrNotSupport)
      | some erase => ([.erase msg.addr msg.len], some (erase msg.addr msg.len))
    else ([], some hdfErrNotSupport)

/-! ### Requests that stay on the device -/

/-- A call is for a part of the device. -/
def OnDevice : Call → Prop
  | .isBadBlock addr => 0 ≤ addr.toInt ∧ addr.toInt < device.capacity.toNat
  | .pageTransfer addr len | .erase addr len =>
    0 ≤ addr.toInt ∧ addr.toInt + len.toNat ≤ device.capacity.toNat

/-- Whatever the driver answers, nothing is divided by zero, and all calls are for a part of the
device. -/
def StaysOnDevice : Prop :=
  ∀ ops turns, ∃ result, mtdDeviceRequest device msg ops turns = some result ∧
    ∀ call ∈ result.1, OnDevice device call

/-- What the masks leave of a block or a page behind an address. -/
def rest (size : BitVec 64) (a : ℕ) : ℕ := size.toNat - (a &&& (size.toNat - 1))

/-- The blocks that a request comes to, with the data that is left there at most, if the driver
lets it go on: a bad block is skipped, and a good one transferred if no block is skipped. -/
inductive Visits : ℕ → ℕ → ℕ → Prop
  | first : Visits 0 msg.addr.toNat (dataLen device msg).toNat
  | next {k a l : ℕ} (visits : Visits k a l) (more : 0 < l) (inside : a < device.capacity.toNat) :
    Visits (k + 1) ((a + rest device.eraseSize a) % 2 ^ 64)
      (if msg.skipBad then l else l - rest device.eraseSize a)

/-- Where the pages of a block begin. -/
def pageStart (a i : ℕ) : ℕ := (fun p => p + rest device.writeSize p)^[i] a

/-- The data for a block ends on the device, and no page begins at a negative address. -/
def BlockFits (a l : ℕ) : Prop :=
  a + min l (rest device.eraseSize a) ≤ device.capacity.toNat ∧
    ∀ i, pageStart device a i < a + min l (rest device.eraseSize a) →
      pageStart device a i < 2 ^ 63

/-- There is a buffer, and the sum of address and length, as it is computed, is not greater than
the capacity. -/
def InRange : Prop := msg.hasBuf = true ∧ msg.addr + msg.len ≤ device.capacity

/-- The request is one for whole pages, or it reads without OOB bytes. -/
def Aligned : Prop :=
  msg.addr % device.writeSize = 0 ∧
      msg.len % (device.writeSize + if msg.withOob then device.oobSize else 0) = 0 ∨
    msg.type = mtdMsgTypeRead ∧ msg.withOob = false

/-- The requests that stay on the device. An erasure has an address that is not negative, and
does not end behind the last address. For data, the size of a page with its OOB bytes does not
wrap around to zero, and the data for every block ends on the device. -/
structure Fits : Prop where
  erase : InRange device msg → msg.type = mtdMsgTypeErase → msg.addr % device.eraseSize = 0 →
    0 ≤ msg.addr.toInt ∧ msg.addr.toNat + msg.len.toNat < 2 ^ 64
  page : InRange device msg → msg.type ≠ mtdMsgTypeErase → msg.addr % device.writeSize = 0 →
    msg.withOob = true → device.writeSize + device.oobSize ≠ 0
  blocks : InRange device msg → msg.type = mtdMsgTypeRead ∨ msg.type = mtdMsgTypeWrite →
    Aligned device msg →
    ∀ k a l, Visits device msg k a l → 0 < l → a < device.capacity.toNat → BlockFits device a l

/-! ### Sizes and masks -/

section Masks

variable {device msg ops} {size a : BitVec 64} {c c' : Cursor}

theorem toNat_pos_of_ne_zero (some : size ≠ 0) : 0 < size.toNat :=
  Nat.pos_of_ne_zero fun none => some (BitVec.eq_of_toNat_eq none)

theorem toNat_sub_one (some : size ≠ 0) : (size - 1).toNat = size.toNat - 1 := by
  have one : (1 : BitVec 64) ≤ size := BitVec.le_def.mpr (toNat_pos_of_ne_zero some)
  rw [BitVec.toNat_sub_of_le one]
  rfl

theorem rest_pos (some : size ≠ 0) (n : ℕ) : 0 < rest size n := by
  have positive := toNat_pos_of_ne_zero some
  have masked : n &&& (size.toNat - 1) ≤ size.toNat - 1 := Nat.and_le_right
  rw [rest]
  omega

theorem toNat_rest (some : size ≠ 0) :
    (size - (a &&& (size - 1))).toNat = rest size a.toNat := by
  have positive := toNat_pos_of_ne_zero some
  have masked : a.toNat &&& (size.toNat - 1) ≤ size.toNat - 1 := Nat.and_le_right
  have mask : (a &&& (size - 1)).toNat = a.toNat &&& (size.toNat - 1) := by
    rw [BitVec.toNat_and, toNat_sub_one some]
  rw [BitVec.toNat_sub_of_le (BitVec.le_def.mpr (by omega)), mask, rest]

/-- A bad block is left where its rest ends. -/
theorem toNat_skip (some : size ≠ 0) :
    ((a &&& ~~~(size - 1)) + size).toNat = (a.toNat + rest size a.toNat) % 2 ^ 64 := by
  have split : (a &&& ~~~(size - 1)) + (a &&& (size - 1)) = a := by
    rw [BitVec.add_eq_or_of_and_eq_zero]
    · rw [← BitVec.and_or_distrib_left, BitVec.or_comm, BitVec.or_not_self, BitVec.and_allOnes]
    · ext i
      simp
      grind
  have moved : (a &&& ~~~(size - 1)) + size = a + (size - (a &&& (size - 1))) := by
    grind
  rw [moved, BitVec.toNat_add, toNat_rest some]

theorem toNat_min {x y : BitVec 64} : (if x > y then y else x).toNat = min x.toNat y.toNat := by
  split_ifs with more
  · exact (Nat.min_eq_right (BitVec.lt_def.mp more).le).symm
  · exact (Nat.min_eq_left (Nat.not_lt.mp fun lt => more (BitVec.lt_def.mpr lt))).symm

theorem MtdDevice.positive (device : MtdDevice) :
    device.capacity ≠ 0 ∧ device.eraseSize ≠ 0 ∧ device.writeSize ≠ 0 := by
  have accepted := device.accepted
  rw [mtdDeviceCheckParms] at accepted
  split_ifs at accepted with _ _ _ _ capacity erase write read
  all_goals first | exact absurd accepted (by decide) | exact ⟨capacity, erase, write⟩

theorem toNat_pageLen : (pageLen device c).toNat =
    min (rest device.writeSize c.addr.toNat) c.blockSize.toNat := by
  rw [pageLen, toNat_min, toNat_rest device.positive.2.2]

theorem toNat_blockSize_inBlock : (c.inBlock device).blockSize.toNat =
    min c.dataLenLeft.toNat (rest device.eraseSize c.addr.toNat) := by
  have same := toNat_min (x := device.eraseSize - (c.addr &&& (device.eraseSize - 1)))
    (y := c.dataLenLeft)
  rw [toNat_rest device.positive.2.1, min_comm] at same
  exact same

end Masks

/-! ### The check of a request -/

section Check

variable {device msg}

theorem unaligned_eq_zero :
    unaligned msg = 0 ↔ msg.type = mtdMsgTypeRead ∧ msg.withOob = false := by
  rw [unaligned]
  split_ifs with refused
  · refine iff_of_false (by decide) fun plain => ?_
    simp [plain.1, plain.2] at refused
  · simpa using refused

theorem mtdDeviceCheckMsg_of_not_inRange (refused : ¬InRange device msg) :
    mtdDeviceCheckMsg device msg = some hdfErrInvalidParam := by
  rw [mtdDeviceCheckMsg]
  split_ifs with buf more
  · rfl
  · rfl
  all_goals exact absurd ⟨Bool.eq_true_of_not_eq_false buf, BitVec.not_lt.mp more⟩ refused

theorem mtdDeviceCheckMsg_erase (range : InRange device msg)
    (erase : msg.type = mtdMsgTypeErase) : mtdDeviceCheckMsg device msg =
      some (if msg.addr % device.eraseSize ≠ 0 then hdfErrInvalidParam else 0) := by
  rw [mtdDeviceCheckMsg, if_neg (by simp [range.1]), if_neg (BitVec.not_lt.mpr range.2),
    if_pos erase]

/-- Whether a request for data has an answer, and which. -/
theorem mtdDeviceCheckMsg_data (range : InRange device msg)
    (data : msg.type ≠ mtdMsgTypeErase) :
    (mtdDeviceCheckMsg device msg = none ↔ msg.addr % device.writeSize = 0 ∧
      msg.withOob = true ∧ device.writeSize + device.oobSize = 0) ∧
    (mtdDeviceCheckMsg device msg ≠ none →
      (mtdDeviceCheckMsg device msg = some 0 ↔ Aligned device msg)) := by
  have wraps : device.writeSize + (if msg.withOob then device.oobSize else 0) = 0 ↔
      msg.withOob = true ∧ device.writeSize + device.oobSize = 0 := by
    cases msg.withOob with
    | true => simp
    | false => simpa using device.positive.2.2
  rw [mtdDeviceCheckMsg, if_neg (by simp [range.1]), if_neg (BitVec.not_lt.mpr range.2),
    if_neg data, Aligned, ← wraps]
  dsimp only
  generalize device.writeSize + (if msg.withOob then device.oobSize else 0) = size
  by_cases whole : msg.addr % device.writeSize = 0
  · rw [if_neg (not_not.mpr whole)]
    by_cases none : size = 0
    · rw [if_pos none]
      exact ⟨iff_of_true rfl ⟨whole, none⟩, fun answer => absurd rfl answer⟩
    by_cases pages : msg.len % size = 0
    · rw [if_neg none, if_neg (not_not.mpr pages)]
      exact ⟨iff_of_false (by simp) fun here => none here.2,
        fun _ => iff_of_true rfl (.inl ⟨whole, pages⟩)⟩
    · rw [if_neg none, if_pos pages, Option.some.injEq, unaligned_eq_zero]
      exact ⟨iff_of_false (by simp) fun here => none here.2,
        fun _ => (or_iff_right fun here => pages here.2).symm⟩
  · rw [if_pos whole, Option.some.injEq, unaligned_eq_zero]
    exact ⟨iff_of_false (by simp) fun here => whole here.1,
      fun _ => (or_iff_right fun here => whole here.1).symm⟩

end Check

/-! ### Erasures -/

section Erase

variable {device msg}

/-- An erasure within the range is for a part of the device exactly if nothing wraps around. -/
theorem onDevice_erase_iff (range : InRange device msg) :
    OnDevice device (.erase msg.addr msg.len) ↔
      0 ≤ msg.addr.toInt ∧ msg.addr.toNat + msg.len.toNat < 2 ^ 64 := by
  have sum := BitVec.le_def.mp range.2
  rw [BitVec.toNat_add] at sum
  have capacity := device.capacity.isLt
  have address := msg.addr.isLt
  have length := msg.len.isLt
  rw [OnDevice]
  refine and_congr_right fun signed => ?_
  have unsigned : msg.addr.toInt = msg.addr.toNat := by
    rw [BitVec.toInt_eq_toNat_cond] at signed ⊢
    split_ifs at signed ⊢ with low
    · rfl
    · omega
  rw [unsigned]
  omega

end Erase

/-! ### Requests that fit stay on the device -/

section Stays

variable {device msg ops} {c c' : Cursor} {k a l i : ℕ}

/-- In front of a block, a request has come to one of those that it visits, with no more data. -/
structure Outside (device : MtdDevice) (msg : MtdMsg) (c : Cursor) : Prop where
  blockSize : c.blockSize = 0
  visits : c.dataLenLeft.toNat = 0 ∨ ∃ k l, Visits device msg k c.addr.toNat l ∧
    c.dataLenLeft.toNat ≤ l

/-- Within a block, a request is at the beginning of a page. -/
structure Inside (device : MtdDevice) (msg : MtdMsg) (c : Cursor) : Prop where
  positive : 0 < c.blockSize.toNat
  visits : ∃ k a l left i, Visits device msg k a l ∧ left ≤ l ∧ 0 < left ∧
    a < device.capacity.toNat ∧ c.addr.toNat = pageStart device a i ∧
    c.addr.toNat + c.blockSize.toNat = a + min left (rest device.eraseSize a) ∧
    c.dataLenLeft.toNat + min left (rest device.eraseSize a) = left + c.blockSize.toNat

theorem pageStart_succ :
    pageStart device a (i + 1) =
      pageStart device a i + rest device.writeSize (pageStart device a i) :=
  Function.iterate_succ_apply' _ _ _

/-- An address that is below a half of all addresses is not negative. -/
theorem toInt_of_lt {addr : BitVec 64} (low : addr.toNat < 2 ^ 63) :
    addr.toInt = addr.toNat := by
  rw [BitVec.toInt_eq_toNat_cond, if_pos (by omega)]

/-- What is left of a block is on the device. -/
theorem Inside.fits (inside : Inside device msg c)
    (blocks : ∀ k a l, Visits device msg k a l → 0 < l → a < device.capacity.toNat →
      BlockFits device a l) :
    c.addr.toNat < 2 ^ 63 ∧ c.addr.toNat + c.blockSize.toNat ≤ device.capacity.toNat := by
  obtain ⟨positive, k, a, l, left, i, visits, less, more, within, starts, ends, -⟩ := inside
  obtain ⟨whole, pages⟩ := blocks k a l visits (more.trans_le less) within
  have shorter : min left (rest device.eraseSize a) ≤ min l (rest device.eraseSize a) :=
    min_le_min_right _ less
  have low := pages i (by omega)
  rw [← starts] at low
  exact ⟨low, by omega⟩

/-- A block that is visited begins on the device. -/
theorem Outside.fits (outside : Outside device msg c) (more : 0 < c.dataLenLeft.toNat)
    (within : c.addr.toNat < device.capacity.toNat)
    (blocks : ∀ k a l, Visits device msg k a l → 0 < l → a < device.capacity.toNat →
      BlockFits device a l) : c.addr.toNat < 2 ^ 63 := by
  obtain none | ⟨k, l, visits, less⟩ := outside.visits
  · omega
  · have some := rest_pos device.positive.2.1 c.addr.toNat
    refine (blocks k _ l visits (more.trans_le less) within).2 0 ?_
    rw [pageStart, Function.iterate_zero_apply]
    omega

/-- Within a block there is a page transfer. -/
theorem turn_inside (positive : 0 < c.blockSize.toNat) : turn device msg ops c =
    match ops.pageTransfer with
    | none => .ends [] hdfErrNotSupport
    | some pageTransfer =>
      if pageTransfer c.turns c.addr (pageLen device c) ≠ 0 then
        .ends [.pageTransfer c.addr (pageLen device c)]
          (pageTransfer c.turns c.addr (pageLen device c))
      else .goes [.pageTransfer c.addr (pageLen device c)] (c.afterPage device) := by
  have more : c.blockSize > 0 := BitVec.lt_def.mpr positive
  rw [turn, if_pos more]

/-- In front of a block that begins on the device, the driver is asked about it. -/
theorem turn_outside (none : c.blockSize = 0) (more : 0 < c.dataLenLeft.toNat)
    (within : c.addr.toNat < device.capacity.toNat) : turn device msg ops c =
    if mtdDeviceIsBadBlockUnlocked ops c then
      if msg.skipBad then .goes (asksBadBlock ops c) (c.skip device)
      else .ends (asksBadBlock ops c) hdfErrIo
    else .goes (asksBadBlock ops c) (c.inBlock device) := by
  have some : c.dataLenLeft > 0 := BitVec.lt_def.mpr more
  rw [turn, if_neg (by simp [none]), if_pos ⟨some, BitVec.lt_def.mpr within⟩]

/-- Otherwise the loops end. -/
theorem turn_end (none : c.blockSize = 0)
    (done : ¬(0 < c.dataLenLeft.toNat ∧ c.addr.toNat < device.capacity.toNat)) :
    ∃ ret, turn device msg ops c = .ends [] ret := by
  rw [turn, if_neg (by simp [none]), if_neg]
  · exact ⟨_, rfl⟩
  · exact fun more => done ⟨BitVec.lt_def.mp more.1, BitVec.lt_def.mp more.2⟩

/-- A page transfer that neither wraps around nor goes beyond the block. -/
theorem toNat_afterPage (fits : c.addr.toNat + (pageLen device c).toNat < 2 ^ 64)
    (data : c.blockSize.toNat ≤ c.dataLenLeft.toNat) :
    (c.afterPage device).addr.toNat = c.addr.toNat + (pageLen device c).toNat ∧
      (c.afterPage device).dataLenLeft.toNat = c.dataLenLeft.toNat - (pageLen device c).toNat ∧
      (c.afterPage device).blockSize.toNat = c.blockSize.toNat - (pageLen device c).toNat := by
  have page := @toNat_pageLen device c
  refine ⟨?_, ?_, ?_⟩
  · rw [Cursor.afterPage, BitVec.toNat_add, Nat.mod_eq_of_lt (by omega)]
  · exact BitVec.toNat_sub_of_le (BitVec.le_def.mpr (by omega))
  · exact BitVec.toNat_sub_of_le (BitVec.le_def.mpr (by omega))

/-- Every call of a turn is for a part of the device. -/
theorem onDevice_out (comes : Outside device msg c ∨ Inside device msg c)
    (blocks : ∀ k a l, Visits device msg k a l → 0 < l → a < device.capacity.toNat →
      BlockFits device a l) : ∀ call ∈ (turn device msg ops c).out, OnDevice device call := by
  obtain outside | inside := comes
  · by_cases goes : 0 < c.dataLenLeft.toNat ∧ c.addr.toNat < device.capacity.toNat
    · have low := outside.fits goes.1 goes.2 blocks
      have asks : ∀ call ∈ asksBadBlock ops c, OnDevice device call := by
        intro call there
        rw [asksBadBlock] at there
        split_ifs at there
        · obtain rfl := List.mem_singleton.mp there
          rw [OnDevice, toInt_of_lt low]
          omega
        · cases there
      rw [turn_outside outside.blockSize goes.1 goes.2]
      split_ifs <;> exact asks
    · obtain ⟨ret, ends⟩ := @turn_end device msg ops c outside.blockSize goes
      rw [ends]
      exact fun call there => absurd there List.not_mem_nil
  · obtain ⟨low, whole⟩ := inside.fits blocks
    have page : OnDevice device (.pageTransfer c.addr (pageLen device c)) := by
      rw [OnDevice, toInt_of_lt low, toNat_pageLen]
      omega
    rw [turn_inside inside.positive]
    cases ops.pageTransfer with
    | none => exact fun call there => absurd there List.not_mem_nil
    | some pageTransfer =>
      dsimp only
      split_ifs <;> exact List.forall_mem_singleton.mpr page

/-- The request comes to nothing else. -/
theorem comes_of_goesOn (comes : Outside device msg c ∨ Inside device msg c)
    (goes : Turn.GoesOn (turn device msg ops) c c')
    (blocks : ∀ k a l, Visits device msg k a l → 0 < l → a < device.capacity.toNat →
      BlockFits device a l) : Outside device msg c' ∨ Inside device msg c' := by
  obtain ⟨out, turned⟩ := goes
  obtain outside | inside := comes
  · by_cases more : 0 < c.dataLenLeft.toNat ∧ c.addr.toNat < device.capacity.toNat
    · obtain none | ⟨k, l, visits, less⟩ := outside.visits
      · omega
      have positive := more.1.trans_le less
      have some := rest_pos device.positive.2.1 c.addr.toNat
      rw [turn_outside outside.blockSize more.1 more.2] at turned
      split_ifs at turned with bad skips
      · -- the next block is visited with the same data
        obtain ⟨-, rfl⟩ := Turn.goes.inj turned
        have next := visits.next positive more.2
        rw [if_pos skips, ← toNat_skip device.positive.2.1] at next
        exact .inl ⟨outside.blockSize, .inr ⟨k + 1, l, next, less⟩⟩
      · obtain ⟨-, rfl⟩ := Turn.goes.inj turned
        have size := @toNat_blockSize_inBlock device c
        refine .inr ⟨by omega, k, c.addr.toNat, l, c.dataLenLeft.toNat, 0, visits, less, more.1,
          more.2, rfl, ?_, ?_⟩
        · rw [size]
          rfl
        · rw [size]
          rfl
    · obtain ⟨ret, ends⟩ := @turn_end device msg ops c outside.blockSize more
      cases turned.symm.trans ends
  · obtain ⟨low, whole⟩ := inside.fits blocks
    obtain ⟨positive, k, a, l, left, i, visits, less, some, within, starts, ends, same⟩ := inside
    have after : c' = c.afterPage device := by
      rw [turn_inside positive] at turned
      cases transfers : ops.pageTransfer with
      | none =>
        rw [transfers] at turned
        cases turned
      | some pageTransfer =>
        rw [transfers] at turned
        dsimp only at turned
        split_ifs at turned
        exact (Turn.goes.inj turned).2.symm
    subst after
    have capacity := device.capacity.isLt
    have page := @toNat_pageLen device c
    obtain ⟨addr, dataLenLeft, blockSize⟩ := @toNat_afterPage device c (by omega) (by omega)
    by_cases last : rest device.writeSize c.addr.toNat < c.blockSize.toNat
    · -- a page of the block that is not its last one
      refine .inr ⟨by omega, k, a, l, left, i + 1, visits, less, some, within, ?_, by omega,
        by omega⟩
      rw [pageStart_succ, ← starts]
      omega
    · refine .inl ⟨?_, ?_⟩
      · have none : (c.afterPage device).blockSize.toNat = 0 := by omega
        exact BitVec.eq_of_toNat_eq none
      · rw [dataLenLeft, addr]
        by_cases more : rest device.eraseSize a < left
        · -- the block has been transferred as a whole, and the next one is visited
          have next := visits.next (some.trans_le less) within
          have ends' : c.addr.toNat + (pageLen device c).toNat =
              (a + rest device.eraseSize a) % 2 ^ 64 := by
            rw [Nat.mod_eq_of_lt (by omega)]
            omega
          rw [ends']
          refine .inr ⟨k + 1, _, next, ?_⟩
          split_ifs <;> omega
        · exact .inl (by omega)

end Stays

/-! ### Requests that stay on the device fit -/

section Reaches

open Relation

variable {device msg} {c c' : Cursor} {skipped k a l i : ℕ}

/-- A driver whose blocks are bad at the first questions, and that transfers every page. -/
def obliging (skipped : ℕ) : MtdDeviceMethod where
  lock := 0
  isBadBlock := some fun n _ => n < skipped
  pageTransfer := some fun _ _ _ => 0
  erase := none

/-- From a cursor on, all calls of the driver are for parts of the device. -/
def AllOnDevice (device : MtdDevice) (msg : MtdMsg) (skipped : ℕ) (c : Cursor) : Prop :=
  ∀ c', ReflTransGen (Turn.GoesOn (turn device msg (obliging skipped))) c c' →
    ∀ call ∈ (turn device msg (obliging skipped) c').out, OnDevice device call

theorem AllOnDevice.mono (all : AllOnDevice device msg skipped c)
    (reaches : ReflTransGen (Turn.GoesOn (turn device msg (obliging skipped))) c c') :
    AllOnDevice device msg skipped c' :=
  fun d later => all d (reaches.trans later)

theorem lt_of_toInt {addr : BitVec 64} (signed : 0 ≤ addr.toInt) : addr.toNat < 2 ^ 63 := by
  rw [BitVec.toInt_eq_toNat_cond] at signed
  split_ifs at signed <;> omega

theorem le_pageStart : a ≤ pageStart device a i := by
  induction i with
  | zero => exact le_rfl
  | succ i ih =>
    rw [pageStart_succ]
    omega

theorem pageStart_succ' :
    pageStart device a (i + 1) = pageStart device (a + rest device.writeSize a) i :=
  Function.iterate_succ_apply _ _ _

/-- The pages of a block are on the device, and the request gets behind them. -/
theorem pages_fit (positive : 0 < c.blockSize.toNat)
    (data : c.blockSize.toNat ≤ c.dataLenLeft.toNat)
    (all : AllOnDevice device msg skipped c) :
    c.addr.toNat + c.blockSize.toNat ≤ device.capacity.toNat ∧
      (∀ i, pageStart device c.addr.toNat i < c.addr.toNat + c.blockSize.toNat →
        pageStart device c.addr.toNat i < 2 ^ 63) ∧
      ∃ c', ReflTransGen (Turn.GoesOn (turn device msg (obliging skipped))) c c' ∧
        c'.addr.toNat = c.addr.toNat + c.blockSize.toNat ∧
        c'.dataLenLeft.toNat = c.dataLenLeft.toNat - c.blockSize.toNat ∧ c'.blockSize = 0 := by
  induction size : c.blockSize.toNat using Nat.strong_induction_on generalizing c with
  | h n ih =>
    subst size
    have turned : turn device msg (obliging skipped) c =
        .goes [.pageTransfer c.addr (pageLen device c)] (c.afterPage device) := by
      rw [turn_inside positive]
      rfl
    have first : OnDevice device (.pageTransfer c.addr (pageLen device c)) :=
      all c .refl _ (by rw [turned]; exact List.mem_singleton_self _)
    have low := lt_of_toInt first.1
    have whole := first.2
    rw [toInt_of_lt low] at whole
    have capacity := device.capacity.isLt
    have page := @toNat_pageLen device c
    have some := rest_pos device.positive.2.2 c.addr.toNat
    obtain ⟨addr, dataLenLeft, blockSize⟩ := @toNat_afterPage device c (by omega) data
    have goes : ReflTransGen (Turn.GoesOn (turn device msg (obliging skipped))) c
        (c.afterPage device) := .single ⟨_, turned⟩
    by_cases last : rest device.writeSize c.addr.toNat < c.blockSize.toNat
    · obtain ⟨ends, pages, c', reaches, behind, left, none⟩ :=
        ih _ (by omega) (by omega) (by omega) (all.mono goes) rfl
      refine ⟨by omega, fun i before => ?_, c', goes.trans reaches, by omega, by omega, none⟩
      cases i with
      | zero => exact low
      | succ i =>
        have same : c.addr.toNat + rest device.writeSize c.addr.toNat =
            (c.afterPage device).addr.toNat := by omega
        rw [pageStart_succ', same] at before ⊢
        exact pages i (by omega)
    · refine ⟨by omega, fun i before => ?_, _, goes, by omega, by omega, ?_⟩
      · cases i with
        | zero => exact low
        | succ i =>
          have behind := @le_pageStart device (c.addr.toNat + rest device.writeSize c.addr.toNat) i
          rw [pageStart_succ'] at before
          omega
      · have none : (c.afterPage device).blockSize.toNat = 0 := by omega
        exact BitVec.eq_of_toNat_eq none

/-- A good block fits, and the request gets behind it. -/
theorem block_fits (none : c.blockSize = 0) (more : 0 < c.dataLenLeft.toNat)
    (within : c.addr.toNat < device.capacity.toNat) (good : ¬c.turns < skipped)
    (all : AllOnDevice device msg skipped c) :
    BlockFits device c.addr.toNat c.dataLenLeft.toNat ∧
      ∃ c', ReflTransGen (Turn.GoesOn (turn device msg (obliging skipped))) c c' ∧
        c'.addr.toNat =
          c.addr.toNat + min c.dataLenLeft.toNat (rest device.eraseSize c.addr.toNat) ∧
        c'.dataLenLeft.toNat =
          c.dataLenLeft.toNat - min c.dataLenLeft.toNat (rest device.eraseSize c.addr.toNat) ∧
        c'.blockSize = 0 := by
  have turned : turn device msg (obliging skipped) c =
      .goes (asksBadBlock (obliging skipped) c) (c.inBlock device) := by
    rw [turn_outside none more within, if_neg]
    exact fun bad => good (of_decide_eq_true bad)
  have goes : ReflTransGen (Turn.GoesOn (turn device msg (obliging skipped))) c
      (c.inBlock device) := .single ⟨_, turned⟩
  have some := rest_pos device.positive.2.1 c.addr.toNat
  have size := @toNat_blockSize_inBlock device c
  have data : (c.inBlock device).blockSize.toNat ≤ (c.inBlock device).dataLenLeft.toNat := by
    rw [size]
    exact min_le_left _ _
  obtain ⟨ends, pages, c', reaches, behind, left, none'⟩ :=
    pages_fit (by omega) data (all.mono goes)
  rw [size] at ends pages behind left
  exact ⟨⟨ends, pages⟩, c', goes.trans reaches, behind, left, none'⟩

/-- A request comes to every block that it visits with data left. -/
theorem reaches_of_visits (visits : Visits device msg k a l) (more : 0 < l)
    (skips : if msg.skipBad then k ≤ skipped else skipped = 0)
    (all : AllOnDevice device msg skipped (start device msg)) :
    ∃ c, ReflTransGen (Turn.GoesOn (turn device msg (obliging skipped))) (start device msg) c ∧
      c.addr.toNat = a ∧ c.dataLenLeft.toNat = l ∧ c.blockSize = 0 ∧
      (msg.skipBad = true → c.turns = k) := by
  induction visits with
  | first => exact ⟨_, .refl, rfl, rfl, rfl, fun _ => rfl⟩
  | @next k a l visits some within ih =>
    cases skipBad : msg.skipBad with
    | true =>
      rw [skipBad, if_pos rfl] at skips ih
      obtain ⟨c, reaches, rfl, rfl, none, turns⟩ := ih some (Nat.le_of_succ_le skips)
      have bad : c.turns < skipped := by
        rw [turns rfl]
        exact skips
      have asked : mtdDeviceIsBadBlockUnlocked (obliging skipped) c = true := decide_eq_true bad
      have turned : turn device msg (obliging skipped) c =
          .goes (asksBadBlock (obliging skipped) c) (c.skip device) := by
        rw [turn_outside none some within, if_pos asked, if_pos skipBad]
      exact ⟨_, reaches.tail ⟨_, turned⟩, toNat_skip device.positive.2.1, rfl, none,
        fun _ => congrArg (· + 1) (turns rfl)⟩
    | false =>
      rw [skipBad, if_neg Bool.false_ne_true] at skips more ih
      obtain ⟨c, reaches, rfl, rfl, none, -⟩ := ih some skips
      have good : ¬c.turns < skipped := by omega
      obtain ⟨⟨ends, -⟩, c', later, addr, left, none'⟩ :=
        block_fits none some within good (all.mono reaches)
      have capacity := device.capacity.isLt
      refine ⟨c', reaches.trans later, ?_, ?_, none', fun skips => absurd skips Bool.false_ne_true⟩
      · rw [addr, Nat.mod_eq_of_lt (by omega)]
        omega
      · rw [left, if_neg Bool.false_ne_true]
        omega

/-- The blocks that a request visits fit if all calls are for parts of the device. -/
theorem blocks_fit (all : ∀ skipped, AllOnDevice device msg skipped (start device msg))
    (visits : Visits device msg k a l) (more : 0 < l) (within : a < device.capacity.toNat) :
    BlockFits device a l := by
  have skips : if msg.skipBad then k ≤ (if msg.skipBad then k else 0)
      else (if msg.skipBad then k else 0) = 0 := by
    split_ifs
    · exact le_rfl
    · rfl
  obtain ⟨c, reaches, rfl, rfl, none, turns⟩ := reaches_of_visits visits more skips (all _)
  refine (block_fits none more within ?_ ((all _).mono reaches)).1
  split_ifs with skipBad
  · rw [turns skipBad]
    exact lt_irrefl k
  · exact Nat.not_lt_zero _

end Reaches

/-! ### The requests that stay on the device -/

section Requests

variable {device msg}

/-- A request that is refused calls nothing. -/
theorem staysOnDevice_of_refused {ret : Int32} (refused : mtdDeviceCheckMsg device msg = some ret)
    (error : ret ≠ 0) : StaysOnDevice device msg := by
  intro ops turns
  rw [mtdDeviceRequest, refused, Option.map_some, if_pos error]
  exact ⟨_, rfl, fun call there => absurd there List.not_mem_nil⟩

/-- The calls of a request that is accepted. -/
def callsOf (device : MtdDevice) (msg : MtdMsg) (ops : MtdDeviceMethod) (turns : ℕ) : List Call :=
  if msg.type = mtdMsgTypeRead ∨ msg.type = mtdMsgTypeWrite then
    (Turn.outputs (turn device msg ops) turns (start device msg)).1
  else if msg.type = mtdMsgTypeErase ∧ ops.erase.isSome then [.erase msg.addr msg.len]
  else []

/-- Only a driver that can be locked is called. -/
theorem staysOnDevice_of_accepted (accepted : mtdDeviceCheckMsg device msg = some 0) :
    StaysOnDevice device msg ↔ ∀ ops turns, ops.lock = 0 →
      ∀ call ∈ callsOf device msg ops turns, OnDevice device call := by
  have request (ops : MtdDeviceMethod) (turns : ℕ) : ∃ result,
      mtdDeviceRequest device msg ops turns = some result ∧
        result.1 = if ops.lock = 0 then callsOf device msg ops turns else [] := by
    rw [mtdDeviceRequest, accepted, Option.map_some]
    refine ⟨_, rfl, ?_⟩
    rw [if_neg (not_not.mpr rfl), callsOf]
    by_cases lock : ops.lock = 0
    · rw [if_neg (not_not.mpr lock), if_pos lock]
      split_ifs with data erase erases
      · rfl
      · cases here : ops.erase <;> simp_all
      · cases here : ops.erase <;> simp_all
      · simp_all
      · rfl
    · rw [if_pos lock, if_neg lock]
  constructor
  · intro stays ops turns lock
    obtain ⟨result, same, calls⟩ := request ops turns
    obtain ⟨result', same', all⟩ := stays ops turns
    obtain rfl := Option.some.inj (same.symm.trans same')
    rwa [calls, if_pos lock] at all
  · intro all ops turns
    obtain ⟨result, same, calls⟩ := request ops turns
    refine ⟨result, same, ?_⟩
    rw [calls]
    split_ifs with lock
    · exact all ops turns lock
    · exact fun call there => absurd there List.not_mem_nil

/-- The request begins in front of its first block. -/
theorem outside_start : Outside device msg (start device msg) :=
  ⟨rfl, .inr ⟨0, _, .first, le_rfl⟩⟩

/-- A request for data stays on the device exactly if the blocks that it visits fit. -/
theorem staysOnDevice_data (accepted : mtdDeviceCheckMsg device msg = some 0)
    (data : msg.type = mtdMsgTypeRead ∨ msg.type = mtdMsgTypeWrite) :
    StaysOnDevice device msg ↔ ∀ k a l, Visits device msg k a l → 0 < l →
      a < device.capacity.toNat → BlockFits device a l := by
  rw [staysOnDevice_of_accepted accepted]
  simp only [callsOf, if_pos data]
  constructor
  · intro all k a l visits
    exact blocks_fit (fun skipped => Turn.forall_mem_outputs_iff.mp fun turns =>
      all (obliging skipped) turns rfl) visits
  · intro blocks ops turns _
    have keeps (c c' : Cursor) (comes : Outside device msg c ∨ Inside device msg c)
        (goes : Turn.GoesOn (turn device msg ops) c c') :
        Outside device msg c' ∨ Inside device msg c' := comes_of_goesOn comes goes blocks
    exact Turn.forall_mem_outputs keeps (fun c comes => onDevice_out comes blocks)
      (.inl outside_start) turns

/-- An erasure stays on the device exactly if nothing wraps around. -/
theorem staysOnDevice_erase (range : InRange device msg)
    (accepted : mtdDeviceCheckMsg device msg = some 0) (erase : msg.type = mtdMsgTypeErase) :
    StaysOnDevice device msg ↔
      0 ≤ msg.addr.toInt ∧ msg.addr.toNat + msg.len.toNat < 2 ^ 64 := by
  rw [staysOnDevice_of_accepted accepted, ← onDevice_erase_iff range]
  have other : ¬(msg.type = mtdMsgTypeRead ∨ msg.type = mtdMsgTypeWrite) := by
    rw [erase]
    decide
  constructor
  · intro all
    refine all ⟨0, none, none, some fun _ _ => 0⟩ 0 rfl _ ?_
    rw [callsOf, if_neg other, if_pos ⟨erase, rfl⟩]
    exact List.mem_singleton_self _
  · intro whole ops _ _
    rw [callsOf, if_neg other]
    split_ifs
    · exact List.forall_mem_singleton.mpr whole
    · exact fun call there => absurd there List.not_mem_nil

end Requests

/-- Requests stay on the device exactly if they fit. -/
theorem staysOnDevice_iff : StaysOnDevice device msg ↔ Fits device msg := by
  by_cases range : InRange device msg
  swap
  · refine iff_of_true ?_ ⟨fun here => absurd here range, fun here => absurd here range,
      fun here => absurd here range⟩
    exact staysOnDevice_of_refused (mtdDeviceCheckMsg_of_not_inRange range) (by decide)
  by_cases erase : msg.type = mtdMsgTypeErase
  · have none : ¬(msg.type = mtdMsgTypeRead ∨ msg.type = mtdMsgTypeWrite) := by
      rw [erase]
      decide
    have check := mtdDeviceCheckMsg_erase range erase
    by_cases aligned : msg.addr % device.eraseSize = 0
    · rw [if_neg (not_not.mpr aligned)] at check
      rw [staysOnDevice_erase range check erase]
      exact ⟨fun whole => ⟨fun _ _ _ => whole, fun _ data => absurd erase data,
        fun _ data => absurd data none⟩, fun fits => fits.erase range erase aligned⟩
    · rw [if_pos aligned] at check
      exact iff_of_true (staysOnDevice_of_refused check (by decide))
        ⟨fun _ _ here => absurd here aligned, fun _ data => absurd erase data,
          fun _ data => absurd data none⟩
  · obtain ⟨wraps, accepts⟩ := mtdDeviceCheckMsg_data range erase
    by_cases answer : mtdDeviceCheckMsg device msg = none
    · obtain ⟨whole, oob, zero⟩ := wraps.mp answer
      refine iff_of_false (fun stays => ?_) fun fits => fits.page range erase whole oob zero
      obtain ⟨result, here, -⟩ := stays (obliging 0) 0
      rw [mtdDeviceRequest, answer] at here
      cases here
    have page (whole : msg.addr % device.writeSize = 0) (oob : msg.withOob = true)
        (zero : device.writeSize + device.oobSize = 0) : False :=
      answer (wraps.mpr ⟨whole, oob, zero⟩)
    by_cases aligned : Aligned device msg
    · have accepted := (accepts answer).mpr aligned
      by_cases data : msg.type = mtdMsgTypeRead ∨ msg.type = mtdMsgTypeWrite
      · rw [staysOnDevice_data accepted data]
        exact ⟨fun blocks => ⟨fun _ here => absurd here erase, fun _ _ => page,
          fun _ _ _ => blocks⟩, fun fits => fits.blocks range data aligned⟩
      · refine iff_of_true ?_ ⟨fun _ here => absurd here erase, fun _ _ => page,
          fun _ here => absurd here data⟩
        rw [staysOnDevice_of_accepted accepted]
        intro ops turns _
        rw [callsOf, if_neg data, if_neg fun here => erase here.1]
        exact fun call there => absurd there List.not_mem_nil
    · obtain ⟨ret, refused⟩ := Option.ne_none_iff_exists'.mp answer
      have error : ret ≠ 0 := by
        rintro rfl
        exact aligned ((accepts answer).mp refused)
      exact iff_of_true (staysOnDevice_of_refused refused error)
        ⟨fun _ here => absurd here erase, fun _ _ => page, fun _ _ here => absurd here aligned⟩

/-- A flash of 128 MiB. -/
def nand : MtdDevice where
  index := 0
  hasName := true
  type := 1
  idLen := 0
  capacity := 0x8000000
  eraseSize := 0x20000
  writeSize := 0x800
  readSize := 0x800
  oobSize := 64
  accepted := by decide

/-- The block in front of the device: its address and its length add up to zero. -/
def eraseInFront : MtdMsg := ⟨mtdMsgTypeErase, -0x20000, true, 0x20000, false, false⟩

theorem erases_in_front : ¬∀ device msg, StaysOnDevice device msg := by
  intro all
  have range : InRange nand eraseInFront := ⟨rfl, by decide⟩
  have accepted : mtdDeviceCheckMsg nand eraseInFront = some 0 := by decide
  have whole := (staysOnDevice_erase range accepted rfl).mp (all nand eraseInFront)
  exact absurd whole.1 (by decide)

end Hdf.Storage.MtdBounds
