import Hdf.Lib.BitFields
import Mathlib.Data.List.Basic
import Mathlib.Tactic.Ring

/-!
# Page transfers of an MTD device

A flash consists of blocks that are erased at once, and a block consists of pages. A message
reads or writes a range of the flash, page by page. With OOB data, every page is followed in
the buffer by its OOB bytes. Bad blocks are skipped, or they end the message.

Sizes and addresses have 64 bits. Buffers are given by the offset in the buffer of the message.
What the driver answers to the page transfers comes with the call.

## Main definitions

* `mtdDeviceCheckMsg`: which messages are accepted
* `mtdDeviceWriteReadByPageUnlock`: what a message returns, and its page transfers
* `available`: the addresses that a message may use
* `Follows`: the page transfers follow the available addresses and the buffer

## Main results

* `follows_of_whole`: they do so if the flash consists of whole blocks
* `beyond_capacity`: a flash that ends in the middle of a block is accessed beyond its end
-/

namespace Hdf.Storage.Mtd

/-- `enum MtdMsgType`. -/
inductive MtdMsgType where
  | write | read | erase
  deriving DecidableEq, Repr

/-- A device. Its blocks are numbered, and a page and its OOB bytes have a size. -/
structure MtdDevice where
  capacity : ℕ
  eraseSize : ℕ
  writeSize : ℕ
  oobSize : ℕ
  badBlock : ℕ → Bool
  capacity_lt : capacity < 2 ^ 64
  pow : ∃ i j, writeSize = 2 ^ i ∧ eraseSize = 2 ^ i * 2 ^ j ∧ i + j < 64
  page_lt : writeSize + oobSize < 2 ^ 64

/-- `struct MtdMsg`. -/
structure MtdMsg where
  type : MtdMsgType
  addr : ℕ
  len : ℕ
  withOob : Bool
  skipBad : Bool
  addr_lt : addr < 2 ^ 64
  len_lt : len < 2 ^ 64

/-- `struct MtdPage`. -/
structure MtdPage where
  type : MtdMsgType
  addr : ℕ
  dataBuf : ℕ
  dataLen : ℕ
  oobBuf : Option ℕ
  oobLen : ℕ
  deriving DecidableEq, Repr

/-- `HDF_ERR_INVALID_PARAM`. -/
def hdfErrInvalidParam : Int32 := -3

/-- `HDF_ERR_IO`. -/
def hdfErrIo : Int32 := -17

/-- The OOB bytes of each page of a message. -/
def oobLenOf (device : MtdDevice) (msg : MtdMsg) : ℕ := if msg.withOob then device.oobSize else 0

/-- `MtdDeviceCheckMsg`. -/
def mtdDeviceCheckMsg (device : MtdDevice) (msg : MtdMsg) : Int32 :=
  if device.capacity < (msg.addr + msg.len) % 2 ^ 64 then hdfErrInvalidParam
  else if msg.type = .erase then
    if msg.addr % device.eraseSize ≠ 0 then hdfErrInvalidParam else 0
  else if msg.addr % device.writeSize ≠ 0 ∨
      msg.len % (device.writeSize + oobLenOf device msg) ≠ 0 then
    if msg.type ≠ .read ∨ msg.withOob then hdfErrInvalidParam else 0
  else 0

/-- `MtdDeviceIsBadBlockUnlocked`. -/
def mtdDeviceIsBadBlockUnlocked (device : MtdDevice) (addr : ℕ) : Bool :=
  device.badBlock (addr / device.eraseSize)

/-- How far a message has come: the address, the buffer, the data that is left, and the number of
page transfers. -/
structure Cursor where
  addr : ℕ
  buf : ℕ
  dataLenLeft : ℕ
  transfers : ℕ
  deriving DecidableEq, Repr

/-- The page transfer at a cursor, of which at most `blockSize` bytes may be used. -/
def mtdPage (device : MtdDevice) (msg : MtdMsg) (blockSize : ℕ) (c : Cursor) : MtdPage :=
  let dataLen := device.writeSize - (c.addr &&& (device.writeSize - 1))
  let dataLen := if blockSize < dataLen then blockSize else dataLen
  { type := msg.type
    addr := c.addr
    dataBuf := c.buf
    dataLen := dataLen
    oobBuf := if msg.withOob then some (c.buf + dataLen) else none
    oobLen := oobLenOf device msg }

/-- The cursor after a page transfer. -/
def Cursor.next (c : Cursor) (page : MtdPage) : Cursor :=
  ⟨c.addr + page.dataLen, c.buf + (page.dataLen + page.oobLen), c.dataLenLeft - page.dataLen,
    c.transfers + 1⟩

theorem MtdDevice.writeSize_pos (device : MtdDevice) : 0 < device.writeSize := by
  obtain ⟨i, _, write, _⟩ := device.pow
  rw [write]
  exact Nat.two_pow_pos i

theorem MtdDevice.writeSize_dvd (device : MtdDevice) : device.writeSize ∣ device.eraseSize := by
  obtain ⟨_, j, write, erase, _⟩ := device.pow
  exact ⟨2 ^ j, by rw [erase, write]⟩

theorem MtdDevice.eraseSize_pos (device : MtdDevice) : 0 < device.eraseSize := by
  obtain ⟨i, j, _, erase, _⟩ := device.pow
  rw [erase]
  exact Nat.mul_pos (Nat.two_pow_pos i) (Nat.two_pow_pos j)

theorem MtdDevice.and_writeSize (device : MtdDevice) (addr : ℕ) :
    addr &&& (device.writeSize - 1) = addr % device.writeSize := by
  obtain ⟨i, _, write, _⟩ := device.pow
  rw [write]
  exact Nat.and_two_pow_sub_one_eq_mod addr i

theorem MtdDevice.and_eraseSize (device : MtdDevice) (addr : ℕ) :
    addr &&& (device.eraseSize - 1) = addr % device.eraseSize := by
  obtain ⟨i, j, _, erase, _⟩ := device.pow
  rw [erase, ← Nat.pow_add]
  exact Nat.and_two_pow_sub_one_eq_mod addr (i + j)

theorem dataLen_mtdPage (device : MtdDevice) (msg : MtdMsg) (blockSize : ℕ) (c : Cursor) :
    (mtdPage device msg blockSize c).dataLen =
      min blockSize (device.writeSize - c.addr % device.writeSize) := by
  rw [← device.and_writeSize]
  simp only [mtdPage]
  split <;> omega

theorem dataLen_mtdPage_pos (device : MtdDevice) (msg : MtdMsg) {blockSize : ℕ} (c : Cursor)
    (more : blockSize ≠ 0) : 0 < (mtdPage device msg blockSize c).dataLen := by
  have inside := Nat.mod_lt c.addr device.writeSize_pos
  rw [dataLen_mtdPage]
  omega

/-- The inner loop of `MtdDeviceWriteReadByPageUnlock`, which transfers the pages of one block:
what it returns, the page transfers, and the cursor after them. -/
def pageLoop (device : MtdDevice) (msg : MtdMsg) (answer : ℕ → Int32) (blockSize : ℕ)
    (c : Cursor) : Int32 × List MtdPage × Cursor :=
  if _more : blockSize = 0 then (0, [], c)
  else
    let page := mtdPage device msg blockSize c
    if answer c.transfers ≠ 0 then (answer c.transfers, [page], c)
    else
      let rest := pageLoop device msg answer (blockSize - page.dataLen) (c.next page)
      (rest.1, page :: rest.2.1, rest.2.2)
termination_by blockSize
decreasing_by
  have positive := dataLen_mtdPage_pos device msg c _more
  omega

/-- `addr & ~(eraseSize - 1)`. -/
def alignDown (eraseSize addr : ℕ) : ℕ :=
  (BitVec.ofNat 64 addr &&& ~~~BitVec.ofNat 64 (eraseSize - 1)).toNat

theorem pageLoop_addr (device : MtdDevice) (msg : MtdMsg) (answer : ℕ → Int32)
    (blockSize : ℕ) (c : Cursor) (success : (pageLoop device msg answer blockSize c).1 = 0) :
    (pageLoop device msg answer blockSize c).2.2.addr = c.addr + blockSize := by
  fun_induction pageLoop device msg answer blockSize c with
  | case1 c => rfl
  | case2 blockSize c more page failed => exact absurd success failed
  | case3 blockSize c more page _ rest ih =>
    have inside : page.dataLen ≤ blockSize := by
      rw [dataLen_mtdPage]
      exact Nat.min_le_left ..
    have step : (c.next page).addr = c.addr + page.dataLen := rfl
    rw [ih success, step]
    omega

theorem alignDown_eq (device : MtdDevice) {addr : ℕ} (small : addr < 2 ^ 64) :
    alignDown device.eraseSize addr = addr - addr % device.eraseSize := by
  obtain ⟨i, j, _, erase, lt⟩ := device.pow
  have erase_lt : device.eraseSize < 2 ^ 64 := by
    rw [erase, ← Nat.pow_add]
    exact Nat.pow_lt_pow_right (by decide) lt
  rw [alignDown, BitVec.toNat_and_not, BitVec.toNat_and, BitVec.toNat_ofNat, BitVec.toNat_ofNat,
    Nat.mod_eq_of_lt small, Nat.mod_eq_of_lt (by omega), device.and_eraseSize]

/-- The size of the part of a block that is used at a cursor. -/
def blockSize (device : MtdDevice) (c : Cursor) : ℕ :=
  let eraseOffset := c.addr &&& (device.eraseSize - 1)
  if c.dataLenLeft < device.eraseSize - eraseOffset then c.dataLenLeft
  else device.eraseSize - eraseOffset

theorem blockSize_eq (device : MtdDevice) (c : Cursor) : blockSize device c =
    min c.dataLenLeft (device.eraseSize - c.addr % device.eraseSize) := by
  rw [← device.and_eraseSize]
  simp only [blockSize]
  split <;> omega

theorem blockSize_pos (device : MtdDevice) (c : Cursor) (more : 0 < c.dataLenLeft) :
    0 < blockSize device c := by
  have inside := Nat.mod_lt c.addr device.eraseSize_pos
  rw [blockSize_eq]
  omega

/-- The outer loop of `MtdDeviceWriteReadByPageUnlock`: what it returns, and the page transfers. -/
def blockLoop (device : MtdDevice) (msg : MtdMsg) (answer : ℕ → Int32) (c : Cursor) :
    Int32 × List MtdPage :=
  if _inside : 0 < c.dataLenLeft ∧ c.addr < device.capacity then
    if mtdDeviceIsBadBlockUnlocked device c.addr then
      if ¬msg.skipBad then (hdfErrIo, [])
      else blockLoop device msg answer
        { c with addr := alignDown device.eraseSize c.addr + device.eraseSize }
    else
      let block := pageLoop device msg answer (blockSize device c) c
      if _failed : block.1 ≠ 0 then (block.1, block.2.1)
      else
        let rest := blockLoop device msg answer block.2.2
        (rest.1, block.2.1 ++ rest.2)
  else if 0 < c.dataLenLeft then (hdfErrIo, [])
  else (0, [])
termination_by device.capacity - c.addr
decreasing_by
  · have small := Nat.lt_trans _inside.2 device.capacity_lt
    have low := Nat.mod_lt c.addr device.eraseSize_pos
    have le := Nat.mod_le c.addr device.eraseSize
    have after : c.addr < alignDown device.eraseSize c.addr + device.eraseSize := by
      rw [alignDown_eq device small]
      omega
    exact Nat.sub_lt_sub_left _inside.2 after
  · have positive := blockSize_pos device c _inside.1
    have after := pageLoop_addr device msg answer (blockSize device c) c (not_not.mp _failed)
    change device.capacity - (pageLoop device msg answer (blockSize device c) c).2.2.addr < _
    omega

/-- The data of a message. -/
def dataLen (device : MtdDevice) (msg : MtdMsg) : ℕ :=
  if msg.withOob then msg.len / (device.writeSize + device.oobSize) * device.writeSize
  else msg.len

/-- `MtdDeviceWriteReadByPageUnlock`. -/
def mtdDeviceWriteReadByPageUnlock (device : MtdDevice) (msg : MtdMsg) (answer : ℕ → Int32) :
    Int32 × List MtdPage :=
  blockLoop device msg answer ⟨msg.addr, 0, dataLen device msg, 0⟩

/-! ### What the page transfers follow -/

/-- The addresses of a page transfer. -/
def MtdPage.addrs (page : MtdPage) : List ℕ := List.range' page.addr page.dataLen

/-- The bytes of the buffer that a page transfer uses. -/
def MtdPage.used (page : MtdPage) : ℕ := page.dataLen + page.oobLen

/-- Page transfers use the buffer from an offset on, the OOB bytes of each following its data. -/
def Placed (device : MtdDevice) (msg : MtdMsg) : ℕ → List MtdPage → Prop
  | _, [] => True
  | buf, page :: pages =>
    page.dataBuf = buf ∧ page.oobLen = oobLenOf device msg ∧
      page.oobBuf = (if msg.withOob then some (buf + page.dataLen) else none) ∧
      Placed device msg (buf + page.used) pages

/-- A page transfer of a message stays within a page of a good block below the capacity. -/
def InPage (device : MtdDevice) (msg : MtdMsg) (page : MtdPage) : Prop :=
  page.type = msg.type ∧ 0 < page.dataLen ∧
    ∃ start, device.writeSize ∣ start ∧ start ≤ page.addr ∧
      page.addr + page.dataLen ≤ start + device.writeSize ∧
      start + device.writeSize ≤ device.capacity ∧
      mtdDeviceIsBadBlockUnlocked device start = false

/-- The addresses that a message may use: those of the good blocks, or those before the first bad
block. -/
def available (device : MtdDevice) (skipBad : Bool) (addr : ℕ) : List ℕ :=
  let addrs := List.range' addr (device.capacity - addr)
  if skipBad then addrs.filter (!mtdDeviceIsBadBlockUnlocked device ·)
  else addrs.takeWhile (!mtdDeviceIsBadBlockUnlocked device ·)

/-- What a message returns and its page transfers follow the available addresses and the buffer. -/
structure Follows (device : MtdDevice) (msg : MtdMsg) (answer : ℕ → Int32)
    (result : Int32 × List MtdPage) : Prop where
  /-- The buffer is used from its begin on. -/
  placed : Placed device msg 0 result.2
  inPage : ∀ page ∈ result.2, InPage device msg page
  /-- The addresses are those that are available. -/
  addrs : result.2.flatMap MtdPage.addrs <+: available device msg.skipBad msg.addr
  /-- The message succeeds if and only if it fits and all page transfers succeed. -/
  succeeds : result.1 = 0 ↔
    dataLen device msg ≤ (available device msg.skipBad msg.addr).length ∧
      ∀ i < result.2.length, answer i = 0
  /-- Then all its data has been transferred, and the whole buffer has been used. -/
  whole : result.1 = 0 → (result.2.flatMap MtdPage.addrs).length = dataLen device msg ∧
    (result.2.map MtdPage.used).sum = msg.len
  /-- A message that does not fit fails after everything that is available. -/
  exhausts : (∀ i < result.2.length, answer i = 0) →
    (available device msg.skipBad msg.addr).length < dataLen device msg →
    result.1 = hdfErrIo ∧
      result.2.flatMap MtdPage.addrs = available device msg.skipBad msg.addr

section

variable {device : MtdDevice} {msg : MtdMsg} {answer : ℕ → Int32} {n addr buf : ℕ} {c : Cursor}
  {page : MtdPage} {pages rest : List MtdPage} {skipBad : Bool}

@[simp]
theorem placed_nil : Placed device msg buf [] := trivial

theorem placed_cons : Placed device msg buf (page :: pages) ↔
    page.dataBuf = buf ∧ page.oobLen = oobLenOf device msg ∧
      page.oobBuf = (if msg.withOob then some (buf + page.dataLen) else none) ∧
      Placed device msg (buf + page.used) pages :=
  Iff.rfl

theorem Placed.append (first : Placed device msg buf pages)
    (second : Placed device msg (buf + (pages.map MtdPage.used).sum) rest) :
    Placed device msg buf (pages ++ rest) := by
  induction pages generalizing buf with
  | nil => exact second
  | cons page pages ih =>
    rw [placed_cons] at first
    rw [List.cons_append, placed_cons]
    refine ⟨first.1, first.2.1, first.2.2.1, ih first.2.2.2 ?_⟩
    rwa [List.map_cons, List.sum_cons, ← Nat.add_assoc] at second

/-! ### The available addresses -/

theorem available_of_le (beyond : device.capacity ≤ addr) : available device skipBad addr = [] := by
  rw [available, Nat.sub_eq_zero_of_le beyond]
  cases skipBad <;> rfl

/-- Nothing is available from a bad block on if bad blocks are not skipped. -/
theorem available_of_bad (bad : mtdDeviceIsBadBlockUnlocked device addr = true) :
    available device false addr = [] := by
  rcases Nat.lt_or_ge addr device.capacity with inside | beyond
  · obtain ⟨k, same⟩ := Nat.exists_eq_add_of_lt inside
    have length : device.capacity - addr = k + 1 := by omega
    simp only [available, length, List.range'_succ, Bool.false_eq_true, if_false]
    exact List.takeWhile_cons_of_neg (by simp [bad])
  · exact available_of_le beyond

/-- The addresses of a block are those up to the next block. -/
theorem isBadBlock_add (inBlock : n < device.eraseSize - addr % device.eraseSize) :
    mtdDeviceIsBadBlockUnlocked device (addr + n) = mtdDeviceIsBadBlockUnlocked device addr := by
  have divided := Nat.div_add_mod addr device.eraseSize
  rw [mtdDeviceIsBadBlockUnlocked, mtdDeviceIsBadBlockUnlocked]
  congr 1
  refine Nat.div_eq_of_lt_le ?_ ?_
  · rw [Nat.mul_comm]
    omega
  · rw [Nat.succ_mul, Nat.mul_comm]
    omega

theorem isBadBlock_of_mem (inBlock : n ≤ device.eraseSize - addr % device.eraseSize) {a : ℕ}
    (member : a ∈ List.range' addr n) :
    mtdDeviceIsBadBlockUnlocked device a = mtdDeviceIsBadBlockUnlocked device addr := by
  obtain ⟨i, below, rfl⟩ := List.mem_range'.mp member
  rw [Nat.one_mul]
  exact isBadBlock_add (Nat.lt_of_lt_of_le below inBlock)

theorem range'_split {k : ℕ} (le : k ≤ n) :
    List.range' addr n = List.range' addr k ++ List.range' (addr + k) (n - k) := by
  rw [List.range'_append_1, Nat.add_sub_cancel' le]

theorem range'_capacity (inside : addr + n ≤ device.capacity) :
    List.range' addr (device.capacity - addr) =
      List.range' addr n ++ List.range' (addr + n) (device.capacity - (addr + n)) := by
  rw [range'_split (Nat.le_sub_of_add_le' inside), Nat.sub_add_eq]

/-- The addresses in a good block come first. -/
theorem available_of_good (good : mtdDeviceIsBadBlockUnlocked device addr = false)
    (inBlock : n ≤ device.eraseSize - addr % device.eraseSize)
    (inside : addr + n ≤ device.capacity) :
    available device skipBad addr =
      List.range' addr n ++ available device skipBad (addr + n) := by
  have allGood : ∀ a ∈ List.range' addr n, (!mtdDeviceIsBadBlockUnlocked device a) = true := by
    intro a member
    rw [isBadBlock_of_mem inBlock member, good]
    rfl
  simp only [available, range'_capacity inside]
  split
  · rw [List.filter_append, List.filter_eq_self.mpr allGood]
  · exact List.takeWhile_append_of_pos allGood

/-- The addresses of a bad block are left out. -/
theorem available_of_skip (bad : mtdDeviceIsBadBlockUnlocked device addr = true)
    (inBlock : n ≤ device.eraseSize - addr % device.eraseSize)
    (inside : addr + n ≤ device.capacity) :
    available device true addr = available device true (addr + n) := by
  have allBad : ∀ a ∈ List.range' addr n, ¬(!mtdDeviceIsBadBlockUnlocked device a) = true := by
    intro a member
    rw [isBadBlock_of_mem inBlock member, bad]
    exact Bool.false_ne_true
  simp only [available, range'_capacity inside, if_true]
  rw [List.filter_append, List.filter_eq_nil_iff.mpr allBad, List.nil_append]

theorem block_le (whole : device.eraseSize ∣ device.capacity) (inside : addr < device.capacity) :
    addr + (device.eraseSize - addr % device.eraseSize) ≤ device.capacity := by
  obtain ⟨blocks, capacity⟩ := whole
  have divided := Nat.div_add_mod addr device.eraseSize
  have below : addr / device.eraseSize < blocks :=
    Nat.div_lt_of_lt_mul (by rwa [← capacity])
  have low := Nat.mod_lt addr device.eraseSize_pos
  have next := Nat.mul_le_mul_left device.eraseSize below
  rw [Nat.mul_succ] at next
  omega

/-! ### The pages of one block -/

theorem addrs_mtdPage : (mtdPage device msg n c).addrs =
    List.range' c.addr (mtdPage device msg n c).dataLen := rfl

theorem dataLen_mtdPage_le (device : MtdDevice) (msg : MtdMsg) (n : ℕ) (c : Cursor) :
    (mtdPage device msg n c).dataLen ≤ n := by
  rw [dataLen_mtdPage]
  exact Nat.min_le_left ..

theorem inPage_mtdPage (whole : device.eraseSize ∣ device.capacity)
    (inside : c.addr < device.capacity)
    (good : mtdDeviceIsBadBlockUnlocked device c.addr = false) (more : n ≠ 0) :
    InPage device msg (mtdPage device msg n c) := by
  have positive := dataLen_mtdPage_pos device msg c more
  have length := dataLen_mtdPage device msg n c
  have divided := Nat.div_add_mod c.addr device.writeSize
  have low := Nat.mod_lt c.addr device.writeSize_pos
  obtain ⟨pages, capacity⟩ := device.writeSize_dvd.trans whole
  refine ⟨rfl, positive, device.writeSize * (c.addr / device.writeSize), Nat.dvd_mul_right .., ?_,
    ?_, ?_, ?_⟩
  · exact Nat.mul_div_le ..
  · change c.addr + (mtdPage device msg n c).dataLen ≤ _
    omega
  · have below : c.addr / device.writeSize < pages :=
      Nat.div_lt_of_lt_mul (by rwa [← capacity])
    rw [capacity, ← Nat.mul_succ]
    exact Nat.mul_le_mul_left _ below
  · -- a block consists of pages, so that the begin of the page is in the same block
    obtain ⟨i, same⟩ := device.writeSize_dvd
    rw [mtdDeviceIsBadBlockUnlocked, same] at good ⊢
    rwa [← Nat.div_div_eq_div_mul, Nat.mul_div_cancel_left _ device.writeSize_pos,
      Nat.div_div_eq_div_mul]

/-- What the page transfers of one block are, and where the cursor is after them. -/
structure Block (device : MtdDevice) (msg : MtdMsg) (answer : ℕ → Int32) (n : ℕ) (c : Cursor)
    (result : Int32 × List MtdPage × Cursor) : Prop where
  placed : Placed device msg c.buf result.2.1
  inPage : ∀ page ∈ result.2.1, InPage device msg page
  addrs : result.2.1.flatMap MtdPage.addrs <+: List.range' c.addr n
  succeeds : result.1 = 0 ↔ ∀ i < result.2.1.length, answer (c.transfers + i) = 0
  whole : result.1 = 0 → result.2.1.flatMap MtdPage.addrs = List.range' c.addr n
  cursor : result.1 = 0 → result.2.2 = ⟨c.addr + n,
    c.buf + (result.2.1.map MtdPage.used).sum, c.dataLenLeft - n,
    c.transfers + result.2.1.length⟩
  full : device.writeSize ∣ c.addr → device.writeSize ∣ n →
    ∀ page ∈ result.2.1, page.dataLen = device.writeSize

/-- At an aligned address, a page is transferred as a whole. -/
theorem dataLen_mtdPage_of_dvd (aligned : device.writeSize ∣ c.addr)
    (pages : device.writeSize ∣ n) (more : n ≠ 0) :
    (mtdPage device msg n c).dataLen = device.writeSize := by
  rw [dataLen_mtdPage, Nat.mod_eq_zero_of_dvd aligned, Nat.sub_zero]
  exact Nat.min_eq_right (Nat.le_of_dvd (Nat.pos_of_ne_zero more) pages)

theorem Block.nil : Block device msg answer 0 c (0, [], c) where
  placed := placed_nil
  inPage _ member := absurd member List.not_mem_nil
  addrs := List.prefix_rfl
  succeeds := by simp
  whole _ := rfl
  cursor _ := rfl
  full _ _ _ member := absurd member List.not_mem_nil

/-- A page transfer that fails. -/
theorem Block.failing (more : n ≠ 0) (inPage : InPage device msg (mtdPage device msg n c))
    (failed : answer c.transfers ≠ 0) :
    Block device msg answer n c (answer c.transfers, [mtdPage device msg n c], c) where
  placed := ⟨rfl, rfl, rfl, trivial⟩
  inPage := by
    intro page member
    rwa [List.mem_singleton.mp member]
  addrs := by
    rw [List.flatMap_singleton, addrs_mtdPage, range'_split (dataLen_mtdPage_le device msg n c)]
    exact List.prefix_append ..
  succeeds := ⟨fun success => absurd success failed,
    fun all => absurd (all 0 Nat.one_pos) failed⟩
  whole success := absurd success failed
  cursor success := absurd success failed
  full aligned pages := by
    intro page member
    rw [List.mem_singleton.mp member]
    exact dataLen_mtdPage_of_dvd aligned pages more

/-- A page transfer that succeeds, and those after it. -/
theorem Block.cons (more : n ≠ 0) (inPage : InPage device msg (mtdPage device msg n c))
    (success : answer c.transfers = 0) {result : Int32 × List MtdPage × Cursor}
    (block : Block device msg answer (n - (mtdPage device msg n c).dataLen)
      (c.next (mtdPage device msg n c)) result) :
    Block device msg answer n c
      (result.1, mtdPage device msg n c :: result.2.1, result.2.2) where
  placed := ⟨rfl, rfl, rfl, block.placed⟩
  inPage := by
    intro page member
    rcases List.mem_cons.mp member with rfl | member
    · exact inPage
    · exact block.inPage page member
  addrs := by
    rw [List.flatMap_cons, addrs_mtdPage, range'_split (dataLen_mtdPage_le device msg n c)]
    exact List.prefix_append_right_inj _ |>.mpr block.addrs
  succeeds := by
    rw [block.succeeds, List.length_cons, Nat.forall_lt_succ_left]
    simp only [Cursor.next, Nat.add_zero, success, true_and, Nat.add_assoc, Nat.add_comm 1]
  whole done := by
    rw [List.flatMap_cons, addrs_mtdPage, range'_split (dataLen_mtdPage_le device msg n c),
      block.whole done]
    rfl
  cursor done := by
    have inside := dataLen_mtdPage_le device msg n c
    rw [block.cursor done, Cursor.next, List.map_cons, List.sum_cons, List.length_cons]
    simp only [Cursor.mk.injEq, MtdPage.used]
    omega
  full aligned pages := by
    intro page member
    have first : (mtdPage device msg n c).dataLen = device.writeSize :=
      dataLen_mtdPage_of_dvd aligned pages more
    rcases List.mem_cons.mp member with rfl | member
    · exact first
    · refine block.full ?_ ?_ page member
      · exact Nat.dvd_add aligned (dvd_of_eq first.symm)
      · exact Nat.dvd_sub pages (dvd_of_eq first.symm)

/-- The rest of a block is in the block, and it is good if the block is. -/
theorem rest_of_block {k : ℕ} (inBlock : n ≤ device.eraseSize - addr % device.eraseSize)
    (more : k < n) :
    mtdDeviceIsBadBlockUnlocked device (addr + k) = mtdDeviceIsBadBlockUnlocked device addr ∧
      n - k ≤ device.eraseSize - (addr + k) % device.eraseSize := by
  refine ⟨isBadBlock_add (Nat.lt_of_lt_of_le more inBlock), ?_⟩
  have offset : (addr + k) % device.eraseSize = addr % device.eraseSize + k := by
    rw [← Nat.mod_add_mod, Nat.mod_eq_of_lt (by omega)]
  omega

theorem block_pageLoop (whole : device.eraseSize ∣ device.capacity)
    (inside : c.addr + n ≤ device.capacity)
    (good : 0 < n → mtdDeviceIsBadBlockUnlocked device c.addr = false)
    (inBlock : n ≤ device.eraseSize - c.addr % device.eraseSize) :
    Block device msg answer n c (pageLoop device msg answer n c) := by
  fun_induction pageLoop device msg answer n c with
  | case1 c => exact Block.nil
  | case2 n c more page failed =>
    have positive := Nat.pos_of_ne_zero more
    exact Block.failing more (inPage_mtdPage whole (by omega) (good positive) more) failed
  | case3 n c more page success rest ih =>
    have le : page.dataLen ≤ n := dataLen_mtdPage_le device msg n c
    have positive := Nat.pos_of_ne_zero more
    have next : (c.next page).addr = c.addr + page.dataLen := rfl
    refine Block.cons more (inPage_mtdPage whole (by omega) (good positive) more)
      (not_not.mp success) (ih ?_ ?_ ?_)
    · omega
    · intro left
      exact (rest_of_block inBlock (Nat.lt_of_sub_pos left)).1.trans (good positive)
    · rcases Nat.eq_or_lt_of_le le with done | left
      · rw [← done, Nat.sub_self]
        exact Nat.zero_le _
      · exact (rest_of_block inBlock left).2

/-! ### The blocks -/

/-- `Follows` from a cursor on. -/
structure FollowsFrom (device : MtdDevice) (msg : MtdMsg) (answer : ℕ → Int32) (c : Cursor)
    (result : Int32 × List MtdPage) : Prop where
  placed : Placed device msg c.buf result.2
  inPage : ∀ page ∈ result.2, InPage device msg page
  addrs : result.2.flatMap MtdPage.addrs <+: available device msg.skipBad c.addr
  succeeds : result.1 = 0 ↔
    c.dataLenLeft ≤ (available device msg.skipBad c.addr).length ∧
      ∀ i < result.2.length, answer (c.transfers + i) = 0
  whole : result.1 = 0 → (result.2.flatMap MtdPage.addrs).length = c.dataLenLeft
  exhausts : (∀ i < result.2.length, answer (c.transfers + i) = 0) →
    (available device msg.skipBad c.addr).length < c.dataLenLeft →
    result.1 = hdfErrIo ∧ result.2.flatMap MtdPage.addrs = available device msg.skipBad c.addr
  full : device.writeSize ∣ c.addr → device.writeSize ∣ c.dataLenLeft →
    ∀ page ∈ result.2, page.dataLen = device.writeSize

/-- Nothing is left to be transferred. -/
theorem FollowsFrom.done (none_left : c.dataLenLeft = 0) :
    FollowsFrom device msg answer c (0, []) where
  placed := placed_nil
  inPage _ member := absurd member List.not_mem_nil
  addrs := List.nil_prefix
  succeeds := by simp [none_left]
  whole _ := none_left.symm
  exhausts _ beyond := absurd beyond (by omega)
  full _ _ _ member := absurd member List.not_mem_nil

/-- Nothing is available any more. -/
theorem FollowsFrom.exhausted (left : 0 < c.dataLenLeft)
    (nothing : available device msg.skipBad c.addr = []) :
    FollowsFrom device msg answer c (hdfErrIo, []) where
  placed := placed_nil
  inPage _ member := absurd member List.not_mem_nil
  addrs := List.nil_prefix
  succeeds := by
    rw [nothing]
    exact ⟨fun success => absurd success (by decide),
      fun fits => absurd fits.1 (Nat.not_le_of_lt left)⟩
  whole success := absurd success (by decide)
  exhausts _ _ := ⟨rfl, nothing.symm⟩
  full _ _ _ member := absurd member List.not_mem_nil

/-- A bad block is skipped. -/
theorem FollowsFrom.skip {result : Int32 × List MtdPage} (next : ℕ)
    (same : available device msg.skipBad c.addr = available device msg.skipBad next)
    (aligned : device.writeSize ∣ next)
    (rest : FollowsFrom device msg answer { c with addr := next } result) :
    FollowsFrom device msg answer c result where
  placed := rest.placed
  inPage := rest.inPage
  addrs := same ▸ rest.addrs
  succeeds := same ▸ rest.succeeds
  whole := rest.whole
  exhausts := same ▸ rest.exhausts
  full _ := rest.full aligned

/-- A page transfer of a block fails. -/
theorem FollowsFrom.failing {result : Int32 × List MtdPage × Cursor}
    (block : Block device msg answer n c result) (failed : result.1 ≠ 0)
    (split : available device msg.skipBad c.addr =
      List.range' c.addr n ++ available device msg.skipBad (c.addr + n))
    (parts : device.writeSize ∣ c.addr → device.writeSize ∣ c.dataLenLeft → device.writeSize ∣ n) :
    FollowsFrom device msg answer c (result.1, result.2.1) where
  placed := block.placed
  inPage := block.inPage
  addrs := split ▸ block.addrs.trans (List.prefix_append ..)
  succeeds := ⟨fun success => absurd success failed,
    fun both => absurd (block.succeeds.mpr both.2) failed⟩
  whole success := absurd success failed
  exhausts all _ := absurd (block.succeeds.mpr all) failed
  full aligned pages := block.full aligned (parts aligned pages)

theorem forall_lt_add {p : ℕ → Prop} {m k : ℕ} :
    (∀ i < m + k, p i) ↔ (∀ i < m, p i) ∧ ∀ i < k, p (m + i) := by
  constructor
  · exact fun all => ⟨fun i below => all i (by omega), fun i below => all (m + i) (by omega)⟩
  · rintro ⟨first, second⟩ i below
    rcases Nat.lt_or_ge i m with inside | beyond
    · exact first i inside
    · rw [← Nat.add_sub_cancel' beyond]
      exact second (i - m) (by omega)

/-- The page transfers of a block succeed, and others follow. -/
theorem FollowsFrom.append {result : Int32 × List MtdPage × Cursor} {rest : Int32 × List MtdPage}
    (block : Block device msg answer n c result) (success : result.1 = 0)
    (le : n ≤ c.dataLenLeft)
    (split : available device msg.skipBad c.addr =
      List.range' c.addr n ++ available device msg.skipBad (c.addr + n))
    (parts : device.writeSize ∣ c.addr → device.writeSize ∣ c.dataLenLeft → device.writeSize ∣ n)
    (follows : FollowsFrom device msg answer result.2.2 rest) :
    FollowsFrom device msg answer c (rest.1, result.2.1 ++ rest.2) := by
  rw [block.cursor success] at follows
  have length : (available device msg.skipBad c.addr).length =
      n + (available device msg.skipBad (c.addr + n)).length := by
    rw [split, List.length_append, List.length_range']
  have answers : (∀ i < (result.2.1 ++ rest.2).length, answer (c.transfers + i) = 0) ↔
      ∀ i < rest.2.length, answer (c.transfers + result.2.1.length + i) = 0 := by
    rw [List.length_append, forall_lt_add, ← block.succeeds, eq_true success, true_and]
    simp only [Nat.add_assoc]
  refine ⟨block.placed.append follows.placed, ?_, ?_, ?_, ?_, ?_, ?_⟩
  · intro page member
    exact (List.mem_append.mp member).elim (block.inPage page) (follows.inPage page)
  · rw [List.flatMap_append, block.whole success, split]
    exact (List.prefix_append_right_inj _).mpr follows.addrs
  · have fits : c.dataLenLeft - n ≤ (available device msg.skipBad (c.addr + n)).length ↔
        c.dataLenLeft ≤ (available device msg.skipBad c.addr).length := by omega
    rw [answers, follows.succeeds, ← fits]
  · intro done
    rw [List.flatMap_append, List.length_append, block.whole success, follows.whole done,
      List.length_range']
    exact Nat.add_sub_cancel' le
  · intro all beyond
    have still : (available device msg.skipBad (c.addr + n)).length < c.dataLenLeft - n := by
      omega
    have exhausted := follows.exhausts (answers.mp all) still
    refine ⟨exhausted.1, ?_⟩
    rw [List.flatMap_append, block.whole success, exhausted.2, split]
  · intro aligned pages page member
    have inBlock := parts aligned pages
    exact (List.mem_append.mp member).elim (block.full aligned inBlock page)
      (follows.full (Nat.dvd_add aligned inBlock) (Nat.dvd_sub pages inBlock) page)

theorem blockSize_le_left : blockSize device c ≤ c.dataLenLeft := by
  rw [blockSize_eq]
  exact Nat.min_le_left ..

theorem blockSize_le_block :
    blockSize device c ≤ device.eraseSize - c.addr % device.eraseSize := by
  rw [blockSize_eq]
  exact Nat.min_le_right ..

/-- The part of a block that is used consists of pages if the message does. -/
theorem writeSize_dvd_blockSize (aligned : device.writeSize ∣ c.addr)
    (pages : device.writeSize ∣ c.dataLenLeft) : device.writeSize ∣ blockSize device c := by
  have block : device.writeSize ∣ device.eraseSize - c.addr % device.eraseSize :=
    Nat.dvd_sub device.writeSize_dvd ((Nat.dvd_mod_iff device.writeSize_dvd).mpr aligned)
  rw [blockSize_eq]
  exact min_rec' (device.writeSize ∣ ·) pages block

theorem follows_blockLoop (whole : device.eraseSize ∣ device.capacity) :
    FollowsFrom device msg answer c (blockLoop device msg answer c) := by
  have block_inside {c : Cursor} (inside : c.addr < device.capacity) :
      c.addr + blockSize device c ≤ device.capacity :=
    (Nat.add_le_add_left blockSize_le_block _).trans (block_le whole inside)
  fun_induction blockLoop device msg answer c with
  | case1 c inside bad stop =>
    refine FollowsFrom.exhausted inside.1 ?_
    rw [Bool.eq_false_of_not_eq_true stop]
    exact available_of_bad bad
  | case2 c inside bad skip ih =>
    have below := Nat.lt_trans inside.2 device.capacity_lt
    have le := Nat.mod_le c.addr device.eraseSize
    have low := Nat.mod_lt c.addr device.eraseSize_pos
    have next : alignDown device.eraseSize c.addr + device.eraseSize =
        c.addr + (device.eraseSize - c.addr % device.eraseSize) := by
      rw [alignDown_eq device below]
      omega
    refine FollowsFrom.skip _ ?_ ?_ ih
    · rw [not_not.mp skip, next]
      exact available_of_skip bad le_rfl (block_le whole inside.2)
    · rw [alignDown_eq device below]
      exact Nat.dvd_add (device.writeSize_dvd.trans (Nat.dvd_sub_mod c.addr)) device.writeSize_dvd
  | case3 c inside good block failed =>
    have good := Bool.eq_false_of_not_eq_true good
    exact FollowsFrom.failing
      (block_pageLoop whole (block_inside inside.2) (fun _ => good) blockSize_le_block) failed
      (available_of_good good blockSize_le_block (block_inside inside.2)) writeSize_dvd_blockSize
  | case4 c inside good block success rest ih =>
    have good := Bool.eq_false_of_not_eq_true good
    exact FollowsFrom.append
      (block_pageLoop whole (block_inside inside.2) (fun _ => good) blockSize_le_block)
      (not_not.mp success) blockSize_le_left
      (available_of_good good blockSize_le_block (block_inside inside.2))
      writeSize_dvd_blockSize ih
  | case5 c outside left =>
    refine FollowsFrom.exhausted left ?_
    exact available_of_le (Nat.le_of_not_lt fun below => outside ⟨left, below⟩)
  | case6 c outside left => exact FollowsFrom.done (Nat.eq_zero_of_not_pos left)

end

/-! ### Messages that are accepted -/

section

variable {device : MtdDevice} {msg : MtdMsg} {buf : ℕ} {pages : List MtdPage}

theorem Placed.oobLen (placed : Placed device msg buf pages) :
    ∀ page ∈ pages, page.oobLen = oobLenOf device msg := by
  induction pages generalizing buf with
  | nil => exact fun _ member => absurd member List.not_mem_nil
  | cons first pages ih =>
    rw [placed_cons] at placed
    intro page member
    rcases List.mem_cons.mp member with rfl | member
    · exact placed.2.1
    · exact ih placed.2.2.2 page member

theorem length_flatMap_addrs (pages : List MtdPage) :
    (pages.flatMap MtdPage.addrs).length = (pages.map MtdPage.dataLen).sum := by
  rw [List.length_flatMap]
  simp only [MtdPage.addrs, List.length_range']

/-- An accepted message with OOB data consists of pages. -/
theorem aligned_of_accepted (transfers : msg.type ≠ .erase) (withOob : msg.withOob = true)
    (accepted : mtdDeviceCheckMsg device msg = 0) :
    device.writeSize ∣ msg.addr ∧ device.writeSize + device.oobSize ∣ msg.len := by
  have refused : hdfErrInvalidParam ≠ 0 := by decide
  rw [mtdDeviceCheckMsg, if_neg transfers] at accepted
  split at accepted
  · exact absurd accepted refused
  · split at accepted
    · rw [if_pos (Or.inr withOob)] at accepted
      exact absurd accepted refused
    · rename_i aligned
      rw [not_or, not_not, not_not, oobLenOf, if_pos withOob] at aligned
      exact ⟨Nat.dvd_of_mod_eq_zero aligned.1, Nat.dvd_of_mod_eq_zero aligned.2⟩

/-- The buffer that is used for all data of an accepted message is the whole buffer. -/
theorem used_of_dataLen (transfers : msg.type ≠ .erase)
    (accepted : mtdDeviceCheckMsg device msg = 0) (placed : Placed device msg 0 pages)
    (full : device.writeSize ∣ msg.addr → device.writeSize ∣ dataLen device msg →
      ∀ page ∈ pages, page.dataLen = device.writeSize)
    (done : (pages.map MtdPage.dataLen).sum = dataLen device msg) :
    (pages.map MtdPage.used).sum = msg.len := by
  cases withOob : msg.withOob with
  | false =>
    have used : pages.map MtdPage.used = pages.map MtdPage.dataLen := by
      refine List.map_congr_left fun page member => ?_
      rw [MtdPage.used, placed.oobLen page member, oobLenOf, withOob]
      rfl
    rw [used, done, dataLen, withOob]
    rfl
  | true =>
    obtain ⟨aligned, count, len⟩ := aligned_of_accepted transfers withOob accepted
    have total : dataLen device msg = count * device.writeSize := by
      have positive : 0 < device.writeSize + device.oobSize :=
        Nat.add_pos_left device.writeSize_pos _
      rw [dataLen, if_pos withOob, len, Nat.mul_div_cancel_left count positive]
    have each := full aligned (total ▸ Nat.dvd_mul_left ..)
    have data : pages.map MtdPage.dataLen = List.replicate pages.length device.writeSize :=
      List.map_eq_replicate_iff.mpr each
    have used : pages.map MtdPage.used =
        List.replicate pages.length (device.writeSize + device.oobSize) := by
      refine List.map_eq_replicate_iff.mpr fun page member => ?_
      rw [MtdPage.used, each page member, placed.oobLen page member, oobLenOf, if_pos withOob]
    rw [data, List.sum_replicate_nat, total] at done
    have same : pages.length = count := Nat.eq_of_mul_eq_mul_right device.writeSize_pos done
    rw [used, List.sum_replicate_nat, same, len, Nat.mul_comm]

end

/-- On a flash of whole blocks, the page transfers of an accepted message follow the good blocks
and the buffer. -/
theorem follows_of_whole (device : MtdDevice) (msg : MtdMsg) (answer : ℕ → Int32)
    (whole : device.eraseSize ∣ device.capacity) (transfers : msg.type ≠ .erase)
    (accepted : mtdDeviceCheckMsg device msg = 0) :
    Follows device msg answer (mtdDeviceWriteReadByPageUnlock device msg answer) := by
  have follows : FollowsFrom device msg answer ⟨msg.addr, 0, dataLen device msg, 0⟩
      (mtdDeviceWriteReadByPageUnlock device msg answer) := follows_blockLoop whole
  refine ⟨follows.placed, follows.inPage, follows.addrs, ?_, ?_, ?_⟩
  · simpa only [Nat.zero_add] using follows.succeeds
  · intro success
    have done := follows.whole success
    refine ⟨done, used_of_dataLen transfers accepted follows.placed follows.full ?_⟩
    rw [← length_flatMap_addrs, done]
  · simpa only [Nat.zero_add] using follows.exhausts

/-- A flash of two blocks, the first of which is bad. -/
def twoBlocks : MtdDevice where
  capacity := 8
  eraseSize := 4
  writeSize := 2
  oobSize := 1
  badBlock block := block == 0
  capacity_lt := by decide
  pow := ⟨1, 1, by decide⟩
  page_lt := by decide

/-- A message that reads a page with its OOB bytes. -/
def onePage : MtdMsg := ⟨.read, 2, 3, true, true, by decide, by decide⟩

theorem follows_twoBlocks : twoBlocks.eraseSize ∣ twoBlocks.capacity ∧ onePage.type ≠ .erase ∧
    mtdDeviceCheckMsg twoBlocks onePage = 0 ∧
    Follows twoBlocks onePage (fun _ => 0)
      (mtdDeviceWriteReadByPageUnlock twoBlocks onePage fun _ => 0) :=
  ⟨by decide, by decide, by decide,
    follows_of_whole twoBlocks onePage (fun _ => 0) (by decide) (by decide) (by decide)⟩

/-- A flash with a bad block and half a block. -/
def halfBlock : MtdDevice where
  capacity := 3
  eraseSize := 2
  writeSize := 2
  oobSize := 0
  badBlock block := block == 0
  capacity_lt := by decide
  pow := ⟨1, 0, by decide⟩
  page_lt := by decide

/-- A message that writes the first page. -/
def firstPage : MtdMsg := ⟨.write, 0, 2, false, true, by decide, by decide⟩

theorem transfers_halfBlock : mtdDeviceWriteReadByPageUnlock halfBlock firstPage (fun _ => 0) =
    (0, [⟨.write, 2, 0, 2, Option.none, 0⟩]) := by
  have page : pageLoop halfBlock firstPage (fun _ => 0) 2 ⟨2, 0, 2, 0⟩ =
      (0, [⟨.write, 2, 0, 2, Option.none, 0⟩], ⟨4, 2, 0, 1⟩) := by
    rw [pageLoop, dif_neg (by decide)]
    dsimp only
    rw [if_neg (by decide), pageLoop, dif_pos (by decide)]
    rfl
  have skip : alignDown halfBlock.eraseSize 0 + halfBlock.eraseSize = 2 := by decide
  rw [mtdDeviceWriteReadByPageUnlock, blockLoop, dif_pos (by decide), if_pos (by decide),
    if_neg (by decide)]
  -- the second block is good, and it is used as a whole
  change blockLoop halfBlock firstPage _ ⟨2, 0, 2, 0⟩ = _
  have used : blockSize halfBlock ⟨2, 0, 2, 0⟩ = 2 := by decide
  rw [blockLoop, dif_pos (by decide), if_neg (by decide)]
  simp only [used, page]
  rw [dif_neg (by decide), blockLoop, dif_neg (by decide), if_neg (by decide)]
  rfl

/-- The second page is partly beyond the end of the flash. -/
theorem beyond_capacity : firstPage.type ≠ .erase ∧ mtdDeviceCheckMsg halfBlock firstPage = 0 ∧
    ¬Follows halfBlock firstPage (fun _ => 0)
      (mtdDeviceWriteReadByPageUnlock halfBlock firstPage fun _ => 0) := by
  refine ⟨by decide, by decide, fun follows => ?_⟩
  have addrs := follows.addrs
  rw [transfers_halfBlock] at addrs
  exact absurd addrs.length_le (by decide)

end Hdf.Storage.Mtd
