import Hdf.Lib.Pieces
import Mathlib.Data.Nat.Bitwise
import Mathlib.Tactic.Ring

/-!
# Transfers of SDIO functions

A request for several bytes is cut into commands CMD53. If the card knows block transfers,
blocks of the current size go first, as many at a time as the controller takes; what is left
goes in bytes. A request for a scatter list is one command.

Sizes and addresses have 32 bits. A buffer is given by the offset in that of the request. All
commands that are sent succeed.

## Main definitions

* `sdioRwExtended`: the command with its argument and its data
* `sdioReadWriteBlock`: what a request returns and the commands it sends
* `MovesEachByte`: the commands move each byte of the request once
* `Fitting`: what the code needs for it

## Main results

* `argument_eq`: the fields of an argument do not overlap
* `lastStart_blockPieces`: where the last command of a request begins
* `movesEachByte_iff`: each byte is moved once in exactly these requests
-/

namespace Hdf.Storage.Sdio

/-- `BYTES_PER_BLOCK`. -/
def bytesPerBlock : ℕ := 512

/-- `SDIO_BLOCK_TRANSFER_MAX_BLKNUM`. -/
def sdioBlockTransferMaxBlknum : ℕ := 511

/-- `HDF_SUCCESS`. -/
def hdfSuccess : ℤ := 0

/-- `HDF_ERR_INVALID_PARAM`. -/
def hdfErrInvalidParam : ℤ := -3

/-- A controller with a function of its card: the limits that the code accepts. -/
structure SdioDevice where
  cntlrMaxBlkSize : ℕ
  maxBlkNum : ℕ
  maxReqSize : ℕ
  multiBlock : Bool
  funcNum : ℕ
  funcMaxBlkSize : ℕ
  curBlkSize : ℕ
  cntlrMaxBlkSize_pos : 0 < cntlrMaxBlkSize
  maxBlkNum_pos : 0 < maxBlkNum
  funcNum_lt : funcNum < 8
  funcMaxBlkSize_pos : 0 < funcMaxBlkSize
  curBlkSize_pos : 0 < curBlkSize

/-- `struct SdioRwBlockInfo`: a request at an address of 17 bits. -/
structure SdioRwBlockInfo where
  addr : ℕ
  size : ℕ
  scatterLen : ℕ
  writeFlag : Bool
  incrAddrFlag : Bool
  scatterFlag : Bool
  addr_lt : addr < 0x20000
  size_pos : 0 < size
  size_lt : size < 2 ^ 32

/-- `struct SdioCmdParam`. -/
structure SdioCmdParam where
  regAddr : ℕ
  funcNum : ℕ
  writeflag : Bool
  incrAddrFlag : Bool
  scatterFlag : Bool
  scatterLen : ℕ

/-- A command with its data record. -/
structure Command where
  argument : ℕ
  blockSize : ℕ
  blockNum : ℕ
  writes : Bool
  /-- The offset of the buffer, which is a scatter list of a length if there is one. -/
  buffer : ℕ
  scatterLen : Option ℕ

def Command.bytes (cmd : Command) : ℕ := cmd.blockNum * cmd.blockSize

/-- The argument of `SDIO_RW_EXTENDED`. -/
def argument (param : SdioCmdParam) (blockNum blockSize : ℕ) : ℕ :=
  (if param.writeflag then 0x80000000 else 0) ||| (param.funcNum <<< 28) |||
    (if param.incrAddrFlag then 0x04000000 else 0) ||| (param.regAddr <<< 9) |||
    (if blockNum = 1 ∧ blockSize ≤ 512 then (if blockSize = 512 then 0 else blockSize)
     else 0x08000000 ||| blockNum)

/-- `SdioRwExtended`: the command that is sent, unless the address is out of range. -/
def sdioRwExtended (param : SdioCmdParam) (buf blockNum blockSize : ℕ) : Option Command :=
  if param.regAddr ≠ param.regAddr &&& 0x1FFFF then none
  else some
    { argument := argument param blockNum blockSize
      blockSize := blockSize
      blockNum := blockNum
      writes := param.writeflag
      buffer := buf
      scatterLen := if param.scatterFlag then some param.scatterLen else none }

/-- The address behind some bytes. -/
def advance (param : SdioCmdParam) (curAddr curSize : ℕ) : ℕ :=
  if param.incrAddrFlag then (curAddr + curSize) % 2 ^ 32 else curAddr

/-- The loop of `SdioReadWriteRemainBytes`. -/
def remainLoop (param : SdioCmdParam) (maxBlkSize : ℕ) (positive : 0 < maxBlkSize)
    (remLen curAddr buffer : ℕ) : ℤ × List Command :=
  if 0 < remLen then
    let curSize := min remLen maxBlkSize
    match sdioRwExtended { param with regAddr := curAddr } buffer 1 curSize with
    | none => (hdfErrInvalidParam, [])
    | some cmd =>
      let rest := remainLoop param maxBlkSize positive (remLen - curSize)
        (advance param curAddr curSize) (buffer + curSize)
      (rest.1, cmd :: rest.2)
  else (hdfSuccess, [])
termination_by remLen

/-- The size of a block or of a piece of bytes that all limits allow. -/
def SdioDevice.maxBlkSize (dev : SdioDevice) : ℕ :=
  min (min dev.cntlrMaxBlkSize dev.funcMaxBlkSize) bytesPerBlock

/-- `SdioReadWriteRemainBytes`. -/
def sdioReadWriteRemainBytes (dev : SdioDevice) (param : SdioCmdParam)
    (size addr buffer : ℕ) : ℤ × List Command :=
  if positive : 0 < dev.maxBlkSize then remainLoop param dev.maxBlkSize positive size addr buffer
  else (hdfErrInvalidParam, [])

/-- The loop of `SdioReadWriteBlock`. When no block is sent, nothing changes any more and the
loop does not end. -/
def blockLoop (dev : SdioDevice) (param : SdioCmdParam) (maxBlkNum : ℕ)
    (remLen curAddr buffer : ℕ) : Option (ℤ × List Command) :=
  if dev.curBlkSize < remLen then
    let curblkNum := min (remLen / dev.curBlkSize) maxBlkNum
    let curSize := curblkNum * dev.curBlkSize
    match sdioRwExtended { param with regAddr := curAddr } buffer curblkNum dev.curBlkSize with
    | none => some (hdfErrInvalidParam, [])
    | some cmd =>
      if _moved : 0 < curSize then
        (blockLoop dev param maxBlkNum (remLen - curSize) (advance param curAddr curSize)
          (buffer + curSize)).map fun rest => (rest.1, cmd :: rest.2)
      else none
  else some (sdioReadWriteRemainBytes dev param remLen curAddr buffer)
termination_by remLen
decreasing_by
  exact Nat.sub_lt (by omega) _moved

/-- `SdioFillRwExtendedCmdParam`. -/
def sdioFillRwExtendedCmdParam (dev : SdioDevice) (info : SdioRwBlockInfo) : SdioCmdParam where
  regAddr := if info.scatterFlag then info.addr else 0
  funcNum := dev.funcNum
  writeflag := info.writeFlag
  incrAddrFlag := info.incrAddrFlag
  scatterFlag := info.scatterFlag
  scatterLen := if info.scatterFlag then info.scatterLen else 0

/-- The blocks of one command at most. -/
def SdioDevice.blocksPerCommand (dev : SdioDevice) : ℕ :=
  min (min (dev.maxReqSize / dev.curBlkSize) dev.maxBlkNum) sdioBlockTransferMaxBlknum

/-- `SdioReadWriteBlock`: what is returned and the commands that have been sent. There is no
result when the loop does not end. -/
def sdioReadWriteBlock (dev : SdioDevice) (info : SdioRwBlockInfo) : Option (ℤ × List Command) :=
  if dev.maxBlkSize = 0 then some (hdfErrInvalidParam, [])
  else if dev.curBlkSize = 0 ∨ dev.maxBlkNum = 0 then some (hdfErrInvalidParam, [])
  else
    let param := sdioFillRwExtendedCmdParam dev info
    if info.scatterFlag then
      match sdioRwExtended param 0 (max 1 (info.size / dev.maxBlkSize))
        (min info.size dev.maxBlkSize) with
      | none => some (hdfErrInvalidParam, [])
      | some cmd => some (hdfSuccess, [cmd])
    else if dev.multiBlock ∧ dev.maxBlkSize < info.size then
      blockLoop dev param dev.blocksPerCommand info.size info.addr 0
    else some (sdioReadWriteRemainBytes dev param info.size info.addr 0)

/-! ### The fields of a command -/

/-- Bits [8:0] of an argument. -/
def countField (argument : ℕ) : ℕ := argument % 512

/-- Bits [25:9]. -/
def addressField (argument : ℕ) : ℕ := argument / 512 % 0x20000

/-- Bit [26]. -/
def opCode (argument : ℕ) : Bool := argument / 0x04000000 % 2 = 1

/-- Bit [27]. -/
def blockMode (argument : ℕ) : Bool := argument / 0x08000000 % 2 = 1

/-- Bits [30:28]. -/
def functionField (argument : ℕ) : ℕ := argument / 0x10000000 % 8

/-- Bit [31]. -/
def writeBit (argument : ℕ) : Bool := argument / 0x80000000 % 2 = 1

/-- The number of bytes that a count stands for: so many blocks of the current size, or so many
bytes, with 512 for none. -/
def denoted (curBlkSize argument : ℕ) : ℕ :=
  if blockMode argument then countField argument * curBlkSize
  else if countField argument = 0 then 512 else countField argument

theorem or_eq_add {a b i : ℕ} (high : 2 ^ i ∣ a) (low : b < 2 ^ i) : a ||| b = a + b := by
  obtain ⟨c, rfl⟩ := high
  exact (Nat.two_pow_add_eq_or_of_lt low c).symm

/-- Fields next to each other, from the highest to the lowest. -/
theorem fields_eq (w b o : Bool) {f a l : ℕ} (func : f < 8) (addr : a < 0x20000) (low : l < 512) :
    (if w then 0x80000000 else 0) ||| f <<< 28 ||| (if b then 0x08000000 else 0) |||
        (if o then 0x04000000 else 0) ||| a <<< 9 ||| l =
      w.toNat * 0x80000000 + f * 0x10000000 + b.toNat * 0x08000000 + o.toNat * 0x04000000 +
        a * 512 + l := by
  have bit : ∀ (c : Bool) (n : ℕ), (if c then n else 0) = c.toNat * n := by
    intro c n
    cases c <;> simp
  have wBit := w.toNat_le
  have bBit := b.toNat_le
  have oBit := o.toNat_le
  rw [bit, bit, bit, Nat.shiftLeft_eq, Nat.shiftLeft_eq]
  rw [@or_eq_add _ (f * 2 ^ 28) 31 (by omega) (by omega),
    @or_eq_add _ (b.toNat * 0x08000000) 28 (by omega) (by omega),
    @or_eq_add _ (o.toNat * 0x04000000) 27 (by omega) (by omega),
    @or_eq_add _ (a * 2 ^ 9) 26 (by omega) (by omega), @or_eq_add _ l 9 (by omega) (by omega)]

/-- The fields of an argument do not overlap. -/
theorem argument_eq {param : SdioCmdParam} {blockNum blockSize : ℕ} (func : param.funcNum < 8)
    (addr : param.regAddr < 0x20000) (few : blockNum < 512) :
    argument param blockNum blockSize =
      param.writeflag.toNat * 0x80000000 + param.funcNum * 0x10000000 +
        (decide (¬ (blockNum = 1 ∧ blockSize ≤ 512))).toNat * 0x08000000 +
        param.incrAddrFlag.toNat * 0x04000000 + param.regAddr * 512 +
        (if blockNum = 1 ∧ blockSize ≤ 512 then (if blockSize = 512 then 0 else blockSize)
          else blockNum) := by
  have low : (if blockNum = 1 ∧ blockSize ≤ 512 then (if blockSize = 512 then 0 else blockSize)
      else blockNum) < 512 := by
    split_ifs <;> omega
  rw [← fields_eq param.writeflag _ param.incrAddrFlag func addr low, argument]
  by_cases single : blockNum = 1 ∧ blockSize ≤ 512
  · rw [if_pos single, if_pos single, decide_eq_false (not_not.mpr single),
      if_neg Bool.false_ne_true, Nat.or_zero]
  · rw [if_neg single, if_neg single, decide_eq_true single, if_pos rfl]
    simp only [Nat.or_assoc, Nat.or_left_comm _ 0x08000000]

/-! ### Pieces that are sent one after the other -/

def commandFor (param : SdioCmdParam) (curAddr buffer blockNum blockSize : ℕ) : Command where
  argument := argument { param with regAddr := curAddr } blockNum blockSize
  blockSize := blockSize
  blockNum := blockNum
  writes := param.writeflag
  buffer := buffer
  scatterLen := if param.scatterFlag then some param.scatterLen else none

theorem sdioRwExtended_eq (param : SdioCmdParam) (curAddr buffer blockNum blockSize : ℕ) :
    sdioRwExtended { param with regAddr := curAddr } buffer blockNum blockSize =
      if curAddr < 0x20000 then some (commandFor param curAddr buffer blockNum blockSize)
      else none := by
  have masked : curAddr &&& 0x1FFFF = curAddr % 0x20000 := Nat.and_two_pow_sub_one_eq_mod curAddr 17
  rw [sdioRwExtended]
  dsimp only
  rw [masked]
  by_cases inside : curAddr < 0x20000
  · rw [Nat.mod_eq_of_lt inside, if_neg (not_not.mpr rfl), if_pos inside]
    rfl
  · rw [if_pos (by omega), if_neg inside]

/-- The commands for pieces of some blocks of a size each, until an address is out of range. -/
def issue (param : SdioCmdParam) : List (ℕ × ℕ) → ℕ → ℕ → ℤ × List Command
  | [], _, _ => (hdfSuccess, [])
  | (blockNum, blockSize) :: rest, curAddr, buffer =>
    if curAddr < 0x20000 then
      let later := issue param rest (advance param curAddr (blockNum * blockSize))
        (buffer + blockNum * blockSize)
      (later.1, commandFor param curAddr buffer blockNum blockSize :: later.2)
    else (hdfErrInvalidParam, [])

def pieceBytes (piece : ℕ × ℕ) : ℕ := piece.1 * piece.2

/-- Where the last piece begins. -/
def lastStart (pieces : List (ℕ × ℕ)) : ℕ := (pieces.dropLast.map pieceBytes).sum

/-- The pieces of a request in bytes. -/
def bytePieces (maxBlkSize : ℕ) (positive : 0 < maxBlkSize) (remLen : ℕ) : List (ℕ × ℕ) :=
  if 0 < remLen then
    (1, min remLen maxBlkSize) :: bytePieces maxBlkSize positive (remLen - min remLen maxBlkSize)
  else []
termination_by remLen

/-- The pieces of a request in blocks and, for what is left, in bytes. -/
def blockPieces (curBlkSize maxBlkNum maxBlkSize : ℕ) (positive : 0 < maxBlkSize)
    (blockPos : 0 < curBlkSize) (numPos : 0 < maxBlkNum) (remLen : ℕ) : List (ℕ × ℕ) :=
  if _more : curBlkSize < remLen then
    (min (remLen / curBlkSize) maxBlkNum, curBlkSize) ::
      blockPieces curBlkSize maxBlkNum maxBlkSize positive blockPos numPos
        (remLen - min (remLen / curBlkSize) maxBlkNum * curBlkSize)
  else bytePieces maxBlkSize positive remLen
termination_by remLen
decreasing_by
  have some : 0 < remLen / curBlkSize := Nat.div_pos _more.le blockPos
  exact Nat.sub_lt (by omega) (Nat.mul_pos (Nat.lt_min.mpr ⟨some, numPos⟩) blockPos)

theorem remainLoop_eq (param : SdioCmdParam) {maxBlkSize : ℕ} (positive : 0 < maxBlkSize)
    (remLen curAddr buffer : ℕ) :
    remainLoop param maxBlkSize positive remLen curAddr buffer =
      issue param (bytePieces maxBlkSize positive remLen) curAddr buffer := by
  induction remLen using Nat.strong_induction_on generalizing curAddr buffer with
  | _ remLen ih =>
    rw [remainLoop, bytePieces]
    split
    · rename_i some
      have next := ih (remLen - min remLen maxBlkSize) (by omega)
      rw [issue]
      dsimp only
      rw [sdioRwExtended_eq, Nat.one_mul]
      by_cases inside : curAddr < 0x20000
      · rw [if_pos inside, if_pos inside]
        dsimp only
        rw [next]
      · rw [if_neg inside, if_neg inside]
    · rfl

theorem blockLoop_eq (dev : SdioDevice) (param : SdioCmdParam) {maxBlkNum : ℕ}
    (positive : 0 < dev.maxBlkSize) (numPos : 0 < maxBlkNum) (remLen curAddr buffer : ℕ) :
    blockLoop dev param maxBlkNum remLen curAddr buffer =
      some (issue param (blockPieces dev.curBlkSize maxBlkNum dev.maxBlkSize positive
        dev.curBlkSize_pos numPos remLen) curAddr buffer) := by
  induction remLen using Nat.strong_induction_on generalizing curAddr buffer with
  | _ remLen ih =>
    rw [blockLoop, blockPieces]
    split
    · rename_i more
      have some : 0 < remLen / dev.curBlkSize := Nat.div_pos more.le dev.curBlkSize_pos
      have moved : 0 < min (remLen / dev.curBlkSize) maxBlkNum * dev.curBlkSize :=
        Nat.mul_pos (Nat.lt_min.mpr ⟨some, numPos⟩) dev.curBlkSize_pos
      have next := ih (remLen - min (remLen / dev.curBlkSize) maxBlkNum * dev.curBlkSize)
        (Nat.sub_lt (by omega) moved)
      rw [issue]
      dsimp only
      rw [sdioRwExtended_eq]
      by_cases inside : curAddr < 0x20000
      · rw [if_pos inside, if_pos inside]
        dsimp only
        rw [dif_pos moved, next]
        rfl
      · rw [if_neg inside, if_neg inside]
    · rw [sdioReadWriteRemainBytes, dif_pos positive, remainLoop_eq]

/-! ### The pieces of a request -/

theorem lastStart_cons {piece : ℕ × ℕ} {rest : List (ℕ × ℕ)} (more : rest ≠ []) :
    lastStart (piece :: rest) = pieceBytes piece + lastStart rest := by
  rw [lastStart, List.dropLast_cons_of_ne_nil more, List.map_cons, List.sum_cons]
  rfl

section

variable {m B M : ℕ} (positive : 0 < m) (blockPos : 0 < B) (numPos : 0 < M)

theorem bytePieces_of_pos {r : ℕ} (some : 0 < r) :
    bytePieces m positive r = (1, min r m) :: bytePieces m positive (r - min r m) := by
  rw [bytePieces, if_pos some]

theorem bytePieces_zero : bytePieces m positive 0 = [] := by
  rw [bytePieces, if_neg (Nat.lt_irrefl 0)]

theorem sum_bytePieces (r : ℕ) : ((bytePieces m positive r).map pieceBytes).sum = r := by
  induction r using Nat.strong_induction_on with
  | _ r ih =>
    rcases Nat.eq_zero_or_pos r with rfl | some
    · rw [bytePieces_zero]
      rfl
    · rw [bytePieces_of_pos positive some, List.map_cons, List.sum_cons, ih _ (by omega)]
      change 1 * min r m + _ = r
      omega

theorem of_mem_bytePieces {r : ℕ} {piece : ℕ × ℕ} (listed : piece ∈ bytePieces m positive r) :
    piece.1 = 1 ∧ 0 < piece.2 ∧ piece.2 ≤ min r m := by
  induction r using Nat.strong_induction_on with
  | _ r ih =>
    rcases Nat.eq_zero_or_pos r with rfl | some
    · rw [bytePieces_zero] at listed
      cases listed
    · rw [bytePieces_of_pos positive some] at listed
      rcases List.mem_cons.mp listed with rfl | later
      · exact ⟨rfl, Nat.lt_min.mpr ⟨some, positive⟩, le_rfl⟩
      · obtain ⟨one, some', most⟩ := ih _ (by omega) later
        exact ⟨one, some', by omega⟩

theorem lastStart_bytePieces {r : ℕ} (some : 0 < r) :
    lastStart (bytePieces m positive r) = (r - 1) / m * m := by
  induction r using Nat.strong_induction_on with
  | _ r ih =>
    rw [bytePieces_of_pos positive some]
    by_cases last : r ≤ m
    · rw [Nat.min_eq_left last, Nat.sub_self, bytePieces_zero, Nat.div_eq_of_lt (by omega),
        Nat.zero_mul]
      rfl
    · have more : 0 < r - m := by omega
      have next : (r - 1) / m * m = 1 * m + (r - m - 1) / m * m := by
        have split : r - 1 = r - m - 1 + m := by omega
        rw [split, Nat.add_div_right _ positive, Nat.succ_mul, Nat.one_mul, Nat.add_comm]
      rw [Nat.min_eq_right (Nat.not_le.mp last).le, lastStart_cons, ih _ (by omega) more, next]
      · rfl
      · rw [bytePieces_of_pos positive more]
        exact List.cons_ne_nil _ _

theorem blockPieces_of_le {n : ℕ} (few : n ≤ B) :
    blockPieces B M m positive blockPos numPos n = bytePieces m positive n := by
  rw [blockPieces, dif_neg (Nat.not_lt.mpr few)]

theorem blockPieces_of_lt {n : ℕ} (more : B < n) :
    blockPieces B M m positive blockPos numPos n =
      (min (n / B) M, B) ::
        blockPieces B M m positive blockPos numPos (n - min (n / B) M * B) := by
  rw [blockPieces, dif_pos more]

include blockPos numPos in
/-- The blocks of one command are some, and not more than there are. -/
theorem blocks_le {n : ℕ} (more : B < n) :
    0 < min (n / B) M * B ∧ min (n / B) M * B ≤ n := by
  have some : 0 < n / B := Nat.div_pos more.le blockPos
  refine ⟨Nat.mul_pos (Nat.lt_min.mpr ⟨some, numPos⟩) blockPos, ?_⟩
  exact (Nat.mul_le_mul_right B (Nat.min_le_left _ _)).trans (Nat.div_mul_le_self n B)

theorem sum_blockPieces (n : ℕ) :
    ((blockPieces B M m positive blockPos numPos n).map pieceBytes).sum = n := by
  induction n using Nat.strong_induction_on with
  | _ n ih =>
    by_cases more : B < n
    · obtain ⟨some, inside⟩ := blocks_le blockPos numPos more
      rw [blockPieces_of_lt positive blockPos numPos more, List.map_cons, List.sum_cons,
        ih _ (by omega)]
      exact Nat.add_sub_cancel' inside
    · rw [blockPieces_of_le positive blockPos numPos (Nat.not_lt.mp more), sum_bytePieces]

theorem of_mem_blockPieces {n : ℕ} {piece : ℕ × ℕ}
    (listed : piece ∈ blockPieces B M m positive blockPos numPos n) :
    piece.2 = B ∧ 0 < piece.1 ∧ piece.1 ≤ M ∨
      piece.1 = 1 ∧ 0 < piece.2 ∧ piece.2 ≤ min B m := by
  induction n using Nat.strong_induction_on with
  | _ n ih =>
    by_cases more : B < n
    · obtain ⟨some, inside⟩ := blocks_le blockPos numPos more
      rw [blockPieces_of_lt positive blockPos numPos more] at listed
      rcases List.mem_cons.mp listed with rfl | later
      · exact .inl ⟨rfl, Nat.pos_of_mul_pos_right some, Nat.min_le_right _ _⟩
      · exact ih _ (by omega) later
    · rw [blockPieces_of_le positive blockPos numPos (Nat.not_lt.mp more)] at listed
      obtain ⟨one, some, most⟩ := of_mem_bytePieces positive listed
      exact .inr ⟨one, some, by omega⟩

/-- Where the last command of a request of `n` bytes begins: behind all blocks, if some bytes
are left, and otherwise with the last blocks. A single last block goes in bytes. -/
def blockLastStart (B M m n : ℕ) : ℕ :=
  if n % B ≠ 0 then n / B * B + (n % B - 1) / m * m
  else if (n / B - 1) / M * M + 1 = n / B then
    (n / B - 1) / M * M * B + (B - 1) / m * m
  else (n / B - 1) / M * M * B

theorem blockLastStart_of_le {n : ℕ} (some : 0 < n) (few : n ≤ B) :
    blockLastStart B M m n = (n - 1) / m * m := by
  rw [blockLastStart]
  rcases Nat.lt_or_eq_of_le few with less | rfl
  · rw [Nat.mod_eq_of_lt less, Nat.div_eq_of_lt less, if_pos (by omega), Nat.zero_mul,
      Nat.zero_add]
  · rw [Nat.mod_self, Nat.div_self some, if_neg (by omega), Nat.sub_self, Nat.zero_div,
      Nat.zero_mul, if_pos rfl, Nat.zero_mul, Nat.zero_add]

include blockPos in
/-- One command with blocks after another. -/
theorem blockLastStart_of_lt {n : ℕ} (left : 0 < n - min (n / B) M * B) (numPos : 0 < M) :
    blockLastStart B M m n =
      min (n / B) M * B + blockLastStart B M m (n - min (n / B) M * B) := by
  have whole := Nat.div_add_mod' n B
  have below := Nat.mod_lt n blockPos
  have most : min (n / B) M ≤ n / B := Nat.min_le_left _ _
  have blocks : n / B * B = min (n / B) M * B + (n / B - min (n / B) M) * B := by
    rw [← Nat.add_mul, Nat.add_sub_cancel' most]
  have rest : n - min (n / B) M * B = B * (n / B - min (n / B) M) + n % B := by
    rw [Nat.mul_comm B]
    omega
  have quotient : (n - min (n / B) M * B) / B = n / B - min (n / B) M := by
    rw [rest, Nat.mul_add_div blockPos, Nat.div_eq_of_lt below, Nat.add_zero]
  have remainder : (n - min (n / B) M * B) % B = n % B := by
    rw [rest, Nat.mul_add_mod, Nat.mod_eq_of_lt below]
  rw [blockLastStart, blockLastStart, quotient, remainder]
  by_cases bytes : n % B ≠ 0
  · rw [if_pos bytes, if_pos bytes, blocks, Nat.add_assoc]
  · have many : M < n / B := by
      by_contra few
      rw [Nat.min_eq_left (Nat.not_lt.mp few)] at left
      omega
    have next : (n / B - 1) / M * M = M + (n / B - M - 1) / M * M := by
      have split : n / B - 1 = n / B - M - 1 + M := by omega
      rw [split, Nat.add_div_right _ numPos, Nat.succ_mul, Nat.add_comm]
    rw [if_neg bytes, if_neg bytes, Nat.min_eq_right many.le, next]
    by_cases single : (n / B - M - 1) / M * M + 1 = n / B - M
    · rw [if_pos single, if_pos (by omega), Nat.add_mul, Nat.add_assoc]
    · rw [if_neg single, if_neg (by omega), Nat.add_mul]

include blockPos in
/-- The closed form is right when no bytes are left behind the blocks of one command. -/
theorem blockLastStart_of_whole {n : ℕ} (more : B < n) (none : n - min (n / B) M * B = 0) :
    blockLastStart B M m n = 0 := by
  have inside := Nat.mul_le_mul_right B (Nat.min_le_left (n / B) M)
  have whole := Nat.div_mul_le_self n B
  have split := Nat.div_add_mod' n B
  have several : 1 < n / B := by
    by_contra few
    have atMost := Nat.mul_le_mul_right B (Nat.not_lt.mp few)
    omega
  have few : n / B ≤ M := by
    by_contra many
    rw [Nat.min_eq_right (Nat.not_le.mp many).le] at none inside
    have less : (M + 1) * B ≤ n / B * B := Nat.mul_le_mul_right B (Nat.not_le.mp many)
    rw [Nat.succ_mul] at less
    omega
  rw [blockLastStart, if_neg (by omega), Nat.div_eq_of_lt (by omega), Nat.zero_mul,
    if_neg (by omega), Nat.zero_mul]

theorem lastStart_blockPieces {n : ℕ} (some : 0 < n) :
    lastStart (blockPieces B M m positive blockPos numPos n) = blockLastStart B M m n := by
  induction n using Nat.strong_induction_on with
  | _ n ih =>
    by_cases more : B < n
    · obtain ⟨moved, inside⟩ := blocks_le blockPos numPos more
      rw [blockPieces_of_lt positive blockPos numPos more]
      rcases Nat.eq_zero_or_pos (n - min (n / B) M * B) with none | left
      · rw [none, blockPieces_of_le positive blockPos numPos (Nat.zero_le _), bytePieces_zero,
          blockLastStart_of_whole blockPos more none]
        rfl
      · rw [lastStart_cons, ih _ (by omega) left, blockLastStart_of_lt blockPos left numPos]
        · rfl
        · intro nothing
          have sum := sum_blockPieces positive blockPos numPos (n - min (n / B) M * B)
          rw [nothing] at sum
          exact left.ne sum
    · rw [blockPieces_of_le positive blockPos numPos (Nat.not_lt.mp more),
        lastStart_bytePieces positive some, blockLastStart_of_le some (Nat.not_lt.mp more)]

end

/-! ### What the commands move -/

/-- The limits of a controller and a function for the data of one command. The count has nine
bits. -/
structure SdioDevice.Allows (dev : SdioDevice) (blockNum blockSize : ℕ) : Prop where
  cntlrSize : blockSize ≤ dev.cntlrMaxBlkSize
  funcSize : blockSize ≤ dev.funcMaxBlkSize
  number : blockNum ≤ dev.maxBlkNum
  counted : blockNum ≤ sdioBlockTransferMaxBlknum
  request : blockNum * blockSize ≤ dev.maxReqSize

/-- The commands move the bytes of a request in order, each once. -/
structure MovesBytes (dev : SdioDevice) (info : SdioRwBlockInfo) (cmds : List Command) :
    Prop where
  tiles : Tiles (2 ^ 32) 0 info.size (cmds.map fun cmd => (cmd.buffer, cmd.bytes))
  address : ∀ cmd ∈ cmds, addressField cmd.argument =
    if info.incrAddrFlag then info.addr + cmd.buffer else info.addr
  denotes : ∀ cmd ∈ cmds, denoted dev.curBlkSize cmd.argument = cmd.bytes
  kind : ∀ cmd ∈ cmds, opCode cmd.argument = info.incrAddrFlag ∧
    functionField cmd.argument = dev.funcNum ∧ writeBit cmd.argument = info.writeFlag ∧
    cmd.writes = info.writeFlag
  limits : ∀ cmd ∈ cmds, dev.Allows cmd.blockNum cmd.blockSize

/-- A request succeeds with commands that move its bytes; for a scatter list it is one command,
or the request is refused. -/
def MovesEachByte (dev : SdioDevice) (info : SdioRwBlockInfo) : Prop :=
  (info.scatterFlag = true ∧ ∃ status, status ≠ hdfSuccess ∧
    sdioReadWriteBlock dev info = some (status, [])) ∨
  ∃ cmds, sdioReadWriteBlock dev info = some (hdfSuccess, cmds) ∧ MovesBytes dev info cmds

/-- The request goes in blocks first. -/
def UsesBlocks (dev : SdioDevice) (info : SdioRwBlockInfo) : Prop :=
  dev.multiBlock = true ∧ dev.maxBlkSize < info.size ∧ dev.curBlkSize < info.size

instance (dev : SdioDevice) (info : SdioRwBlockInfo) : Decidable (UsesBlocks dev info) :=
  inferInstanceAs (Decidable (_ ∧ _ ∧ _))

/-- What the code needs for a scatter list: one piece of bytes, or whole blocks of the largest
size, which has to be the current one. -/
def FittingScatter (dev : SdioDevice) (info : SdioRwBlockInfo) : Prop :=
  info.size ≤ dev.maxReqSize ∧
    (info.size ≤ dev.maxBlkSize ∨ dev.maxBlkSize ∣ info.size ∧
      info.size / dev.maxBlkSize ≤ min dev.maxBlkNum sdioBlockTransferMaxBlknum ∧
      dev.curBlkSize = dev.maxBlkSize)

/-- What the code needs for a buffer: a block within all limits, or a piece of bytes that the
largest request takes, and an address in range for the last command. -/
def FittingBuffer (dev : SdioDevice) (info : SdioRwBlockInfo) : Prop :=
  if UsesBlocks dev info then
    dev.curBlkSize ≤ dev.maxReqSize ∧ dev.curBlkSize ≤ dev.cntlrMaxBlkSize ∧
      dev.curBlkSize ≤ dev.funcMaxBlkSize ∧
      (info.incrAddrFlag = true → info.addr + blockLastStart dev.curBlkSize
        dev.blocksPerCommand dev.maxBlkSize info.size < 0x20000)
  else
    min info.size dev.maxBlkSize ≤ dev.maxReqSize ∧
      (info.incrAddrFlag = true →
        info.addr + (info.size - 1) / dev.maxBlkSize * dev.maxBlkSize < 0x20000)

/-- What the code needs to move each byte once. -/
def Fitting (dev : SdioDevice) (info : SdioRwBlockInfo) : Prop :=
  if info.scatterFlag then FittingScatter dev info else FittingBuffer dev info

/-! ### One command -/

section

variable {param : SdioCmdParam} {curAddr buffer blockNum blockSize : ℕ}

/-- The fields of a command that is sent. -/
theorem fields_commandFor (func : param.funcNum < 8) (inside : curAddr < 0x20000)
    (few : blockNum < 512) :
    addressField (commandFor param curAddr buffer blockNum blockSize).argument = curAddr ∧
      opCode (commandFor param curAddr buffer blockNum blockSize).argument =
        param.incrAddrFlag ∧
      functionField (commandFor param curAddr buffer blockNum blockSize).argument =
        param.funcNum ∧
      writeBit (commandFor param curAddr buffer blockNum blockSize).argument =
        param.writeflag ∧
      blockMode (commandFor param curAddr buffer blockNum blockSize).argument =
        !decide (blockNum = 1 ∧ blockSize ≤ 512) ∧
      countField (commandFor param curAddr buffer blockNum blockSize).argument =
        if blockNum = 1 ∧ blockSize ≤ 512 then (if blockSize = 512 then 0 else blockSize)
        else blockNum := by
  have same := @argument_eq { param with regAddr := curAddr } blockNum blockSize func inside few
  have low : (if blockNum = 1 ∧ blockSize ≤ 512 then (if blockSize = 512 then 0 else blockSize)
      else blockNum) < 512 := by
    split_ifs <;> omega
  have bit : ∀ c : Bool, decide (c.toNat = 1) = c := by decide
  have write := param.writeflag.toNat_le
  have mode := (decide (¬ (blockNum = 1 ∧ blockSize ≤ 512))).toNat_le
  have incr := param.incrAddrFlag.toNat_le
  dsimp only [commandFor]
  rw [same]
  dsimp only at func same ⊢
  generalize (if blockNum = 1 ∧ blockSize ≤ 512 then (if blockSize = 512 then 0 else blockSize)
    else blockNum) = count at low ⊢
  refine ⟨?_, ?_, ?_, ?_, ?_, ?_⟩
  · rw [addressField]
    omega
  · refine Eq.trans (decide_eq_decide.mpr ?_) (bit param.incrAddrFlag)
    omega
  · rw [functionField]
    omega
  · refine Eq.trans (decide_eq_decide.mpr ?_) (bit param.writeflag)
    omega
  · rw [← decide_not]
    refine Eq.trans (decide_eq_decide.mpr ?_) (bit (decide (¬ (blockNum = 1 ∧ blockSize ≤ 512))))
    omega
  · rw [countField]
    omega

/-- The count of a command that is sent stands for its data, which are blocks of the current
size or a few bytes. -/
theorem denoted_commandFor (func : param.funcNum < 8) (inside : curAddr < 0x20000)
    (few : blockNum < 512) (some : 0 < blockNum * blockSize) {curBlkSize : ℕ}
    (shape : blockSize = curBlkSize ∨ blockNum = 1 ∧ blockSize ≤ 512) :
    denoted curBlkSize (commandFor param curAddr buffer blockNum blockSize).argument =
      blockNum * blockSize := by
  obtain ⟨-, -, -, -, mode, count⟩ :=
    @fields_commandFor param curAddr buffer blockNum blockSize func inside few
  rw [denoted, mode, count]
  by_cases single : blockNum = 1 ∧ blockSize ≤ 512
  · rw [decide_eq_true single, if_neg (by simp), if_pos single, single.1, Nat.one_mul]
    rw [single.1, Nat.one_mul] at some
    split_ifs <;> omega
  · rw [decide_eq_false single, if_pos (by simp), if_neg single, shape.resolve_right single]

end

/-! ### The commands for some pieces -/

section

variable {param : SdioCmdParam} {pieces : List (ℕ × ℕ)} {curAddr buffer : ℕ}
  {cmds : List Command}

theorem of_issue_cons {piece : ℕ × ℕ} {rest : List (ℕ × ℕ)}
    (sent : issue param (piece :: rest) curAddr buffer = (hdfSuccess, cmds)) :
    curAddr < 0x20000 ∧ ∃ later, cmds = commandFor param curAddr buffer piece.1 piece.2 :: later ∧
      issue param rest (advance param curAddr (pieceBytes piece)) (buffer + pieceBytes piece) =
        (hdfSuccess, later) := by
  rw [issue] at sent
  split at sent
  · rename_i inside
    obtain ⟨status, rfl⟩ := Prod.mk.inj sent
    exact ⟨inside, _, rfl, Prod.ext status rfl⟩
  · exact absurd (congrArg Prod.fst sent) (show hdfErrInvalidParam ≠ hdfSuccess by decide)

theorem of_mem_issue (sent : issue param pieces curAddr buffer = (hdfSuccess, cmds))
    {cmd : Command} (listed : cmd ∈ cmds) :
    ∃ a b, ∃ piece ∈ pieces, a < 0x20000 ∧ cmd = commandFor param a b piece.1 piece.2 := by
  induction pieces generalizing curAddr buffer cmds with
  | nil =>
    obtain rfl : [] = cmds := congrArg Prod.snd sent
    cases listed
  | cons piece rest ih =>
    obtain ⟨inside, later, rfl, next⟩ := of_issue_cons sent
    rcases List.mem_cons.mp listed with rfl | behind
    · exact ⟨curAddr, buffer, piece, List.mem_cons_self, inside, rfl⟩
    · obtain ⟨a, b, other, member, rest⟩ := ih next behind
      exact ⟨a, b, other, List.mem_cons_of_mem _ member, rest⟩

theorem issue_pieces (sent : issue param pieces curAddr buffer = (hdfSuccess, cmds)) :
    cmds.map (fun cmd => (cmd.blockNum, cmd.blockSize)) = pieces := by
  induction pieces generalizing curAddr buffer cmds with
  | nil =>
    obtain rfl : [] = cmds := congrArg Prod.snd sent
    rfl
  | cons piece rest ih =>
    obtain ⟨-, later, rfl, next⟩ := of_issue_cons sent
    exact congrArg (piece :: ·) (ih next)

theorem issue_tiles (sent : issue param pieces curAddr buffer = (hdfSuccess, cmds))
    (some : ∀ piece ∈ pieces, 0 < pieceBytes piece)
    (inside : buffer + (pieces.map pieceBytes).sum < 2 ^ 32) :
    Tiles (2 ^ 32) buffer (pieces.map pieceBytes).sum
      (cmds.map fun cmd => (cmd.buffer, cmd.bytes)) := by
  induction pieces generalizing curAddr buffer cmds with
  | nil =>
    obtain rfl : [] = cmds := congrArg Prod.snd sent
    rfl
  | cons piece rest ih =>
    obtain ⟨-, later, rfl, next⟩ := of_issue_cons sent
    rw [List.map_cons, List.sum_cons] at inside ⊢
    have low : buffer < 2 ^ 32 := by omega
    refine ⟨(Nat.mod_eq_of_lt low).symm, some piece List.mem_cons_self,
      Nat.le_add_right _ _, ?_⟩
    have others := ih next (fun other listed => some other (List.mem_cons_of_mem _ listed))
      (by omega)
    change Tiles _ (buffer + pieceBytes piece) (pieceBytes piece + _ - pieceBytes piece) _
    rwa [Nat.add_sub_cancel_left]

theorem issue_last (sent : issue param pieces curAddr buffer = (hdfSuccess, cmds))
    (nonempty : pieces ≠ []) : ∃ cmd ∈ cmds, cmd.buffer = buffer + lastStart pieces := by
  induction pieces generalizing curAddr buffer cmds with
  | nil => contradiction
  | cons piece rest ih =>
    obtain ⟨-, later, rfl, next⟩ := of_issue_cons sent
    by_cases last : rest = []
    · exact ⟨_, List.mem_cons_self, by rw [last]; rfl⟩
    · obtain ⟨cmd, listed, start⟩ := ih next last
      exact ⟨cmd, List.mem_cons_of_mem _ listed, by rw [start, lastStart_cons last, Nat.add_assoc]⟩

/-- All commands are sent, each to its address, if the last one begins in range. -/
theorem issue_of_inside {addr : ℕ} (func : param.funcNum < 8) (addrIn : addr < 0x20000)
    (few : ∀ piece ∈ pieces, piece.1 < 512)
    (here : curAddr = if param.incrAddrFlag then addr + buffer else addr)
    (inside : param.incrAddrFlag = true → addr + buffer + lastStart pieces < 0x20000) :
    ∃ cmds, issue param pieces curAddr buffer = (hdfSuccess, cmds) ∧
      ∀ cmd ∈ cmds, addressField cmd.argument =
        if param.incrAddrFlag then addr + cmd.buffer else addr := by
  induction pieces generalizing curAddr buffer with
  | nil => exact ⟨[], rfl, nofun⟩
  | cons piece rest ih =>
    have low : curAddr < 0x20000 := by
      rw [here]
      split
      · rename_i incr
        exact Nat.lt_of_le_of_lt (Nat.le_add_right _ _) (inside incr)
      · exact addrIn
    have first := (@fields_commandFor param curAddr buffer piece.1 piece.2 func low
      (few piece List.mem_cons_self)).1
    rw [issue, if_pos low]
    by_cases last : rest = []
    · subst last
      refine ⟨_, rfl, fun cmd listed => ?_⟩
      rw [List.mem_singleton.mp listed, first, here]
      rfl
    · rw [lastStart_cons last] at inside
      have next : advance param curAddr (pieceBytes piece) =
          if param.incrAddrFlag then addr + (buffer + pieceBytes piece) else addr := by
        rw [advance, here]
        split
        · rename_i incr
          have short := inside incr
          rw [Nat.mod_eq_of_lt (by omega), Nat.add_assoc]
        · rfl
      obtain ⟨later, sent, addresses⟩ :=
        ih (fun other listed => few other (List.mem_cons_of_mem _ listed)) next
          (fun incr => by have := inside incr; omega)
      rw [pieceBytes] at sent
      rw [sent]
      refine ⟨_, rfl, fun cmd listed => ?_⟩
      rcases List.mem_cons.mp listed with rfl | behind
      · rw [first, here]
        rfl
      · exact addresses cmd behind

end

/-! ### Requests -/

section

variable {dev : SdioDevice} {info : SdioRwBlockInfo} {param : SdioCmdParam}
  {pieces : List (ℕ × ℕ)}

/-- Pieces as the loops cut them: of some bytes each, in blocks of the current size or in
bytes, with a count of nine bits. -/
structure Cut (dev : SdioDevice) (n : ℕ) (pieces : List (ℕ × ℕ)) : Prop where
  nonempty : pieces ≠ []
  some : ∀ piece ∈ pieces, 0 < pieceBytes piece
  few : ∀ piece ∈ pieces, piece.1 < 512
  shape : ∀ piece ∈ pieces, piece.2 = dev.curBlkSize ∨ piece.1 = 1 ∧ piece.2 ≤ 512
  sum : (pieces.map pieceBytes).sum = n

/-- Pieces are sent as they should be if they are within all limits and the last one begins
in range. -/
theorem issue_iff (cut : Cut dev info.size pieces) (func : param.funcNum = dev.funcNum)
    (write : param.writeflag = info.writeFlag) (incr : param.incrAddrFlag = info.incrAddrFlag) :
    (∃ cmds, issue param pieces info.addr 0 = (hdfSuccess, cmds) ∧ MovesBytes dev info cmds) ↔
      (∀ piece ∈ pieces, dev.Allows piece.1 piece.2) ∧
        (info.incrAddrFlag = true → info.addr + lastStart pieces < 0x20000) := by
  have funcIn : param.funcNum < 8 := func ▸ dev.funcNum_lt
  constructor
  · rintro ⟨cmds, sent, moves⟩
    constructor
    · intro piece listed
      rw [← issue_pieces sent] at listed
      obtain ⟨cmd, member, rfl⟩ := List.mem_map.mp listed
      exact moves.limits cmd member
    · intro isIncr
      obtain ⟨cmd, member, start⟩ := issue_last sent cut.nonempty
      have address := moves.address cmd member
      rw [if_pos isIncr, start, Nat.zero_add] at address
      rw [← address]
      exact Nat.mod_lt _ (by decide)
  · rintro ⟨limits, inside⟩
    have here : info.addr = if param.incrAddrFlag then info.addr + 0 else info.addr := by
      split <;> rfl
    obtain ⟨cmds, sent, addresses⟩ := issue_of_inside funcIn info.addr_lt cut.few here
      (by rw [incr, Nat.add_zero]; exact inside)
    refine ⟨cmds, sent, ?_, ?_, ?_, ?_, ?_⟩
    · have tiles := issue_tiles sent cut.some (by rw [cut.sum, Nat.zero_add]; exact info.size_lt)
      rwa [cut.sum] at tiles
    · rw [← incr]
      exact addresses
    · intro cmd member
      obtain ⟨a, b, piece, listed, low, rfl⟩ := of_mem_issue sent member
      exact denoted_commandFor funcIn low (cut.few piece listed) (cut.some piece listed)
        (cut.shape piece listed)
    · intro cmd member
      obtain ⟨a, b, piece, listed, low, rfl⟩ := of_mem_issue sent member
      obtain ⟨-, op, function, bit, -⟩ :=
        @fields_commandFor param a b piece.1 piece.2 funcIn low (cut.few piece listed)
      exact ⟨op.trans incr, function.trans func, bit.trans write, write⟩
    · intro cmd member
      have listed : (cmd.blockNum, cmd.blockSize) ∈ pieces := by
        rw [← issue_pieces sent]
        exact List.mem_map.mpr ⟨cmd, member, rfl⟩
      exact limits _ listed

theorem maxBlkSize_pos (dev : SdioDevice) : 0 < dev.maxBlkSize :=
  Nat.lt_min.mpr ⟨Nat.lt_min.mpr ⟨dev.cntlrMaxBlkSize_pos, dev.funcMaxBlkSize_pos⟩, by decide⟩

theorem maxBlkSize_le (dev : SdioDevice) : dev.maxBlkSize ≤ dev.cntlrMaxBlkSize ∧
    dev.maxBlkSize ≤ dev.funcMaxBlkSize ∧ dev.maxBlkSize ≤ 512 := by
  rw [SdioDevice.maxBlkSize, bytesPerBlock]
  omega

theorem cut_bytePieces (dev : SdioDevice) (info : SdioRwBlockInfo) :
    Cut dev info.size (bytePieces dev.maxBlkSize (maxBlkSize_pos dev) info.size) := by
  refine ⟨?_, fun piece listed => ?_, fun piece listed => ?_, fun piece listed => ?_,
    sum_bytePieces _ _⟩
  · rw [bytePieces_of_pos _ info.size_pos]
    exact List.cons_ne_nil _ _
  all_goals obtain ⟨one, some, most⟩ := of_mem_bytePieces _ listed
  · rw [pieceBytes, one, Nat.one_mul]
    exact some
  · rw [one]
    decide
  · exact .inr ⟨one, (most.trans (Nat.min_le_right _ _)).trans (maxBlkSize_le dev).2.2⟩

theorem cut_blockPieces (dev : SdioDevice) (info : SdioRwBlockInfo)
    (numPos : 0 < dev.blocksPerCommand) :
    Cut dev info.size (blockPieces dev.curBlkSize dev.blocksPerCommand dev.maxBlkSize
      (maxBlkSize_pos dev) dev.curBlkSize_pos numPos info.size) := by
  have few : dev.blocksPerCommand ≤ 511 := Nat.min_le_right _ _
  refine ⟨?_, fun piece listed => ?_, fun piece listed => ?_, fun piece listed => ?_,
    sum_blockPieces _ _ _ _⟩
  · intro nothing
    have sum := sum_blockPieces (maxBlkSize_pos dev) dev.curBlkSize_pos numPos info.size
    rw [nothing] at sum
    exact info.size_pos.ne sum
  all_goals
    rcases of_mem_blockPieces _ _ _ listed with ⟨size, some, most⟩ | ⟨one, some, most⟩
  · rw [pieceBytes, size]
    exact Nat.mul_pos some dev.curBlkSize_pos
  · rw [pieceBytes, one, Nat.one_mul]
    exact some
  · omega
  · omega
  · exact .inl size
  · exact .inr ⟨one, (most.trans (Nat.min_le_right _ _)).trans (maxBlkSize_le dev).2.2⟩

theorem allows_bytePieces_iff (dev : SdioDevice) (info : SdioRwBlockInfo) :
    (∀ piece ∈ bytePieces dev.maxBlkSize (maxBlkSize_pos dev) info.size,
      dev.Allows piece.1 piece.2) ↔ min info.size dev.maxBlkSize ≤ dev.maxReqSize := by
  obtain ⟨cntlr, func, -⟩ := maxBlkSize_le dev
  constructor
  · intro limits
    have first := limits (1, min info.size dev.maxBlkSize) (by
      rw [bytePieces_of_pos _ info.size_pos]
      exact List.mem_cons_self)
    simpa using first.request
  · intro request piece listed
    obtain ⟨one, -, most⟩ := of_mem_bytePieces _ listed
    have number := dev.maxBlkNum_pos
    refine ⟨by omega, by omega, by omega, by rw [one]; decide, ?_⟩
    rw [one, Nat.one_mul]
    exact most.trans request

theorem allows_blockPieces_iff (numPos : 0 < dev.blocksPerCommand)
    (uses : dev.curBlkSize < info.size) :
    (∀ piece ∈ blockPieces dev.curBlkSize dev.blocksPerCommand dev.maxBlkSize
        (maxBlkSize_pos dev) dev.curBlkSize_pos numPos info.size, dev.Allows piece.1 piece.2) ↔
      dev.curBlkSize ≤ dev.maxReqSize ∧ dev.curBlkSize ≤ dev.cntlrMaxBlkSize ∧
        dev.curBlkSize ≤ dev.funcMaxBlkSize := by
  obtain ⟨cntlr, func, -⟩ := maxBlkSize_le dev
  have requests : dev.blocksPerCommand ≤ dev.maxReqSize / dev.curBlkSize :=
    (Nat.min_le_left _ _).trans (Nat.min_le_left _ _)
  have number : dev.blocksPerCommand ≤ dev.maxBlkNum :=
    (Nat.min_le_left _ _).trans (Nat.min_le_right _ _)
  have counted : dev.blocksPerCommand ≤ sdioBlockTransferMaxBlknum := Nat.min_le_right _ _
  have enough : dev.curBlkSize ≤ dev.maxReqSize :=
    (Nat.div_pos_iff.mp (numPos.trans_le requests)).2
  rw [and_iff_right enough]
  constructor
  · intro limits
    have first := limits (min (info.size / dev.curBlkSize) dev.blocksPerCommand, dev.curBlkSize) (by
      rw [blockPieces_of_lt _ _ _ uses]
      exact List.mem_cons_self)
    exact ⟨first.cntlrSize, first.funcSize⟩
  · rintro ⟨cntlrSize, funcSize⟩ piece listed
    rcases of_mem_blockPieces _ _ _ listed with ⟨size, -, most⟩ | ⟨one, -, most⟩
    · refine ⟨by omega, by omega, by omega, by omega, ?_⟩
      rw [size]
      exact (Nat.mul_le_mul_right _ (most.trans requests)).trans (Nat.div_mul_le_self _ _)
    · have positive := dev.maxBlkNum_pos
      refine ⟨by omega, by omega, by omega, by rw [one]; decide, ?_⟩
      rw [one, Nat.one_mul]
      omega

/-! #### A request for a buffer -/

theorem sdioReadWriteBlock_of_buffer (plain : info.scatterFlag = false) :
    sdioReadWriteBlock dev info =
      if dev.multiBlock ∧ dev.maxBlkSize < info.size then
        blockLoop dev (sdioFillRwExtendedCmdParam dev info) dev.blocksPerCommand info.size
          info.addr 0
      else some (sdioReadWriteRemainBytes dev (sdioFillRwExtendedCmdParam dev info) info.size
        info.addr 0) := by
  have block := dev.curBlkSize_pos
  have number := dev.maxBlkNum_pos
  rw [sdioReadWriteBlock, if_neg (maxBlkSize_pos dev).ne', if_neg (by omega)]
  dsimp only
  rw [plain, if_neg Bool.false_ne_true]

theorem sdioReadWriteBlock_of_bytes (plain : info.scatterFlag = false)
    (bytes : ¬ UsesBlocks dev info) :
    sdioReadWriteBlock dev info = some (issue (sdioFillRwExtendedCmdParam dev info)
      (bytePieces dev.maxBlkSize (maxBlkSize_pos dev) info.size) info.addr 0) := by
  have direct : sdioReadWriteRemainBytes dev (sdioFillRwExtendedCmdParam dev info) info.size
      info.addr 0 = issue (sdioFillRwExtendedCmdParam dev info)
        (bytePieces dev.maxBlkSize (maxBlkSize_pos dev) info.size) info.addr 0 := by
    rw [sdioReadWriteRemainBytes, dif_pos (maxBlkSize_pos dev), remainLoop_eq]
  rw [sdioReadWriteBlock_of_buffer plain]
  split
  · rename_i long
    have few : ¬ dev.curBlkSize < info.size := fun more => bytes ⟨long.1, long.2, more⟩
    rw [blockLoop, if_neg few, direct]
  · rw [direct]

theorem movesBytes_iff_of_bytes (plain : info.scatterFlag = false)
    (bytes : ¬ UsesBlocks dev info) :
    (∃ cmds, sdioReadWriteBlock dev info = some (hdfSuccess, cmds) ∧
      MovesBytes dev info cmds) ↔ FittingBuffer dev info := by
  have sent := @issue_iff dev info (sdioFillRwExtendedCmdParam dev info) _
    (cut_bytePieces dev info) rfl rfl rfl
  rw [allows_bytePieces_iff, lastStart_bytePieces _ info.size_pos] at sent
  rw [FittingBuffer, if_neg bytes, ← sent, sdioReadWriteBlock_of_bytes plain bytes]
  simp only [Option.some.injEq]

theorem movesBytes_iff_of_blocks (plain : info.scatterFlag = false)
    (uses : UsesBlocks dev info) :
    (∃ cmds, sdioReadWriteBlock dev info = some (hdfSuccess, cmds) ∧
      MovesBytes dev info cmds) ↔ FittingBuffer dev info := by
  obtain ⟨multi, long, more⟩ := id uses
  rw [FittingBuffer, if_pos uses, sdioReadWriteBlock_of_buffer plain, if_pos ⟨multi, long⟩]
  rcases Nat.eq_zero_or_pos dev.blocksPerCommand with none | numPos
  · -- no block fits a request, and the loop goes round without end
    have small : ¬ dev.curBlkSize ≤ dev.maxReqSize := by
      intro enough
      have some : 0 < dev.maxReqSize / dev.curBlkSize := Nat.div_pos enough dev.curBlkSize_pos
      have positive : 0 < dev.blocksPerCommand :=
        Nat.lt_min.mpr ⟨Nat.lt_min.mpr ⟨some, dev.maxBlkNum_pos⟩, by decide⟩
      omega
    refine iff_of_false ?_ fun fits => small fits.1
    rintro ⟨cmds, ended, -⟩
    rw [blockLoop, if_pos more, none] at ended
    dsimp only at ended
    rw [sdioRwExtended_eq, if_pos info.addr_lt] at ended
    dsimp only at ended
    rw [dif_neg (by rw [Nat.min_zero, Nat.zero_mul]; exact Nat.lt_irrefl 0)] at ended
    cases ended
  · have sent := @issue_iff dev info (sdioFillRwExtendedCmdParam dev info) _
      (cut_blockPieces dev info numPos) rfl rfl rfl
    rw [allows_blockPieces_iff numPos more, lastStart_blockPieces _ _ _ info.size_pos,
      and_assoc, and_assoc] at sent
    rw [← sent, blockLoop_eq dev _ (maxBlkSize_pos dev) numPos]
    simp only [Option.some.injEq]

/-! #### A request for a scatter list -/

theorem sdioReadWriteBlock_of_scatter (scatter : info.scatterFlag = true) :
    sdioReadWriteBlock dev info = some (issue (sdioFillRwExtendedCmdParam dev info)
      [(max 1 (info.size / dev.maxBlkSize), min info.size dev.maxBlkSize)] info.addr 0) := by
  have block := dev.curBlkSize_pos
  have number := dev.maxBlkNum_pos
  have address : sdioFillRwExtendedCmdParam dev info =
      { sdioFillRwExtendedCmdParam dev info with regAddr := info.addr } := by
    rw [sdioFillRwExtendedCmdParam, if_pos scatter]
  rw [sdioReadWriteBlock, if_neg (maxBlkSize_pos dev).ne', if_neg (by omega)]
  dsimp only
  rw [if_pos scatter, address, sdioRwExtended_eq, if_pos info.addr_lt, issue, if_pos info.addr_lt]
  rfl

/-- The one piece of a request for a scatter list that fits is the request. -/
theorem scatterPiece_of_fits {m n blockSize most : ℕ}
    (fits : n ≤ m ∨ m ∣ n ∧ n / m ≤ most ∧ blockSize = m) (positive : 0 < m) :
    max 1 (n / m) * min n m = n ∧ (min n m = blockSize ∨ max 1 (n / m) = 1) ∧
      n / m ≤ max 1 most := by
  rcases Nat.lt_or_ge m n with long | short
  · obtain ⟨divides, few, same⟩ := fits.resolve_left (Nat.not_le.mpr long)
    rw [Nat.max_eq_right (Nat.div_pos long.le positive), Nat.min_eq_right long.le]
    exact ⟨Nat.div_mul_cancel divides, .inl same.symm, few.trans (Nat.le_max_right _ _)⟩
  · have atMost : n / m ≤ 1 := (Nat.div_le_div_right short).trans (Nat.div_self positive).le
    rw [Nat.max_eq_left atMost, Nat.min_eq_left short, Nat.one_mul]
    exact ⟨rfl, .inr rfl, atMost.trans (Nat.le_max_left _ _)⟩

theorem movesBytes_iff_of_scatter (scatter : info.scatterFlag = true) :
    (∃ cmds, sdioReadWriteBlock dev info = some (hdfSuccess, cmds) ∧
      MovesBytes dev info cmds) ↔ FittingScatter dev info := by
  have size := info.size_pos
  have positive := maxBlkSize_pos dev
  obtain ⟨cntlr, function, most⟩ := maxBlkSize_le dev
  rw [sdioReadWriteBlock_of_scatter scatter]
  simp only [Option.some.injEq]
  constructor
  · rintro ⟨cmds, sent, moves⟩
    obtain ⟨low, later, rfl, rest⟩ := of_issue_cons sent
    obtain rfl : [] = later := congrArg Prod.snd rest
    have whole := moves.tiles.sum_eq
    have limits := moves.limits _ List.mem_cons_self
    have denotes := moves.denotes _ List.mem_cons_self
    simp only [List.map_cons, List.map_nil, List.sum_cons, List.sum_nil, Nat.add_zero,
      Command.bytes, commandFor] at whole
    have request := limits.request
    simp only [commandFor] at request limits
    rw [whole] at request
    refine ⟨request, or_iff_not_imp_left.mpr fun long => ?_⟩
    have blocks : max 1 (info.size / dev.maxBlkSize) = info.size / dev.maxBlkSize :=
      Nat.max_eq_right (Nat.div_pos (Nat.not_le.mp long).le positive)
    have blockSize : min info.size dev.maxBlkSize = dev.maxBlkSize :=
      Nat.min_eq_right (Nat.not_le.mp long).le
    rw [blocks, blockSize] at whole limits denotes
    have several : info.size / dev.maxBlkSize ≠ 1 := by
      intro one
      rw [one, Nat.one_mul] at whole
      omega
    refine ⟨⟨_, by rw [Nat.mul_comm]; exact whole.symm⟩,
      Nat.le_min.mpr ⟨limits.number, limits.counted⟩, ?_⟩
    have few : info.size / dev.maxBlkSize < 512 := Nat.lt_succ_of_le limits.counted
    obtain ⟨-, -, -, -, mode, count⟩ := @fields_commandFor (sdioFillRwExtendedCmdParam dev info)
      info.addr 0 (info.size / dev.maxBlkSize) dev.maxBlkSize dev.funcNum_lt low few
    have notBytes : ¬ (info.size / dev.maxBlkSize = 1 ∧ dev.maxBlkSize ≤ 512) :=
      fun bytes => several bytes.1
    rw [denoted, mode, count, decide_eq_false notBytes, if_pos (by rfl), if_neg notBytes] at denotes
    exact Nat.eq_of_mul_eq_mul_left (Nat.div_pos (Nat.not_le.mp long).le positive) denotes
  · rintro ⟨request, fits⟩
    obtain ⟨blocks, blockSize, several⟩ := scatterPiece_of_fits fits positive
    have some : 1 ≤ min dev.maxBlkNum sdioBlockTransferMaxBlknum :=
      Nat.lt_min.mpr ⟨dev.maxBlkNum_pos, by decide⟩
    have few : max 1 (info.size / dev.maxBlkSize) ≤ min dev.maxBlkNum sdioBlockTransferMaxBlknum :=
      max_le some (several.trans (max_le some le_rfl))
    have counted : max 1 (info.size / dev.maxBlkSize) < 512 :=
      Nat.lt_succ_of_le (few.trans (Nat.min_le_right _ _))
    have blockLe : min info.size dev.maxBlkSize ≤ dev.maxBlkSize := Nat.min_le_right _ _
    have cut : Cut dev info.size
        [(max 1 (info.size / dev.maxBlkSize), min info.size dev.maxBlkSize)] := by
      refine ⟨List.cons_ne_nil _ _, ?_, ?_, ?_, ?_⟩
      · intro piece listed
        rw [List.mem_singleton.mp listed, pieceBytes, blocks]
        exact size
      · intro piece listed
        rw [List.mem_singleton.mp listed]
        exact counted
      · intro piece listed
        rw [List.mem_singleton.mp listed]
        exact blockSize.imp_right fun one => ⟨one, blockLe.trans most⟩
      · exact (Nat.add_zero _).trans blocks
    refine (issue_iff cut rfl rfl rfl).mpr ⟨fun piece listed => ?_, fun _ => info.addr_lt⟩
    rw [List.mem_singleton.mp listed]
    refine ⟨blockLe.trans cntlr, blockLe.trans function, few.trans (Nat.min_le_left _ _),
      few.trans (Nat.min_le_right _ _), ?_⟩
    rw [blocks]
    exact request

end

/-- Each byte is moved once in exactly these requests. -/
theorem movesEachByte_iff (dev : SdioDevice) (info : SdioRwBlockInfo) :
    MovesEachByte dev info ↔ Fitting dev info := by
  rw [MovesEachByte, Fitting]
  cases scatter : info.scatterFlag with
  | false =>
    rw [if_neg Bool.false_ne_true, or_iff_right fun refused => Bool.false_ne_true refused.1]
    by_cases uses : UsesBlocks dev info
    · exact movesBytes_iff_of_blocks scatter uses
    · exact movesBytes_iff_of_bytes scatter uses
  | true =>
    rw [if_pos rfl, ← movesBytes_iff_of_scatter scatter, or_iff_right]
    rintro ⟨-, status, failed, sent⟩
    rw [sdioReadWriteBlock_of_scatter scatter, issue, if_pos info.addr_lt] at sent
    cases congrArg Prod.snd (Option.some.inj sent)

/-- A function whose block does not fit the largest request of its controller. -/
def narrowDevice : SdioDevice where
  cntlrMaxBlkSize := 512
  maxBlkNum := 1
  maxReqSize := 256
  multiBlock := true
  funcNum := 1
  funcMaxBlkSize := 512
  curBlkSize := 512
  cntlrMaxBlkSize_pos := by decide
  maxBlkNum_pos := by decide
  funcNum_lt := by decide
  funcMaxBlkSize_pos := by decide
  curBlkSize_pos := by decide

/-- A request for two blocks of a buffer. -/
def twoBlocks : SdioRwBlockInfo where
  addr := 0
  size := 1024
  scatterLen := 0
  writeFlag := false
  incrAddrFlag := true
  scatterFlag := false
  addr_lt := by decide
  size_pos := by decide
  size_lt := by decide

/-- A request can go round for ever without moving a byte. -/
theorem goes_round_without_blocks : ¬ ∀ dev info, MovesEachByte dev info := by
  intro always
  rcases always narrowDevice twoBlocks with ⟨scatter, -⟩ | moves
  · exact absurd scatter (by decide)
  · have fits := (movesBytes_iff_of_blocks rfl (by decide)).mp moves
    rw [FittingBuffer, if_pos (by decide)] at fits
    exact absurd fits.1 (by decide)

end Hdf.Storage.Sdio
