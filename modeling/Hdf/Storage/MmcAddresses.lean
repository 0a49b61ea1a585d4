import Hdf.Storage.MmcTransfer

/-!
# The commands of a transfer

The data that goes with a command is set up anew for each chunk of a transfer, except for the stop
command: once it has been asked for, it is asked for with every later chunk that goes through the
queue. The address of a sector is shifted in 32 bits on a device with byte addresses.

## Main results

* `getElem?_transferLoop`: the command for a chunk
* `rightCommands_iff`: the commands are right if and only if no single sector follows other chunks
  in the queue of a controller that needs stop commands, and byte addresses have 32 bits
* `CardSize.capacity_le`: they have on devices whose block length is one of the standard
-/

namespace Hdf.Storage.Mmc

/-- What the capacity of a device is computed from: the number of sectors of its extended register
for block addresses, and otherwise the size, its multiplier and the block length of the register
of the card. A block is not shorter than a sector. -/
structure CardSize where
  sectors : UInt32
  cSize : BitVec 12
  cSizeMult : BitVec 3
  readBlkLen : BitVec 4
  sector_le : 9 ≤ readBlkLen.toNat

/-- The capacity in sectors: `EmmcSetBlockCapacity` and `SdSetBlockCapacity`, and the part of the
decoders that they use. -/
def CardSize.capacity (card : CardSize) (blockAddr : Bool) : ℕ :=
  if blockAddr then card.sectors.toNat
  else ((1 + card.cSize.toNat) <<< (card.cSizeMult.toNat + 2)) <<< (card.readBlkLen.toNat - 9)

/-- A command for several blocks. -/
def CmdCode.IsMultiple : CmdCode → Prop
  | .readMultipleBlock | .writeMultipleBlock => True
  | .readSingleBlock | .writeBlock => False

/-- The first sector of a chunk. -/
def chunkFirst (startSec k : ℕ) : ℕ := startSec + k * mmcMaxSectorNum

/-- The number of sectors of a chunk. -/
def chunkSize (nSec k : ℕ) : ℕ := chunkSectors (nSec - k * mmcMaxSectorNum)

/-- A call has a chunk with this index. There is a first one in any case. -/
def HasChunk (nSec k : ℕ) : Prop := k = 0 ∨ k * mmcMaxSectorNum < nSec

/-- Every command is the one for its chunk alone: its address is that of the first sector, it is
for several blocks if and only if there are several sectors, and a stop command is asked for if
and only if in addition the controller needs one. -/
def RightCommands (mmc : MmcDevice) (startSec nSec : ℕ) (result : ℤ × List MmcCmd) : Prop :=
  ∀ k cmd, result.2[k]? = some cmd →
    cmd.argument.toNat = chunkFirst startSec k * (if mmc.blockAddr then 1 else 512) ∧
    (cmd.cmdCode.IsMultiple ↔ 1 < chunkSize nSec k) ∧
    (cmd.sendStopCmd = true ↔ 1 < chunkSize nSec k ∧ mmc.cmdStop = true)

/-- One of the chunks before goes through the queue. -/
def queuedBefore (events : ℕ → Event) (k : ℕ) : Bool :=
  (List.range k).any fun j => !(events j).detecting

/-- A chunk for which the command is right: its first sector has an address of 32 bits, and if it
has a single sector and goes through the queue of a controller that needs stop commands, then
no chunk before it does. -/
def Plain (mmc : MmcDevice) (events : ℕ → Event) (startSec nSec k : ℕ) : Prop :=
  mmc.Fits (chunkFirst startSec k) ∧
    ¬(mmc.cmdStop = true ∧ chunkSize nSec k = 1 ∧ (events k).detecting = false ∧
      queuedBefore events k = true)

variable {mmc : MmcDevice} {events : ℕ → Event} {writeFlag : Bool}
  {buf startSec nSec cur k i : ℕ} {sendStopCmd : Bool}

/-! ### The command for a chunk -/

/-- Whether the data has been set up for a stop command when a chunk is reached. -/
def stopBefore (mmc : MmcDevice) (events : ℕ → Event) (k i : ℕ) (sendStopCmd : Bool) : Bool :=
  sendStopCmd || queuedBefore (fun j => events (k + j)) i && mmc.cmdStop

/-- The command for a chunk of a transfer. -/
def chunkCmd (mmc : MmcDevice) (events : ℕ → Event) (writeFlag : Bool)
    (k buf start cur : ℕ) (sendStopCmd : Bool) (i : ℕ) : MmcCmd :=
  firstCmd mmc (events (k + i)) writeFlag (buf + i * mmcMaxSectorNum * 512)
    (start + i * mmcMaxSectorNum) (cur - i * mmcMaxSectorNum)
    (stopBefore mmc events k i sendStopCmd)

theorem queuedBefore_succ (events : ℕ → Event) (i : ℕ) : queuedBefore events (i + 1) =
    (!(events 0).detecting || queuedBefore (fun j => events (j + 1)) i) := by
  rw [queuedBefore, List.range_succ_eq_map, List.any_cons, List.any_map]
  rfl

theorem chunkCmd_succ : chunkCmd mmc events writeFlag k buf startSec cur sendStopCmd (i + 1) =
    chunkCmd mmc events writeFlag (k + 1) (buf + mmcMaxSectorNum * 512)
      (startSec + mmcMaxSectorNum) (cur - mmcMaxSectorNum)
      (sendStopCmd || !(events k).detecting && mmc.cmdStop) i := by
  have shift (j : ℕ) : k + (j + 1) = k + 1 + j := by omega
  have stop : stopBefore mmc events k (i + 1) sendStopCmd = stopBefore mmc events (k + 1) i
      (sendStopCmd || !(events k).detecting && mmc.cmdStop) := by
    have same : (fun j => events (k + (j + 1))) = fun j => events (k + 1 + j) :=
      funext fun j => congrArg events (shift j)
    rw [stopBefore, stopBefore, queuedBefore_succ, same, Nat.add_zero]
    cases sendStopCmd <;> cases (events k).detecting <;> cases mmc.cmdStop <;> simp
  have place : buf + (i + 1) * mmcMaxSectorNum * 512 =
      buf + mmcMaxSectorNum * 512 + i * mmcMaxSectorNum * 512 := by
    rw [Nat.succ_mul]
    omega
  have first : startSec + (i + 1) * mmcMaxSectorNum =
      startSec + mmcMaxSectorNum + i * mmcMaxSectorNum := by
    rw [Nat.succ_mul]
    omega
  have rest : cur - (i + 1) * mmcMaxSectorNum = cur - mmcMaxSectorNum - i * mmcMaxSectorNum := by
    rw [Nat.succ_mul, Nat.sub_sub, Nat.add_comm]
  rw [chunkCmd, chunkCmd, stop, shift i, place, first, rest]

/-- The commands are those for the chunks, up to the first one that shows an error. -/
theorem getElem?_transferLoop {cmd : MmcCmd} :
    (transferLoop mmc events writeFlag nSec k buf startSec cur sendStopCmd).2[i]? = some cmd ↔
      (HasChunk cur i ∧ (∀ j < i, (events (k + j)).Silent) ∧ (events (k + i)).issues = true) ∧
        chunkCmd mmc events writeFlag k buf startSec cur sendStopCmd i = cmd := by
  induction i generalizing k buf startSec cur sendStopCmd with
  | zero =>
    have here : chunkCmd mmc events writeFlag k buf startSec cur sendStopCmd 0 =
        firstCmd mmc (events k) writeFlag buf startSec cur sendStopCmd := by
      simp [chunkCmd, stopBefore, queuedBefore]
    by_cases silent : (events k).Silent
    · by_cases le : cur ≤ mmcMaxSectorNum
      · rw [transferLoop_of_last mmc events writeFlag nSec k buf startSec sendStopCmd silent le]
        simp [HasChunk, silent.issues, here]
      · rw [transferLoop_of_lt mmc events writeFlag nSec k buf startSec sendStopCmd silent
          (Nat.not_le.mp le)]
        simp [HasChunk, silent.issues, here]
    · rw [transferLoop_of_error mmc events writeFlag nSec k buf startSec sendStopCmd silent]
      cases (events k).issues <;> simp [HasChunk, here]
  | succ i ih =>
    by_cases silent : (events k).Silent
    · by_cases le : cur ≤ mmcMaxSectorNum
      · have none : ¬HasChunk cur (i + 1) := by
          rw [HasChunk, Nat.succ_mul]
          omega
        rw [transferLoop_of_last mmc events writeFlag nSec k buf startSec sendStopCmd silent le]
        simp [none]
      · have lt := Nat.not_le.mp le
        -- the chunks from the next one on
        have shift (j : ℕ) : k + (j + 1) = k + 1 + j := by omega
        have chunks : HasChunk (cur - mmcMaxSectorNum) i ↔ HasChunk cur (i + 1) := by
          rw [HasChunk, HasChunk, Nat.succ_mul]
          obtain rfl | positive := Nat.eq_zero_or_pos i
          · rw [Nat.zero_mul]
            omega
          · omega
        have before : (∀ j < i + 1, (events (k + j)).Silent) ↔
            ∀ j < i, (events (k + 1 + j)).Silent := by
          rw [Nat.forall_lt_succ_left, Nat.add_zero, and_iff_right silent]
          exact forall₂_congr fun j _ => by rw [shift]
        rw [transferLoop_of_lt mmc events writeFlag nSec k buf startSec sendStopCmd silent lt,
          List.getElem?_cons_succ, ih, chunks, before, shift i, chunkCmd_succ]
    · rw [transferLoop_of_error mmc events writeFlag nSec k buf startSec sendStopCmd silent]
      refine iff_of_false ?_ fun there => silent (there.1.2.1 0 (Nat.succ_pos i))
      cases (events k).issues <;> simp

/-! ### Right commands -/

/-- The address of a sector is right if it has 32 bits. -/
theorem argument_eq_iff {first : ℕ} (device : mmc.blockAddr = true → first < 2 ^ 32) :
    (if mmc.blockAddr then UInt32.ofNat first else UInt32.ofNat first <<< 9).toNat =
      first * (if mmc.blockAddr then 1 else 512) ↔ mmc.Fits first := by
  rw [MmcDevice.Fits]
  cases block : mmc.blockAddr with
  | true =>
    have small := device block
    simp only [if_true]
    rw [UInt32.toNat_ofNat', Nat.mul_one]
    exact iff_of_true (Nat.mod_eq_of_lt small) small
  | false =>
    have nine : (9 : UInt32).toNat % 32 = 9 := rfl
    simp only [Bool.false_eq_true, if_false]
    rw [UInt32.toNat_shiftLeft, UInt32.toNat_ofNat', Nat.shiftLeft_eq, nine]
    omega

theorem isMultiple_firstCmd {event : Event} :
    (firstCmd mmc event writeFlag buf startSec cur sendStopCmd).cmdCode.IsMultiple ↔
      1 < chunkSectors cur := by
  rw [firstCmd, mmcSetupReadWriteBlocksCmd]
  cases writeFlag <;> by_cases several : 1 < chunkSectors cur <;>
    simp [several, CmdCode.IsMultiple]

/-- The command for a chunk is right exactly if the chunk is plain. -/
theorem rightCommand_iff (chunk : HasChunk nSec k)
    (device : mmc.blockAddr = true → chunkFirst startSec k < 2 ^ 32) :
    ((chunkCmd mmc events writeFlag 0 buf startSec nSec false k).argument.toNat =
        chunkFirst startSec k * (if mmc.blockAddr then 1 else 512) ∧
      ((chunkCmd mmc events writeFlag 0 buf startSec nSec false k).cmdCode.IsMultiple ↔
        1 < chunkSize nSec k) ∧
      ((chunkCmd mmc events writeFlag 0 buf startSec nSec false k).sendStopCmd = true ↔
        1 < chunkSize nSec k ∧ mmc.cmdStop = true)) ↔ Plain mmc events startSec nSec k := by
  have zero : (fun j => events (0 + j)) = events := funext fun j => by rw [Nat.zero_add]
  rw [chunkCmd, Nat.zero_add, isMultiple_firstCmd]
  refine and_congr (argument_eq_iff device) ((and_iff_right Iff.rfl).trans ?_)
  have stop : (firstCmd mmc (events k) writeFlag (buf + k * mmcMaxSectorNum * 512)
      (startSec + k * mmcMaxSectorNum) (nSec - k * mmcMaxSectorNum)
      (stopBefore mmc events 0 k false)).sendStopCmd =
      (!(events k).detecting && (queuedBefore events k && mmc.cmdStop) ||
        decide (1 < chunkSize nSec k) && mmc.cmdStop) := by
    rw [stopBefore, zero, Bool.false_or]
    rfl
  rw [stop]
  -- a chunk without sectors has no chunk before it
  have empty (none : chunkSize nSec k = 0) : queuedBefore events k = false := by
    obtain rfl | inside := chunk
    · rfl
    · have some := chunkSectors_pos (Nat.sub_pos_of_lt inside)
      exact absurd none some.ne'
  generalize queuedBefore events k = queued at empty
  generalize chunkSize nSec k = n at empty
  cases (events k).detecting <;> cases queued <;> cases mmc.cmdStop <;> simp at empty ⊢
  omega

theorem rightCommands_transferLoop (inside : ∀ k, HasChunk nSec k → mmc.blockAddr = true →
    chunkFirst startSec k < 2 ^ 32) :
    RightCommands mmc startSec nSec
      (transferLoop mmc events writeFlag nSec 0 buf startSec nSec false) ↔
    ∀ k, HasChunk nSec k → (∀ j < k, (events j).Silent) → (events k).issues = true →
      Plain mmc events startSec nSec k := by
  constructor
  · intro right k chunk before issues
    refine (rightCommand_iff chunk (inside k chunk)).mp
      (right k (chunkCmd mmc events writeFlag 0 buf startSec nSec false k) ?_)
    rw [getElem?_transferLoop]
    simp only [Nat.zero_add]
    exact ⟨⟨chunk, before, issues⟩, trivial⟩
  · intro plain k cmd given
    obtain ⟨⟨chunk, before, issues⟩, rfl⟩ := getElem?_transferLoop.mp given
    simp only [Nat.zero_add] at before issues
    exact (rightCommand_iff chunk (inside k chunk)).mpr (plain k chunk before issues)

/-- The commands of a request inside a device are right if and only if the chunks that are issued
are plain. -/
theorem rightCommands_iff (mmc : MmcDevice) (card : CardSize) (events : ℕ → Event)
    (buf : ℕ) (inside : startSec + nSec ≤ card.capacity mmc.blockAddr) :
    (RightCommands mmc startSec nSec (mmcDeviceRead mmc events buf startSec nSec) ↔
      ∀ k, HasChunk nSec k → (∀ j < k, (events j).Silent) → (events k).issues = true →
        Plain mmc events startSec nSec k) ∧
    (RightCommands mmc startSec nSec (mmcDeviceWrite mmc events buf startSec nSec) ↔
      ∀ k, HasChunk nSec k → (∀ j < k, (events j).Silent) → (events k).issues = true →
        Plain mmc events startSec nSec k) := by
  have small (k : ℕ) (chunk : HasChunk nSec k) (block : mmc.blockAddr = true) :
      chunkFirst startSec k < 2 ^ 32 := by
    have sectors := card.sectors.toNat_lt
    rw [CardSize.capacity, if_pos block] at inside
    rw [chunkFirst]
    obtain rfl | before := chunk <;> omega
  exact ⟨rightCommands_transferLoop small, rightCommands_transferLoop small⟩

/-- Byte addresses have 32 bits on a card with blocks of at most 2048 bytes, as the standard has
them. -/
theorem CardSize.capacity_le {card : CardSize} (standard : card.readBlkLen.toNat ≤ 11) :
    card.capacity false ≤ 2 ^ 23 := by
  have size := card.cSize.isLt
  have mult := card.cSizeMult.isLt
  have blocks : (1 + card.cSize.toNat) <<< (card.cSizeMult.toNat + 2) ≤ 2 ^ 12 * 2 ^ 9 := by
    rw [Nat.shiftLeft_eq]
    exact Nat.mul_le_mul (by omega) (Nat.pow_le_pow_right (by decide) (by omega))
  rw [capacity, if_neg Bool.false_ne_true, Nat.shiftLeft_eq]
  calc
    _ ≤ 2 ^ 12 * 2 ^ 9 * 2 ^ 2 :=
      Nat.mul_le_mul blocks (Nat.pow_le_pow_right (by decide) (by omega))
    _ = 2 ^ 23 := by decide

/-- A card with block addresses. -/
def largeCard : CardSize := ⟨0x100000, 0, 0, 9, by decide⟩

/-- A controller that needs stop commands, for a card with block addresses. -/
def stopping : MmcDevice := ⟨true, true⟩

theorem rightCommands_twoChunks :
    (RightCommands stopping 100 3000
        (mmcDeviceRead stopping (fun _ => queued ⟨0, 0, 0⟩) 0 100 3000) ↔
      ∀ k, HasChunk 3000 k → (∀ j < k, (queued ⟨0, 0, 0⟩).Silent) →
        (queued ⟨0, 0, 0⟩).issues = true → Plain stopping (fun _ => queued ⟨0, 0, 0⟩) 100 3000 k) ∧
    (RightCommands stopping 100 3000
        (mmcDeviceWrite stopping (fun _ => queued ⟨0, 0, 0⟩) 0 100 3000) ↔
      ∀ k, HasChunk 3000 k → (∀ j < k, (queued ⟨0, 0, 0⟩).Silent) →
        (queued ⟨0, 0, 0⟩).issues = true → Plain stopping (fun _ => queued ⟨0, 0, 0⟩) 100 3000 k) :=
  rightCommands_iff stopping largeCard (fun _ => queued ⟨0, 0, 0⟩) 0 (by decide)

/-- A single sector behind a full chunk: a stop command is asked for with the single block. -/
theorem stop_for_single_block :
    ¬RightCommands stopping 0 2049 (mmcDeviceRead stopping (fun _ => queued ⟨0, 0, 0⟩) 0 0 2049) ∧
      0 + 2049 ≤ largeCard.capacity stopping.blockAddr := by
  refine ⟨fun right => ?_, by decide⟩
  have second := right 1 _
    (getElem?_transferLoop.mpr ⟨⟨.inr (by decide), by decide, by decide⟩, rfl⟩)
  exact absurd (second.2.2.mp rfl).1 (by decide)

end Hdf.Storage.Mmc
