import Hdf.Lib.Pieces
import Mathlib.Data.List.Basic
import Mathlib.Data.Nat.Bitwise
import Mathlib.Data.Int.Notation

/-!
# Reading and writing sectors of an MMC device

A call is cut into chunks, and each chunk is a request to the controller. While a device
is being detected, the request is made at once. Otherwise it is put into the queue of the
controller, and the caller waits until the worker of the queue has handled it. The worker
makes a request up to three times.

What the controller answers to each attempt comes with the call: the value that its
callback returns and the errors it stores in the command and in the data.

## Main results

* `reports_iff`: a call reports its results if and only if it hears all errors
* `drops_errors`: calls that return the number of sectors without transferring any
-/

namespace Hdf.Storage.Mmc

/-- What the controller answers to an attempt. -/
structure Outcome where
  ret : Int32
  cmdError : Int32
  dataError : Int32
  deriving DecidableEq

/-- An attempt has ended without any error. -/
def Outcome.Fine (outcome : Outcome) : Prop :=
  outcome.ret = 0 ∧ outcome.cmdError = 0 ∧ outcome.dataError = 0

instance (outcome : Outcome) : Decidable outcome.Fine :=
  inferInstanceAs (Decidable (_ ∧ _ ∧ _))

/-- What `OsalSemWait` returns. -/
inductive SemWait where
  | success | failure | timeout | invalidParam
  deriving DecidableEq, Repr

/-- The code that `OsalSemWait` returns. -/
def SemWait.code : SemWait → Int32
  | .success => 0
  | .failure => -1
  | .timeout => -7
  | .invalidParam => -3

/-- What happens to a chunk: whether the device is being detected or is plugged, whether the
message is allocated, what the wait for it returns, and the answers to the attempts. -/
structure Event where
  detecting : Bool
  plugged : Bool
  allocates : Bool
  wait : SemWait
  attempt : ℕ → Outcome

/-- A device, and whether its controller sends stop commands. -/
structure MmcDevice where
  blockAddr : Bool
  cmdStop : Bool
  deriving DecidableEq, Repr

/-- `struct MmcRwData`, with the offset of the buffer. -/
structure MmcRwData where
  buf : ℕ
  writeFlag : Bool
  startSector : ℕ
  sectors : ℕ
  deriving DecidableEq, Repr

/-- The code of a command. -/
inductive CmdCode where
  | readSingleBlock | readMultipleBlock | writeBlock | writeMultipleBlock
  deriving DecidableEq, Repr

/-- `struct MmcCmd`, with its data. -/
structure MmcCmd where
  cmdCode : CmdCode
  argument : UInt32
  blockNum : UInt32
  dataBuffer : ℕ
  sendStopCmd : Bool
  deriving DecidableEq, Repr

/-- `HDF_PLT_ERR_NO_DEV`. -/
def hdfPltErrNoDev : Int32 := -105

/-- `HDF_ERR_MALLOC_FAIL`. -/
def hdfErrMallocFail : Int32 := -6

/-- `MMC_MAX_SECTOR_NUM`. -/
def mmcMaxSectorNum : ℕ := 2048

/-- `MmcSetupReadWriteBlocksCmd`. A stop command that has been asked for stays so. -/
def mmcSetupReadWriteBlocksCmd (mmc : MmcDevice) (info : MmcRwData) (sendStopCmd : Bool) :
    MmcCmd where
  cmdCode :=
    if info.writeFlag then if 1 < info.sectors then .writeMultipleBlock else .writeBlock
    else if 1 < info.sectors then .readMultipleBlock else .readSingleBlock
  argument :=
    if mmc.blockAddr then .ofNat info.startSector else UInt32.ofNat info.startSector <<< 9
  blockNum := .ofNat info.sectors
  dataBuffer := info.buf
  sendStopCmd := sendStopCmd || decide (1 < info.sectors) && mmc.cmdStop

/-- The loop of `MmcCntlrExecRequest`, from an attempt on with some more to come, and what the last
attempt has returned. -/
def execRequestLoop (attempt : ℕ → Outcome) (ret : Int32) (i : ℕ) : ℕ → Int32
  | 0 => ret
  | left + 1 =>
    let outcome := attempt i
    if outcome.ret ≠ 0 then execRequestLoop attempt outcome.ret (i + 1) left
    else if outcome.cmdError ≠ 0 then execRequestLoop attempt outcome.ret (i + 1) left
    else if outcome.dataError ≠ 0 then execRequestLoop attempt outcome.ret (i + 1) left
    else outcome.ret

/-- `MMC_REQUEST_RETRY`. -/
def mmcRequestRetry : ℕ := 3

/-- `MmcCntlrExecRequest`. -/
def mmcCntlrExecRequest (attempt : ℕ → Outcome) : Int32 :=
  execRequestLoop attempt 0 0 mmcRequestRetry

/-- `MmcMsgHandleDefault` for a request. It posts the semaphore of the message. -/
def mmcMsgHandleDefault (attempt : ℕ → Outcome) : Int32 := mmcCntlrExecRequest attempt

/-- `MmcCntlrPostMsg`. The worker of the queue has no use for what the handler returns, and what
is returned here is that of the wait for the semaphore. -/
def mmcCntlrPostMsg (event : Event) : Int32 :=
  let _dropped := mmcMsgHandleDefault event.attempt
  event.wait.code

/-- `MmcCntlrAddMsgToQueue`. -/
def mmcCntlrAddMsgToQueue (event : Event) : Int32 :=
  if ¬event.allocates then hdfErrMallocFail else mmcCntlrPostMsg event

/-- `MmcCntlrAddRequestMsgToQueue`. -/
def mmcCntlrAddRequestMsgToQueue (event : Event) : Int32 :=
  if ¬event.plugged then hdfPltErrNoDev else mmcCntlrAddMsgToQueue event

/-- `MmcSendCmd` with data and one attempt. -/
def mmcSendCmd (outcome : Outcome) : Int32 :=
  if outcome.cmdError ≠ 0 then outcome.cmdError
  else if outcome.dataError ≠ 0 then outcome.dataError
  else 0

/-- `MmcSendReadWriteBlocks`. -/
def mmcSendReadWriteBlocks (event : Event) : Int32 := mmcSendCmd (event.attempt 0)

/-- What a chunk returns. -/
def transferChunk (event : Event) : Int32 :=
  if event.detecting then mmcSendReadWriteBlocks event else mmcCntlrAddRequestMsgToQueue event

/-- A command is made for a chunk. -/
def Event.issues (event : Event) : Bool := event.detecting || event.plugged && event.allocates

/-- How many of the sectors are transferred in a chunk. -/
def chunkSectors (curSec : ℕ) : ℕ :=
  if mmcMaxSectorNum ≤ curSec then mmcMaxSectorNum else curSec

theorem chunkSectors_eq (curSec : ℕ) : chunkSectors curSec = min mmcMaxSectorNum curSec := by
  rw [chunkSectors]
  split
  · rename_i le
    exact (Nat.min_eq_left le).symm
  · rename_i lt
    exact (Nat.min_eq_right (Nat.le_of_not_le lt)).symm

theorem chunkSectors_pos {curSec : ℕ} (positive : 0 < curSec) : 0 < chunkSectors curSec := by
  rw [chunkSectors_eq]
  exact Nat.lt_min.mpr ⟨by decide, positive⟩

/-- The loop of `MmcDeviceRead` and `MmcDeviceWrite`: what it returns, and the commands that it has
made. -/
def transferLoop (mmc : MmcDevice) (events : ℕ → Event) (writeFlag : Bool) (nSec : ℕ)
    (k buf curStartSec curSec : ℕ) (sendStopCmd : Bool) : ℤ × List MmcCmd :=
  let sec := chunkSectors curSec
  let info : MmcRwData := ⟨buf, writeFlag, curStartSec, sec⟩
  -- while a device is being detected, every chunk has its own command and data
  let cmd := mmcSetupReadWriteBlocksCmd mmc info (!(events k).detecting && sendStopCmd)
  let cmds := if (events k).issues then [cmd] else []
  let stopCmd := if (events k).detecting then sendStopCmd else cmd.sendStopCmd
  if transferChunk (events k) ≠ 0 then ((transferChunk (events k)).toInt, cmds)
  else if 0 < curSec - sec then
    let rest := transferLoop mmc events writeFlag nSec (k + 1) (buf + sec * 512)
      (curStartSec + sec) (curSec - sec) stopCmd
    (rest.1, cmds ++ rest.2)
  else (nSec, cmds)
termination_by curSec
decreasing_by
  have more : 0 < curSec - chunkSectors curSec := by assumption
  have positive := chunkSectors_pos (Nat.lt_of_lt_of_le more (Nat.sub_le ..))
  omega

/-- `MmcDeviceRead`. -/
def mmcDeviceRead (mmc : MmcDevice) (events : ℕ → Event) (buf startSec nSec : ℕ) :
    ℤ × List MmcCmd :=
  transferLoop mmc events false nSec 0 buf startSec nSec false

/-- `MmcDeviceWrite`. -/
def mmcDeviceWrite (mmc : MmcDevice) (events : ℕ → Event) (buf startSec nSec : ℕ) :
    ℤ × List MmcCmd :=
  transferLoop mmc events true nSec 0 buf startSec nSec false

/-! ### What a call reports -/

/-- How many attempts are made at a chunk at most. -/
def Event.tries (event : Event) : ℕ := if event.detecting then 1 else mmcRequestRetry

/-- Some attempt at a chunk has ended without any error. -/
def Event.Done (event : Event) : Prop := ∃ i < event.tries, (event.attempt i).Fine

instance (event : Event) : Decidable event.Done :=
  inferInstanceAs (Decidable (∃ i < event.tries, (event.attempt i).Fine))

/-- The sector that a command starts at, the number of its sectors, and its part of the buffer. -/
def MmcDevice.part (mmc : MmcDevice) (cmd : MmcCmd) : ℕ × ℕ × ℕ :=
  (if mmc.blockAddr then cmd.argument.toNat else cmd.argument.toNat / 512, cmd.blockNum.toNat,
    cmd.dataBuffer)

/-- The part of a call that its chunk with an index should transfer. -/
def chunkPart (buf startSec nSec k : ℕ) : ℕ × ℕ × ℕ :=
  (startSec + k * mmcMaxSectorNum, piece mmcMaxSectorNum nSec k, buf + k * mmcMaxSectorNum * 512)

/-- A call tells by the number of sectors that every chunk has been transferred and otherwise by a
negative code that this is not so; and its commands are for the chunks in order, all of them if
it tells that they have been transferred. -/
structure Reports (mmc : MmcDevice) (events : ℕ → Event) (buf startSec nSec : ℕ)
    (result : ℤ × List MmcCmd) : Prop where
  done : result.1 = nSec → ∀ k < pieceCount mmcMaxSectorNum nSec, (events k).Done
  negative : result.1 ≠ nSec → result.1 < 0
  covers : ∃ m ≤ pieceCount mmcMaxSectorNum nSec, (result.1 = nSec →
      m = pieceCount mmcMaxSectorNum nSec) ∧
    result.2.map mmc.part = (List.range m).map (chunkPart buf startSec nSec)

/-- No indicator that the call looks at shows an error of a chunk: while a device is detected the
errors of the command and of the data, and else whether it is plugged, the message is allocated,
and the wait succeeds. -/
def Event.Silent (event : Event) : Prop :=
  if event.detecting then (event.attempt 0).cmdError = 0 ∧ (event.attempt 0).dataError = 0
  else event.plugged ∧ event.allocates ∧ event.wait = .success

instance (event : Event) : Decidable event.Silent :=
  inferInstanceAs (Decidable (if event.detecting then
    (event.attempt 0).cmdError = 0 ∧ (event.attempt 0).dataError = 0
    else event.plugged ∧ event.allocates ∧ event.wait = .success))

/-- The error of a chunk is negative. -/
def Event.Negative (event : Event) : Prop := event.detecting →
  if (event.attempt 0).cmdError = 0 then (event.attempt 0).dataError < 0
  else (event.attempt 0).cmdError < 0

/-- The address of a sector has 32 bits. -/
def MmcDevice.Fits (mmc : MmcDevice) (sector : ℕ) : Prop :=
  sector < if mmc.blockAddr then 2 ^ 32 else 2 ^ 23

/-- The answers of which a call hears: if no indicator shows an error, then there is none; the
first indicator that shows one is negative; and the addresses of the chunks up to there have 32
bits. -/
structure Heard (mmc : MmcDevice) (events : ℕ → Event) (startSec nSec : ℕ) : Prop where
  done : (∀ k < pieceCount mmcMaxSectorNum nSec, (events k).Silent) →
    ∀ k < pieceCount mmcMaxSectorNum nSec, (events k).Done
  negative : ∀ k < pieceCount mmcMaxSectorNum nSec, (∀ j < k, (events j).Silent) →
    ¬(events k).Silent → (events k).Negative
  fits : ∀ k < pieceCount mmcMaxSectorNum nSec, (∀ j < k, (events j).Silent) →
    (events k).issues = true → mmc.Fits (startSec + k * mmcMaxSectorNum)

variable {mmc : MmcDevice} {events : ℕ → Event} {event : Event} {writeFlag : Bool}
  {buf startSec nSec curSec k : ℕ}

theorem transferChunk_eq_zero : transferChunk event = 0 ↔ event.Silent := by
  rw [transferChunk, Event.Silent]
  split
  · rw [mmcSendReadWriteBlocks, mmcSendCmd]
    split
    · simp_all
    · split
      · simp_all
      · simp_all
  · rw [mmcCntlrAddRequestMsgToQueue, mmcCntlrAddMsgToQueue, mmcCntlrPostMsg]
    cases event.plugged with
    | false => simp [hdfPltErrNoDev]
    | true =>
      cases event.allocates with
      | false => simp [hdfErrMallocFail]
      | true => cases event.wait <;> simp [SemWait.code]

theorem Event.Silent.issues (silent : event.Silent) : event.issues = true := by
  rw [Event.Silent] at silent
  rw [Event.issues]
  split at silent
  · rename_i detecting
    rw [detecting, Bool.true_or]
  · rw [silent.1, silent.2.1, Bool.true_and, Bool.or_true]

/-- The part of a call that the command for a chunk transfers. -/
theorem part_setup (mmc : MmcDevice) (buf start sec : ℕ) (writeFlag sendStopCmd : Bool)
    (small : sec ≤ mmcMaxSectorNum) :
    mmc.part (mmcSetupReadWriteBlocksCmd mmc ⟨buf, writeFlag, start, sec⟩ sendStopCmd) =
      (start % (if mmc.blockAddr then 2 ^ 32 else 2 ^ 23), sec, buf) := by
  have num : (UInt32.ofNat sec).toNat = sec := by
    rw [UInt32.toNat_ofNat']
    exact Nat.mod_eq_of_lt (Nat.lt_of_le_of_lt small (by decide))
  rw [MmcDevice.part, mmcSetupReadWriteBlocksCmd]
  dsimp only
  rw [num]
  cases mmc.blockAddr with
  | true => simp
  | false =>
    have shifted : (UInt32.ofNat start <<< 9).toNat / 512 = start % 2 ^ 23 := by
      have nine : (9 : UInt32).toNat % 32 = 9 := rfl
      rw [UInt32.toNat_shiftLeft, UInt32.toNat_ofNat', Nat.shiftLeft_eq, nine]
      omega
    simp only [Bool.false_eq_true, if_false, shifted]

/-- The part that the command for a chunk really transfers, as the address wraps around. -/
def rawPart (mmc : MmcDevice) (buf start cur j : ℕ) : ℕ × ℕ × ℕ :=
  ((start + j * mmcMaxSectorNum) % (if mmc.blockAddr then 2 ^ 32 else 2 ^ 23),
    piece mmcMaxSectorNum cur j, buf + j * mmcMaxSectorNum * 512)

theorem rawPart_zero (mmc : MmcDevice) (buf start cur : ℕ) : rawPart mmc buf start cur 0 =
    (start % (if mmc.blockAddr then 2 ^ 32 else 2 ^ 23), chunkSectors cur, buf) := by
  rw [rawPart, piece_zero, chunkSectors_eq, Nat.zero_mul, Nat.add_zero, Nat.zero_mul, Nat.add_zero]

theorem rawPart_succ (mmc : MmcDevice) (buf start cur j : ℕ) :
    rawPart mmc buf start cur (j + 1) = rawPart mmc (buf + mmcMaxSectorNum * 512)
      (start + mmcMaxSectorNum) (cur - mmcMaxSectorNum) j := by
  have sector : start + (j + 1) * mmcMaxSectorNum =
      start + mmcMaxSectorNum + j * mmcMaxSectorNum := by
    rw [Nat.succ_mul, Nat.add_assoc, Nat.add_comm mmcMaxSectorNum]
  have place : buf + (j + 1) * mmcMaxSectorNum * 512 =
      buf + mmcMaxSectorNum * 512 + j * mmcMaxSectorNum * 512 := by
    rw [Nat.succ_mul, Nat.add_mul, Nat.add_assoc, Nat.add_comm (mmcMaxSectorNum * 512)]
  rw [rawPart, rawPart, piece_succ, sector, place]

theorem map_rawPart_succ (mmc : MmcDevice) (buf start cur m : ℕ) :
    (List.range (m + 1)).map (rawPart mmc buf start cur) = rawPart mmc buf start cur 0 ::
      (List.range m).map (rawPart mmc (buf + mmcMaxSectorNum * 512) (start + mmcMaxSectorNum)
        (cur - mmcMaxSectorNum)) := by
  rw [List.range_succ_eq_map, List.map_cons, List.map_map]
  congr 1
  exact List.map_congr_left fun j _ => rawPart_succ mmc buf start cur j

/-- The command for the first chunk. -/
def firstCmd (mmc : MmcDevice) (event : Event) (writeFlag : Bool) (buf start cur : ℕ)
    (sendStopCmd : Bool) : MmcCmd :=
  mmcSetupReadWriteBlocksCmd mmc ⟨buf, writeFlag, start, chunkSectors cur⟩
    (!event.detecting && sendStopCmd)

theorem part_firstCmd (mmc : MmcDevice) (event : Event) (writeFlag : Bool) (buf start cur : ℕ)
    (sendStopCmd : Bool) : mmc.part (firstCmd mmc event writeFlag buf start cur sendStopCmd) =
      rawPart mmc buf start cur 0 := by
  have small : chunkSectors cur ≤ mmcMaxSectorNum := by
    rw [chunkSectors_eq]
    exact Nat.min_le_left ..
  rw [firstCmd, part_setup mmc buf start _ writeFlag _ small, rawPart_zero]

section

variable (mmc events writeFlag nSec) (k buf start : ℕ) {cur : ℕ} (sendStopCmd : Bool)

/-- The loop ends with a chunk that shows an error. -/
theorem transferLoop_of_error (error : ¬(events k).Silent) :
    transferLoop mmc events writeFlag nSec k buf start cur sendStopCmd =
      ((transferChunk (events k)).toInt, if (events k).issues then
        [firstCmd mmc (events k) writeFlag buf start cur sendStopCmd] else []) := by
  rw [transferLoop]
  exact if_pos fun zero => error (transferChunk_eq_zero.mp zero)

/-- The loop ends with the last chunk. -/
theorem transferLoop_of_last (silent : (events k).Silent) (le : cur ≤ mmcMaxSectorNum) :
    transferLoop mmc events writeFlag nSec k buf start cur sendStopCmd =
      ((nSec : ℤ), [firstCmd mmc (events k) writeFlag buf start cur sendStopCmd]) := by
  have rest : ¬0 < cur - chunkSectors cur := by
    rw [chunkSectors_eq, Nat.min_eq_right le, Nat.sub_self]
    exact Nat.lt_irrefl 0
  rw [transferLoop]
  dsimp only
  rw [if_neg (not_not.mpr (transferChunk_eq_zero.mpr silent)), if_neg rest, if_pos silent.issues]
  rfl

/-- The loop goes on behind a full chunk. A stop command that the data has been set up for stays
there for the chunks that go through the queue. -/
theorem transferLoop_of_lt (silent : (events k).Silent) (lt : mmcMaxSectorNum < cur) :
    transferLoop mmc events writeFlag nSec k buf start cur sendStopCmd =
      ((transferLoop mmc events writeFlag nSec (k + 1) (buf + mmcMaxSectorNum * 512)
          (start + mmcMaxSectorNum) (cur - mmcMaxSectorNum)
          (sendStopCmd || !(events k).detecting && mmc.cmdStop)).1,
        firstCmd mmc (events k) writeFlag buf start cur sendStopCmd ::
          (transferLoop mmc events writeFlag nSec (k + 1) (buf + mmcMaxSectorNum * 512)
            (start + mmcMaxSectorNum) (cur - mmcMaxSectorNum)
            (sendStopCmd || !(events k).detecting && mmc.cmdStop)).2) := by
  have full : chunkSectors cur = mmcMaxSectorNum := by
    rw [chunkSectors_eq, Nat.min_eq_left (Nat.le_of_lt lt)]
  have rest : 0 < cur - mmcMaxSectorNum := Nat.sub_pos_of_lt lt
  have several : decide (1 < mmcMaxSectorNum) = true := rfl
  have stop : (if (events k).detecting then sendStopCmd else
      (firstCmd mmc (events k) writeFlag buf start cur sendStopCmd).sendStopCmd) =
        (sendStopCmd || !(events k).detecting && mmc.cmdStop) := by
    rw [firstCmd, mmcSetupReadWriteBlocksCmd]
    dsimp only
    rw [full, several]
    cases (events k).detecting <;> simp
  rw [transferLoop]
  dsimp only
  rw [← stop, firstCmd, full, if_neg (not_not.mpr (transferChunk_eq_zero.mpr silent)),
    if_pos rest, if_pos silent.issues]
  rfl

end

/-- A chunk is the first one that shows an error, or none of them does. -/
def Ends (mmc : MmcDevice) (events : ℕ → Event) (nSec k buf start cur : ℕ)
    (code : ℤ) (parts : List (ℕ × ℕ × ℕ)) : Prop :=
  (∃ j < pieceCount mmcMaxSectorNum cur, (∀ i < j, (events (k + i)).Silent) ∧
    ¬(events (k + j)).Silent ∧ code = (transferChunk (events (k + j))).toInt ∧
    parts = (List.range (j + if (events (k + j)).issues then 1 else 0)).map
      (rawPart mmc buf start cur)) ∨
  (∀ i < pieceCount mmcMaxSectorNum cur, (events (k + i)).Silent) ∧ code = nSec ∧
    parts = (List.range (pieceCount mmcMaxSectorNum cur)).map (rawPart mmc buf start cur)

/-- A silent chunk before the others. -/
theorem Ends.cons {start cur : ℕ} {code : ℤ} {parts : List (ℕ × ℕ × ℕ)}
    (silent : (events k).Silent) (lt : mmcMaxSectorNum < cur)
    (ends : Ends mmc events nSec (k + 1) (buf + mmcMaxSectorNum * 512) (start + mmcMaxSectorNum)
      (cur - mmcMaxSectorNum) code parts) :
    Ends mmc events nSec k buf start cur code (rawPart mmc buf start cur 0 :: parts) := by
  have shift (i : ℕ) : k + 1 + i = k + (i + 1) := by omega
  have count := pieceCount_of_lt lt (by decide)
  have all {m : ℕ} (before : ∀ i < m, (events (k + 1 + i)).Silent) :
      ∀ i < m + 1, (events (k + i)).Silent := by
    intro i below
    cases i with
    | zero => exact silent
    | succ i =>
      rw [← shift]
      exact before i (Nat.lt_of_succ_lt_succ below)
  rcases ends with ⟨j, inside, before, error, rfl, rfl⟩ | ⟨before, rfl, rfl⟩
  · refine .inl ⟨j + 1, ?_, all before, ?_, ?_, ?_⟩
    · rw [count]
      exact Nat.succ_lt_succ inside
    · rwa [← shift]
    · rw [shift]
    · rw [← shift j, Nat.add_right_comm j 1, map_rawPart_succ]
  · refine .inr ⟨?_, rfl, ?_⟩
    · rw [count]
      exact all before
    · rw [count, map_rawPart_succ]

/-- What the loop does. -/
theorem transferLoop_ends (mmc : MmcDevice) (events : ℕ → Event) (writeFlag : Bool) (nSec : ℕ)
    (cur : ℕ) : ∀ (k buf start : ℕ) (sendStopCmd : Bool),
      Ends mmc events nSec k buf start cur
        (transferLoop mmc events writeFlag nSec k buf start cur sendStopCmd).1
        ((transferLoop mmc events writeFlag nSec k buf start cur sendStopCmd).2.map mmc.part) := by
  induction cur using Nat.strong_induction_on with
  | h cur ih =>
    intro k buf start sendStopCmd
    by_cases silent : (events k).Silent
    · by_cases le : cur ≤ mmcMaxSectorNum
      · have one := pieceCount_of_le le (by decide)
        rw [transferLoop_of_last mmc events writeFlag nSec k buf start sendStopCmd silent le]
        refine .inr ⟨fun i below => ?_, rfl, ?_⟩
        · rw [one] at below
          rwa [Nat.lt_one_iff.mp below]
        · rw [one, List.map_singleton, part_firstCmd]
          rfl
      · have lt := Nat.not_le.mp le
        have more := transferLoop_of_lt mmc events writeFlag nSec k buf start sendStopCmd silent lt
        rw [more, List.map_cons, part_firstCmd]
        refine (ih _ ?_ (k + 1) _ _ _).cons silent lt
        exact Nat.sub_lt (Nat.zero_lt_of_lt lt) (by decide)
    · rw [transferLoop_of_error mmc events writeFlag nSec k buf start sendStopCmd silent]
      refine .inl ⟨0, Nat.succ_pos _, fun i below => absurd below (Nat.not_lt_zero i),
        silent, rfl, ?_⟩
      rw [Nat.zero_add, Nat.add_zero]
      split
      · rw [List.map_singleton, part_firstCmd]
        rfl
      · rfl

/-- The commands are for the right parts if and only if their addresses have 32 bits. -/
theorem map_rawPart_eq_iff (mmc : MmcDevice) (buf startSec nSec m m' : ℕ) :
    (List.range m).map (rawPart mmc buf startSec nSec) =
        (List.range m').map (chunkPart buf startSec nSec) ↔
      m = m' ∧ ∀ i < m, mmc.Fits (startSec + i * mmcMaxSectorNum) := by
  have one (i : ℕ) : rawPart mmc buf startSec nSec i = chunkPart buf startSec nSec i ↔
      mmc.Fits (startSec + i * mmcMaxSectorNum) := by
    have positive : 0 < if mmc.blockAddr then 2 ^ 32 else 2 ^ 23 := by
      split <;> decide
    rw [rawPart, chunkPart, Prod.mk.injEq, MmcDevice.Fits]
    exact ⟨fun same => Nat.mod_eq_iff_lt (Nat.ne_of_gt positive) |>.mp same.1,
      fun fits => ⟨Nat.mod_eq_of_lt fits, rfl⟩⟩
  constructor
  · intro same
    have length := congrArg List.length same
    simp only [List.length_map, List.length_range] at length
    subst length
    exact ⟨rfl, fun i below =>
      (one i).mp (List.map_inj_left.mp same i (List.mem_range.mpr below))⟩
  · rintro ⟨rfl, fits⟩
    exact List.map_congr_left fun i member => (one i).mpr (fits i (List.mem_range.mp member))

theorem negative_iff (error : ¬event.Silent) :
    (transferChunk event).toInt < 0 ↔ event.Negative := by
  rw [Event.Silent] at error
  rw [Event.Negative, transferChunk]
  split
  · rename_i detecting
    rw [if_pos detecting] at error
    rw [mmcSendReadWriteBlocks, mmcSendCmd]
    have negative (code : Int32) : code.toInt < 0 ↔ code < 0 := by
      rw [Int32.lt_iff_toInt_lt]
      rfl
    by_cases cmd : (event.attempt 0).cmdError = 0
    · have data : (event.attempt 0).dataError ≠ 0 := fun zero => error ⟨cmd, zero⟩
      rw [if_neg (not_not.mpr cmd), if_pos data, if_pos cmd, negative]
      exact ⟨fun less _ => less, fun less => less detecting⟩
    · rw [if_pos cmd, if_neg cmd, negative]
      exact ⟨fun less _ => less, fun less => less detecting⟩
  · rename_i queued
    rw [if_neg queued] at error
    refine iff_of_true ?_ fun detecting => absurd detecting queued
    rw [mmcCntlrAddRequestMsgToQueue, mmcCntlrAddMsgToQueue, mmcCntlrPostMsg]
    split
    · decide
    · rename_i plugged
      split
      · decide
      · rename_i allocates
        cases wait : event.wait with
        | success => exact absurd ⟨not_not.mp plugged, not_not.mp allocates, wait⟩ error
        | failure | timeout | invalidParam => decide

/-- While a device is detected, a chunk that has been transferred shows no error. -/
theorem Event.Done.silent (detecting : event.detecting = true) (done : event.Done) :
    event.Silent := by
  obtain ⟨i, below, fine⟩ := done
  rw [Event.tries, if_pos detecting] at below
  rw [Event.Silent, if_pos detecting, ← Nat.lt_one_iff.mp below]
  exact fine.2

theorem Ends.reports_iff_heard (positive : 0 < nSec) {result : ℤ × List MmcCmd}
    (ends : Ends mmc events nSec 0 buf startSec nSec result.1 (result.2.map mmc.part)) :
    Reports mmc events buf startSec nSec result ↔ Heard mmc events startSec nSec := by
  rw [Ends] at ends
  simp only [Nat.zero_add] at ends
  rcases ends with ⟨j, inside, before, error, code, parts⟩ | ⟨all, code, parts⟩
  · have first {k : ℕ} (silent : ∀ i < k, (events i).Silent) : k ≤ j :=
      Nat.not_lt.mp fun lt => error (silent j lt)
    constructor
    · intro reports
      obtain ⟨m, le, -, same⟩ := reports.covers
      rw [parts, map_rawPart_eq_iff] at same
      refine ⟨fun all => absurd (all j inside) error, fun k below silent shows => ?_,
        fun k below silent issues => same.2 k ?_⟩
      · have here : k = j := Nat.le_antisymm (first silent)
          (Nat.not_lt.mp fun lt => shows (before k lt))
        subst here
        refine fun detecting => (negative_iff shows).mp ?_ detecting
        rw [← code]
        exact reports.negative fun same =>
          shows ((reports.done same k below).silent detecting)
      · rcases Nat.lt_or_eq_of_le (first silent) with lt | rfl
        · exact Nat.lt_add_right _ lt
        · rw [if_pos issues]
          exact Nat.lt_succ_self k
    · intro heard
      have negative : result.1 < 0 := by
        rw [code]
        exact (negative_iff error).mpr (heard.negative j inside before error)
      have differs : result.1 ≠ nSec := by omega
      refine ⟨fun same => absurd same differs, fun _ => negative, _, ?_,
        fun same => absurd same differs, parts.trans
          ((map_rawPart_eq_iff mmc buf startSec nSec _ _).mpr ⟨rfl, fun i below => ?_⟩)⟩
      · split
        · exact inside
        · exact Nat.le_of_lt inside
      · rcases Nat.lt_trichotomy i j with lt | rfl | gt
        · exact heard.fits i (Nat.lt_trans lt inside)
            (fun i' lt' => before i' (Nat.lt_trans lt' lt))
            (before i lt).issues
        · refine heard.fits i inside before ?_
          by_contra no
          rw [if_neg no] at below
          exact Nat.lt_irrefl _ below
        · split at below
          · exact absurd gt (Nat.not_lt.mpr (Nat.le_of_lt_succ below))
          · exact absurd gt (Nat.lt_asymm below)
  · constructor
    · intro reports
      obtain ⟨m, -, -, same⟩ := reports.covers
      rw [parts, map_rawPart_eq_iff] at same
      exact ⟨fun _ => reports.done code, fun k below _ shows => absurd (all k below) shows,
        fun k below _ _ => same.2 k below⟩
    · intro heard
      refine ⟨fun _ => heard.done all, fun differs => absurd code differs, _, Nat.le_refl _,
        fun _ => rfl, parts.trans ((map_rawPart_eq_iff mmc buf startSec nSec _ _).mpr
          ⟨rfl, fun i below => ?_⟩)⟩
      exact heard.fits i below (fun i' lt => all i' (Nat.lt_trans lt below)) (all i below).issues

/-- A call reports its results if and only if it hears all errors. -/
theorem reports_iff (mmc : MmcDevice) (events : ℕ → Event) (buf startSec : ℕ)
    (positive : 0 < nSec) :
    (Reports mmc events buf startSec nSec (mmcDeviceRead mmc events buf startSec nSec) ↔
      Heard mmc events startSec nSec) ∧
    (Reports mmc events buf startSec nSec (mmcDeviceWrite mmc events buf startSec nSec) ↔
      Heard mmc events startSec nSec) :=
  ⟨(transferLoop_ends mmc events false nSec nSec 0 buf startSec false).reports_iff_heard positive,
    (transferLoop_ends mmc events true nSec nSec 0 buf startSec false).reports_iff_heard positive⟩

/-! ### Some calls -/

/-- A device with block addresses. -/
def sdhc : MmcDevice := ⟨true, false⟩

/-- A device with byte addresses. -/
def sdsc : MmcDevice := ⟨false, false⟩

/-- A chunk in the queue, all attempts at which have the same answer. -/
def queued (outcome : Outcome) : Event := ⟨false, true, true, .success, fun _ => outcome⟩

/-- A chunk that is transferred while the device is detected. -/
def direct (outcome : Outcome) : Event := ⟨true, true, true, .success, fun _ => outcome⟩

theorem reports_twoChunks :
    Reports sdhc (fun _ => queued ⟨0, 0, 0⟩) 0 100 3000
        (mmcDeviceRead sdhc (fun _ => queued ⟨0, 0, 0⟩) 0 100 3000) ∧
      pieceCount mmcMaxSectorNum 3000 = 2 :=
  ⟨(reports_iff sdhc (fun _ => queued ⟨0, 0, 0⟩) 0 100 (by decide)).1.mpr
    ⟨fun _ _ _ => by decide, fun _ _ _ shows => absurd (by decide) shows, fun k below _ _ => by
      have two : k < 2 := below
      rw [MmcDevice.Fits, sdhc, mmcMaxSectorNum, if_pos rfl]
      omega⟩, rfl⟩

/-- In the queue every error is lost, and while a device is detected the error that the callback
returns. And the address of a sector is truncated. -/
theorem drops_errors :
    (mmcDeviceRead sdhc (fun _ => queued ⟨-1, -1, -1⟩) 0 0 1).1 = 1 ∧ ¬(queued ⟨-1, -1, -1⟩).Done ∧
    (mmcDeviceRead sdhc (fun _ => direct ⟨-1, 0, 0⟩) 0 0 1).1 = 1 ∧ ¬(direct ⟨-1, 0, 0⟩).Done ∧
    mmcDeviceWrite sdsc (fun _ => queued ⟨0, 0, 0⟩) 0 (2 ^ 23) 1 =
      (1, [⟨.writeBlock, 0, 1, 0, false⟩]) := by
  have last (mmc : MmcDevice) (event : Event) (writeFlag : Bool) (start : ℕ)
      (silent : event.Silent) := transferLoop_of_last mmc (fun _ => event) writeFlag 1 0 0 start
        false silent (show 1 ≤ mmcMaxSectorNum by decide)
  refine ⟨?_, by decide, ?_, by decide, ?_⟩
  · rw [mmcDeviceRead, last _ _ _ _ (by decide)]
    rfl
  · rw [mmcDeviceRead, last _ _ _ _ (by decide)]
    rfl
  · rw [mmcDeviceWrite, last _ _ _ _ (by decide)]
    decide

end Hdf.Storage.Mmc
