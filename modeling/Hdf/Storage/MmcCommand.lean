import Hdf.Storage.MmcErase
import Mathlib.Tactic.IntervalCases

/-!
# Sending a command to an MMC device

A command is sent up to a number of times. Each attempt has three indicators of an error: what the
callback of the controller returns, and the errors that it leaves in the command and in its data.

What the controller answers to each attempt comes with the call.

## Main results

* `attemptsMade_spec`: the attempts end with the first one without any error
* `sends_iff`: success is that of an attempt exactly if the last attempt of a command that has none
  leaves an error
-/

namespace Hdf.Storage.Mmc.Command

/-- An attempt has ended without any error, in the data if there are any. -/
def FineFor (withData : Bool) (outcome : Outcome) : Prop :=
  outcome.ret = 0 ∧ outcome.cmdError = 0 ∧ (withData = true → outcome.dataError = 0)

instance (withData : Bool) (outcome : Outcome) : Decidable (FineFor withData outcome) :=
  inferInstanceAs (Decidable (_ ∧ _ ∧ (_ → _)))

/-- `HDF_ERR_INVALID_PARAM`. -/
def hdfErrInvalidParam : Int32 := -3

/-- `HDF_ERR_TIMEOUT`. -/
def hdfErrTimeout : Int32 := -7

/-- The loop of `MmcSendCmd`, from an attempt on with some more to come: how many attempts have
been made in the end. -/
def attemptsMade (withData : Bool) (attempt : ℕ → Outcome) (i : ℕ) : ℕ → ℕ
  | 0 => i
  | left + 1 =>
    if (attempt i).ret ≠ 0 then attemptsMade withData attempt (i + 1) left
    else if (attempt i).cmdError ≠ 0 then attemptsMade withData attempt (i + 1) left
    else if withData ∧ (attempt i).dataError ≠ 0 then attemptsMade withData attempt (i + 1) left
    else i + 1

/-- What `MmcSendCmd` returns after its loop. -/
def returnedError (withData : Bool) (outcome : Outcome) : Int32 :=
  if ¬withData then outcome.cmdError
  else if outcome.cmdError ≠ 0 then outcome.cmdError
  else if outcome.dataError ≠ 0 then outcome.dataError
  else 0

/-- `MmcSendCmd`: what it returns, and how many attempts it has made. -/
def mmcSendCmd (withData : Bool) (attempt : ℕ → Outcome) (retryTimes : UInt32) : Int32 × ℕ :=
  if retryTimes = 0 then (hdfErrInvalidParam, 0)
  else
    let made := attemptsMade withData attempt 0 retryTimes.toNat
    (returnedError withData (attempt (made - 1)), made)

/-- What the controller answers to a command: the attempts, and the response in the end. -/
structure CmdAnswer where
  attempt : ℕ → Outcome
  resp : UInt32

/-- `MMC_CMD_DEFAULT_RETRY_TIMES`. -/
def mmcCmdDefaultRetryTimes : UInt32 := 3

/-- `SEND_STATUS_CMD_RETRY_TIMES`. -/
def sendStatusCmdRetryTimes : ℕ := 100

/-- `READY_FOR_DATA`. -/
def readyForData : UInt32 := (1 : UInt32) <<< 8

/-- `STATE_PRG`. -/
def statePrg : UInt32 := 7

/-- `MMC_CARD_CURRENT_STATE`. -/
def mmcCardCurrentState (status : UInt32) : UInt32 := (status &&& 0x00001E00) >>> 9

/-- A card that can be given the next command. -/
def IsReady (status : UInt32) : Prop :=
  status &&& readyForData ≠ 0 ∧ mmcCardCurrentState status ≠ statePrg

instance (status : UInt32) : Decidable (IsReady status) := inferInstanceAs (Decidable (_ ∧ _))

/-- `MmcSendStatus`. -/
def mmcSendStatus (answer : CmdAnswer) : Int32 × UInt32 :=
  ((mmcSendCmd false answer.attempt mmcCmdDefaultRetryTimes).1, answer.resp)

/-- The loop of `MmcWaitCardReady`, from a command on, with how often it goes on waiting: what it
returns, and the number of the command behind its last one. -/
def waitLoop (answers : ℕ → CmdAnswer) (k left : ℕ) : Int32 × ℕ :=
  if (mmcSendStatus (answers k)).1 ≠ 0 then ((mmcSendStatus (answers k)).1, k + 1)
  else match left with
    | 0 => (hdfErrTimeout, k + 1)
    | left + 1 =>
      if ¬IsReady (mmcSendStatus (answers k)).2 then waitLoop answers (k + 1) left else (0, k + 1)

/-- `MmcWaitCardReady`. The counter goes down from its start to zero. -/
def mmcWaitCardReady (answers : ℕ → CmdAnswer) (k : ℕ) : Int32 × ℕ :=
  waitLoop answers k (sendStatusCmdRetryTimes + 1)

/-- What the commands of `MmcSendErase` return. -/
def eraseAnswers (answers : ℕ → CmdAnswer) : EraseAnswers where
  start := (mmcSendCmd false (answers 0).attempt 1).1
  last := (mmcSendCmd false (answers 1).attempt 1).1
  erase := (mmcSendCmd false (answers 2).attempt 1).1
  ready := (mmcWaitCardReady answers 3).1

/-- `MmcSendErase`: what it returns, and the number of the commands that it has sent. -/
def mmcSendErase (device : EraseDevice) (answers : ℕ → CmdAnswer) (startSec nSec : ℕ) :
    Int32 × ℕ :=
  let sent := Mmc.mmcSendErase device (eraseAnswers answers) startSec nSec
  let waits := sent.2.length = 3 ∧ (eraseAnswers answers).erase = 0
  (sent.1, if waits then (mmcWaitCardReady answers 3).2 else sent.2.length)

/-- `MmcSendReadWriteBlocks`. -/
def mmcSendReadWriteBlocks (attempt : ℕ → Outcome) : Int32 := (mmcSendCmd true attempt 1).1

/-! ### Success -/

/-- A command succeeds if and only if one of its attempts has ended without any error, and this is
the last one. -/
structure SucceedsByAttempt (withData : Bool) (attempt : ℕ → Outcome) (retryTimes : UInt32) :
    Prop where
  succeeds : (mmcSendCmd withData attempt retryTimes).1 = 0 ↔
    ∃ i < (mmcSendCmd withData attempt retryTimes).2, FineFor withData (attempt i)
  stops : ∀ i < (mmcSendCmd withData attempt retryTimes).2, FineFor withData (attempt i) →
    i + 1 = (mmcSendCmd withData attempt retryTimes).2

/-- One of the attempts ends without any error. -/
def Done (withData : Bool) (attempt : ℕ → Outcome) (tries : ℕ) : Prop :=
  ∃ i < tries, FineFor withData (attempt i)

/-- An attempt leaves an error in the command or in the data. -/
def Shows (withData : Bool) (outcome : Outcome) : Prop :=
  outcome.cmdError ≠ 0 ∨ withData = true ∧ outcome.dataError ≠ 0

instance (withData : Bool) (outcome : Outcome) : Decidable (Shows withData outcome) :=
  inferInstanceAs (Decidable (_ ∨ _ ∧ _))

/-- If no attempt ends without any error, then the last one leaves an error. -/
def Heard (withData : Bool) (attempt : ℕ → Outcome) (tries : ℕ) : Prop :=
  Done withData attempt tries ∨ Shows withData (attempt (tries - 1))

/-- An attempt ends without any error, or the last one leaves no error. -/
def Silent (withData : Bool) (attempt : ℕ → Outcome) (tries : ℕ) : Prop :=
  Done withData attempt tries ∨ ¬Shows withData (attempt (tries - 1))

/-- How often a command of `MmcSendErase` is tried. -/
def eraseTries (k : ℕ) : ℕ := if k < 3 then 1 else mmcCmdDefaultRetryTimes.toNat

/-- Sectors are erased successfully only if each of the commands has succeeded. -/
def ErasesByAttempts (device : EraseDevice) (answers : ℕ → CmdAnswer) (startSec nSec : ℕ) : Prop :=
  (mmcSendErase device answers startSec nSec).1 = 0 →
    ∀ k < (mmcSendErase device answers startSec nSec).2,
      Done false (answers k).attempt (eraseTries k)

/-- Blocks are transferred successfully only if the command has succeeded. -/
def TransfersByAttempt (attempt : ℕ → Outcome) : Prop :=
  mmcSendReadWriteBlocks attempt = 0 → Done true attempt 1

/-- The device erases, and there are groups to be erased. -/
def Erases (device : EraseDevice) (startSec nSec : ℕ) : Prop :=
  device.eraseSize ≠ 0 ∧ device.ccc &&& mmcCsdCccErase ≠ 0 ∧
    (mmcAlignEraseSize device.eraseSize (startSec % 2 ^ 32) (nSec % 2 ^ 32)).isSome = true

/-- If no command up to the one after which the card is ready shows an error, then each of them
has succeeded. -/
def EraseHeard (device : EraseDevice) (answers : ℕ → CmdAnswer) (startSec nSec : ℕ) : Prop :=
  Erases device startSec nSec → ∀ m ≤ sendStatusCmdRetryTimes,
    (∀ j < m, ¬IsReady (answers (3 + j)).resp) → IsReady (answers (3 + m)).resp →
    (∀ k ≤ 3 + m, Silent false (answers k).attempt (eraseTries k)) →
    ∀ k ≤ 3 + m, Done false (answers k).attempt (eraseTries k)

/-! ### Attempts -/

section

variable {withData : Bool} {attempt : ℕ → Outcome} {i j left : ℕ}

theorem attemptsMade_succ : attemptsMade withData attempt i (left + 1) =
    if FineFor withData (attempt i) then i + 1 else attemptsMade withData attempt (i + 1) left := by
  have fine : FineFor withData (attempt i) ↔ (attempt i).ret = 0 ∧ (attempt i).cmdError = 0 ∧
    (withData = true → (attempt i).dataError = 0) := Iff.rfl
  rw [attemptsMade]
  grind

/-- The attempts end with the first one without any error, or when no more are allowed. -/
theorem attemptsMade_spec : i ≤ attemptsMade withData attempt i left ∧
    attemptsMade withData attempt i left ≤ i + left ∧
    (∀ j, i ≤ j → j + 1 < attemptsMade withData attempt i left →
      ¬FineFor withData (attempt j)) ∧
    (attemptsMade withData attempt i left = i + left ∨ i < attemptsMade withData attempt i left ∧
      FineFor withData (attempt (attemptsMade withData attempt i left - 1))) := by
  induction left generalizing i with
  | zero =>
    rw [attemptsMade]
    exact ⟨le_rfl, le_rfl, fun j le lt => absurd lt (by omega), .inl rfl⟩
  | succ left ih =>
    rw [attemptsMade_succ]
    by_cases fine : FineFor withData (attempt i)
    · rw [if_pos fine]
      exact ⟨by omega, by omega, fun j le lt => absurd lt (by omega), .inr ⟨by omega, fine⟩⟩
    · rw [if_neg fine]
      obtain ⟨le, most, before, ends⟩ := ih (i := i + 1)
      refine ⟨by omega, by omega, fun j from_i lt => ?_, ?_⟩
      · obtain rfl | later := from_i.eq_or_lt
        · exact fine
        · exact before j later lt
      · obtain all | ⟨some, last⟩ := ends
        · exact .inl (by omega)
        · exact .inr ⟨by omega, last⟩

variable {retryTimes : UInt32}

theorem returnedError_eq_zero {outcome : Outcome} :
    returnedError withData outcome = 0 ↔ ¬Shows withData outcome := by
  rw [returnedError, Shows]
  grind

theorem not_shows_of_fineFor {outcome : Outcome} (fine : FineFor withData outcome) :
    ¬Shows withData outcome := by
  rintro (command | ⟨given, data⟩)
  · exact command fine.2.1
  · exact data (fine.2.2 given)

/-- What the attempts of a command come to. -/
theorem mmcSendCmd_spec (positive : 0 < retryTimes) :
    (∀ i < (mmcSendCmd withData attempt retryTimes).2, FineFor withData (attempt i) →
      i + 1 = (mmcSendCmd withData attempt retryTimes).2) ∧
    ((∃ i < (mmcSendCmd withData attempt retryTimes).2, FineFor withData (attempt i)) ↔
      Done withData attempt retryTimes.toNat) ∧
    ((mmcSendCmd withData attempt retryTimes).1 = 0 ↔ Done withData attempt retryTimes.toNat ∨
      ¬Shows withData (attempt (retryTimes.toNat - 1))) := by
  have some : retryTimes ≠ 0 := by
    rintro rfl
    exact UInt32.lt_irrefl 0 positive
  have count : 0 < retryTimes.toNat := UInt32.lt_iff_toNat_lt.mp positive
  obtain ⟨-, most, before, ends⟩ :=
    @attemptsMade_spec withData attempt 0 retryTimes.toNat
  rw [mmcSendCmd, if_neg some]
  dsimp only
  generalize attemptsMade withData attempt 0 retryTimes.toNat = made at most before ends
  rw [Nat.zero_add] at most ends
  -- a fine attempt is the last one that has been made
  have last : ∀ i < made, FineFor withData (attempt i) → i + 1 = made := by
    intro i lt fine
    by_contra other
    exact before i (Nat.zero_le i) (by omega) fine
  have same : (∃ i < made, FineFor withData (attempt i)) ↔
      Done withData attempt retryTimes.toNat := by
    constructor
    · rintro ⟨i, lt, fine⟩
      exact ⟨i, by omega, fine⟩
    · rintro ⟨i, lt, fine⟩
      obtain rfl | ⟨some, fine⟩ := ends
      · exact ⟨i, lt, fine⟩
      · exact ⟨made - 1, by omega, fine⟩
  refine ⟨last, same, ?_⟩
  rw [returnedError_eq_zero]
  obtain rfl | ⟨some, fine⟩ := ends
  · constructor
    · exact .inr
    · rintro (⟨i, lt, fine⟩ | silent)
      · have here := last i lt fine
        rw [← here, Nat.add_sub_cancel]
        exact not_shows_of_fineFor fine
      · exact silent
  · exact iff_of_true (not_shows_of_fineFor fine) (.inl ⟨made - 1, by omega, fine⟩)

theorem succeedsByAttempt_iff (positive : 0 < retryTimes) :
    SucceedsByAttempt withData attempt retryTimes ↔ Heard withData attempt retryTimes.toNat := by
  obtain ⟨stops, same, returned⟩ :=
    @mmcSendCmd_spec withData attempt retryTimes positive
  have reports : SucceedsByAttempt withData attempt retryTimes ↔
      (Done withData attempt retryTimes.toNat ∨
        ¬Shows withData (attempt (retryTimes.toNat - 1)) ↔
          Done withData attempt retryTimes.toNat) := by
    rw [← returned, ← same]
    exact ⟨fun succeeds => succeeds.succeeds, fun succeeds => ⟨succeeds, stops⟩⟩
  rw [reports, Heard]
  by_cases shows_last : Shows withData (attempt (retryTimes.toNat - 1)) <;> simp [shows_last]

theorem mmcSendCmd_one : (mmcSendCmd withData attempt 1).1 = 0 ↔ ¬Shows withData (attempt 0) := by
  obtain ⟨-, -, returned⟩ :=
    @mmcSendCmd_spec withData attempt 1 (by decide)
  rw [returned]
  refine or_iff_right_of_imp ?_
  rintro ⟨i, lt, fine⟩
  obtain rfl : i = 0 := Nat.lt_one_iff.mp lt
  exact not_shows_of_fineFor fine

theorem transfersByAttempt_iff : TransfersByAttempt attempt ↔ Heard true attempt 1 := by
  rw [TransfersByAttempt, mmcSendReadWriteBlocks, mmcSendCmd_one, Heard]
  by_cases shows_last : Shows true (attempt 0) <;> simp [shows_last]

end

/-! ### Waiting for the card -/

section

variable {answers : ℕ → CmdAnswer} {device : EraseDevice} {startSec nSec k m left : ℕ}

theorem mmcSendStatus_eq_zero (answer : CmdAnswer) : (mmcSendStatus answer).1 = 0 ↔
    Silent false answer.attempt mmcCmdDefaultRetryTimes.toNat :=
  (mmcSendCmd_spec (by decide)).2.2

theorem waitLoop_of_error
    (fails : ¬Silent false (answers k).attempt mmcCmdDefaultRetryTimes.toNat) :
    (waitLoop answers k left).1 ≠ 0 := by
  have error : (mmcSendStatus (answers k)).1 ≠ 0 := fun zero =>
    fails ((mmcSendStatus_eq_zero _).mp zero)
  unfold waitLoop
  rw [if_pos error]
  exact error

theorem waitLoop_zero : (waitLoop answers k 0).1 ≠ 0 := by
  rw [waitLoop]
  split
  · assumption
  · change hdfErrTimeout ≠ 0
    decide

theorem waitLoop_succ (silent : Silent false (answers k).attempt mmcCmdDefaultRetryTimes.toNat) :
    waitLoop answers k (left + 1) =
      if IsReady (answers k).resp then (0, k + 1) else waitLoop answers (k + 1) left := by
  have zero := (mmcSendStatus_eq_zero _).mpr silent
  rw [waitLoop, if_neg (not_not_intro zero)]
  exact ite_not ..

/-- No command from one on shows an error up to the first one after which the card is ready. -/
structure ReadyAfter (answers : ℕ → CmdAnswer) (k m : ℕ) : Prop where
  silent : ∀ j ≤ m, Silent false (answers (k + j)).attempt mmcCmdDefaultRetryTimes.toNat
  busy : ∀ j < m, ¬IsReady (answers (k + j)).resp
  ready : IsReady (answers (k + m)).resp

theorem waitLoop_of_readyAfter (after : ReadyAfter answers k m) (lt : m < left) :
    waitLoop answers k left = (0, k + m + 1) := by
  obtain ⟨silent, busy, ready⟩ := after
  induction m generalizing k left with
  | zero =>
    obtain ⟨left, rfl⟩ := Nat.exists_eq_add_of_lt lt
    have first : Silent false (answers k).attempt _ := silent 0 le_rfl
    have ready : IsReady (answers k).resp := ready
    rw [Nat.zero_add, waitLoop_succ first, if_pos ready, Nat.add_zero]
  | succ m ih =>
    obtain ⟨left, rfl⟩ := Nat.exists_eq_add_one_of_ne_zero (Nat.ne_zero_of_lt lt)
    -- the commands from the next one on
    have shift (j : ℕ) : k + 1 + j = k + (j + 1) := by omega
    have first : Silent false (answers k).attempt _ := silent 0 (Nat.zero_le _)
    have waits : ¬IsReady (answers k).resp := busy 0 (Nat.succ_pos m)
    rw [waitLoop_succ first, if_neg waits, ih (Nat.lt_of_succ_lt_succ lt)
      (fun j le => shift j ▸ silent (j + 1) (Nat.succ_le_succ le))
      (fun j lt => shift j ▸ busy (j + 1) (Nat.succ_lt_succ lt))
      (shift m ▸ ready), shift]

theorem exists_readyAfter (zero : (waitLoop answers k left).1 = 0) :
    ∃ m < left, ReadyAfter answers k m := by
  induction left generalizing k with
  | zero => exact absurd zero waitLoop_zero
  | succ left ih =>
    by_cases first : Silent false (answers k).attempt mmcCmdDefaultRetryTimes.toNat
    swap
    · exact absurd zero (waitLoop_of_error first)
    rw [waitLoop_succ first] at zero
    by_cases ready : IsReady (answers k).resp
    · refine ⟨0, Nat.succ_pos left, ⟨fun j le => ?_, fun j lt => absurd lt (Nat.not_lt_zero j),
        ready⟩⟩
      rw [Nat.le_zero.mp le]
      exact first
    · rw [if_neg ready] at zero
      obtain ⟨m, lt, silent, busy, last⟩ := ih zero
      have shift (j : ℕ) : k + 1 + j = k + (j + 1) := by omega
      refine ⟨m + 1, Nat.succ_lt_succ lt, ⟨fun j le => ?_, fun j lt => ?_, shift m ▸ last⟩⟩
      · cases j with
        | zero => exact first
        | succ j => exact shift j ▸ silent j (Nat.le_of_succ_le_succ le)
      · cases j with
        | zero => exact ready
        | succ j => exact shift j ▸ busy j (Nat.lt_of_succ_lt_succ lt)

/-! ### Erasing -/

/-- No command of an erase shows an error up to the one after which the card is ready. -/
structure Erased (answers : ℕ → CmdAnswer) (m : ℕ) : Prop where
  silent : ∀ k ≤ 3 + m, Silent false (answers k).attempt (eraseTries k)
  busy : ∀ j < m, ¬IsReady (answers (3 + j)).resp
  ready : IsReady (answers (3 + m)).resp

theorem silent_one : (mmcSendCmd false (answers k).attempt 1).1 = 0 ↔
    Silent false (answers k).attempt 1 :=
  (mmcSendCmd_spec (by decide)).2.2

/-- The commands of an erase that does something. -/
theorem mmcSendErase_eq (erases : Erases device startSec nSec) :
    mmcSendErase device answers startSec nSec =
      if (eraseAnswers answers).start ≠ 0 then ((eraseAnswers answers).start, 1)
      else if (eraseAnswers answers).last ≠ 0 then ((eraseAnswers answers).last, 2)
      else if (eraseAnswers answers).erase ≠ 0 then ((eraseAnswers answers).erase, 3)
      else mmcWaitCardReady answers 3 := by
  obtain ⟨size, command_class, groups⟩ := erases
  obtain ⟨⟨start, last⟩, aligned⟩ := Option.isSome_iff_exists.mp groups
  rw [mmcSendErase, Mmc.mmcSendErase, if_neg (by tauto), aligned]
  dsimp only
  split_ifs <;> simp_all [eraseCmds, eraseAnswers]

theorem mmcSendErase_of_not_erases (none : ¬Erases device startSec nSec) :
    (mmcSendErase device answers startSec nSec).2 = 0 := by
  rw [mmcSendErase, Mmc.mmcSendErase]
  split
  · rfl
  · rename_i supported
    obtain aligned | ⟨range, aligned⟩ := Option.eq_none_or_eq_some
      (mmcAlignEraseSize device.eraseSize (startSec % 2 ^ 32) (nSec % 2 ^ 32))
    · rw [aligned]
      rfl
    · push Not at supported
      exact absurd ⟨supported.1, supported.2, by rw [aligned]; rfl⟩ none

theorem mmcSendErase_of_erased (erases : Erases device startSec nSec) (erased : Erased answers m)
    (le : m ≤ sendStatusCmdRetryTimes) :
    mmcSendErase device answers startSec nSec = (0, 3 + m + 1) := by
  have one (k : ℕ) (lt : k < 3) : (mmcSendCmd false (answers k).attempt 1).1 = 0 := by
    have silent := erased.silent k (by omega)
    rw [eraseTries, if_pos lt] at silent
    exact silent_one.mpr silent
  have after : ReadyAfter answers 3 m := by
    refine ⟨fun j le => ?_, erased.busy, erased.ready⟩
    have silent := erased.silent (3 + j) (by omega)
    rwa [eraseTries, if_neg (by omega)] at silent
  rw [mmcSendErase_eq erases, eraseAnswers, one 0 (by decide), one 1 (by decide),
    one 2 (by decide), mmcWaitCardReady, waitLoop_of_readyAfter after (Nat.lt_succ_of_le le)]
  rfl

theorem exists_erased (erases : Erases device startSec nSec)
    (zero : (mmcSendErase device answers startSec nSec).1 = 0) :
    ∃ m ≤ sendStatusCmdRetryTimes, Erased answers m := by
  rw [mmcSendErase_eq erases] at zero
  split_ifs at zero with start last erase
  all_goals try contradiction
  push Not at start last erase
  obtain ⟨m, lt, silent, busy, ready⟩ := exists_readyAfter zero
  refine ⟨m, Nat.le_of_lt_succ lt, ⟨fun k le => ?_, busy, ready⟩⟩
  rw [eraseTries]
  by_cases command : k < 3
  · rw [if_pos command]
    apply silent_one.mp
    interval_cases k
    · exact start
    · exact last
    · exact erase
  · rw [if_neg command]
    obtain ⟨j, rfl⟩ := Nat.exists_eq_add_of_le (Nat.not_lt.mp command)
    exact silent j (by omega)

theorem erasesByAttempts_iff : ErasesByAttempts device answers startSec nSec ↔
    EraseHeard device answers startSec nSec := by
  by_cases erases : Erases device startSec nSec
  · constructor
    · intro honest _ m le busy ready silent k le_k
      have sent := mmcSendErase_of_erased erases ⟨silent, busy, ready⟩ le
      rw [ErasesByAttempts, sent] at honest
      exact honest rfl k (Nat.lt_succ_of_le le_k)
    · intro heard zero
      obtain ⟨m, le, erased⟩ := exists_erased erases zero
      rw [mmcSendErase_of_erased erases erased le]
      intro k lt
      exact heard erases m le erased.busy erased.ready erased.silent k (Nat.le_of_lt_succ lt)
  · refine iff_of_true (fun _ k lt => ?_) fun some => absurd some erases
    rw [mmcSendErase_of_not_erases erases] at lt
    exact absurd lt (Nat.not_lt_zero k)

end

/-- Success is that of an attempt exactly if the last attempt of a command that has none leaves an
error; for a sequence, if this is so for its commands or one of them shows an error. -/
theorem sends_iff (withData : Bool) (attempt : ℕ → Outcome) {retryTimes : UInt32}
    (positive : 0 < retryTimes) (device : EraseDevice) (answers : ℕ → CmdAnswer)
    (startSec nSec : ℕ) :
    (SucceedsByAttempt withData attempt retryTimes ↔
      Heard withData attempt retryTimes.toNat) ∧
    (ErasesByAttempts device answers startSec nSec ↔ EraseHeard device answers startSec nSec) ∧
    (TransfersByAttempt attempt ↔ Heard true attempt 1) :=
  ⟨succeedsByAttempt_iff positive, erasesByAttempts_iff, transfersByAttempt_iff⟩

/-- All attempts at the commands have the same answer, after which the card is ready. -/
def always (outcome : Outcome) : ℕ → CmdAnswer := fun _ => ⟨fun _ => outcome, readyForData⟩

/-- A card that erases single sectors. -/
def eraser : EraseDevice := ⟨⟨true, false⟩, true, 1, mmcCsdCccErase⟩

theorem sends_iff_three :
    (SucceedsByAttempt true (fun _ => ⟨-1, -1, 0⟩) 3 ↔ Heard true (fun _ => ⟨-1, -1, 0⟩) 3) ∧
    (ErasesByAttempts eraser (always ⟨0, 0, 0⟩) 0 1 ↔ EraseHeard eraser (always ⟨0, 0, 0⟩) 0 1) ∧
    (TransfersByAttempt (fun _ => ⟨-1, -1, 0⟩) ↔ Heard true (fun _ => ⟨-1, -1, 0⟩) 1) :=
  sends_iff true (fun _ => ⟨-1, -1, 0⟩) (by decide : (0 : UInt32) < 3) eraser (always ⟨0, 0, 0⟩) 0 1

/-- The callback fails at every attempt without leaving an error: all calls succeed. -/
theorem failure_reported_as_success :
    ¬SucceedsByAttempt false (fun _ => ⟨-1, 0, 0⟩) 1 ∧
    ¬ErasesByAttempts eraser (always ⟨-1, 0, 0⟩) 0 1 ∧
    ¬TransfersByAttempt fun _ => ⟨-1, 0, 0⟩ := by
  have never (withData : Bool) : ¬FineFor withData ⟨-1, 0, 0⟩ := by
    cases withData <;> decide
  refine ⟨fun succeeds => ?_, fun erases => ?_, fun transfers => ?_⟩
  · obtain ⟨i, -, fine⟩ := succeeds.succeeds.mp (by decide)
    exact never false fine
  · obtain ⟨i, -, fine⟩ := erases (by decide) 0 (by decide)
    exact never false fine
  · obtain ⟨i, -, fine⟩ := transfers (by decide)
    exact never true fine

end Hdf.Storage.Mmc.Command
