import Hdf.Storage.MmcTransfer
import Mathlib.Algebra.Order.Floor.Div

/-!
# Erasing sectors of an MMC device

A device erases groups of sectors. A call is cut into chunks. The groups that lie in a chunk are
looked up, the first and the last address are sent to the device, and it is told to erase.

The device erases from the first address to the last one, inclusively, and the addresses are
rounded out to groups. What it answers to the commands comes with the call.

## Main definitions

* `mmcDeviceErase`: what a call returns, and the commands that it has sent
* `erases`: the sectors that a device erases
* `ErasesGroups`: a successful call erases the whole groups of its range, and no other sectors
* `Fits`, `EndsInside`, `Begins`: the addresses and the chunks for which that is so

## Main results

* `erasesGroups_iff`: if the addresses fit, a call erases the whole groups if and only if the
  other conditions hold
* `erases_wrong_groups`: calls that erase a sector behind their range, or not all groups
-/

namespace Hdf.Storage.Mmc

/-- A device that erases groups of sectors, with its command classes. -/
structure EraseDevice extends MmcDevice where
  sd : Bool
  eraseSize : ℕ
  ccc : UInt16
  deriving DecidableEq, Repr

/-- The codes of the commands that erase. -/
inductive EraseCmdCode where
  | sdCmdEraseWrBlkStart | sdCmdEraseWrBlkEnd | eraseGroupStart | eraseGroupEnd | mmcErase
  deriving DecidableEq, Repr

/-- `struct MmcCmd` without data. -/
structure EraseCmd where
  cmdCode : EraseCmdCode
  argument : UInt32
  deriving DecidableEq, Repr

/-- What the commands for a chunk return, and what the wait for the device returns. -/
structure EraseAnswers where
  start : Int32
  last : Int32
  erase : Int32
  ready : Int32

/-- `HDF_ERR_NOT_SUPPORT`. -/
def hdfErrNotSupport : Int32 := -2

/-- `MMC_CSD_CCC_ERASE`. -/
def mmcCsdCccErase : UInt16 := (1 : UInt16) <<< 5

/-- `MMC_MAX_ERASE_SECTOR`. -/
def mmcMaxEraseSector : ℕ := 0x100000

/-- The address of a sector in a command. -/
def eraseArgument (device : EraseDevice) (arg : ℕ) : UInt32 :=
  if device.blockAddr then .ofNat arg else UInt32.ofNat arg <<< 9

/-- The command of `MmcSendEraseStartCmd`. -/
def mmcSendEraseStartCmd (device : EraseDevice) (arg : ℕ) : EraseCmd :=
  ⟨if device.sd then .sdCmdEraseWrBlkStart else .eraseGroupStart, eraseArgument device arg⟩

/-- The command of `MmcSendEraseEndCmd`. -/
def mmcSendEraseEndCmd (device : EraseDevice) (arg : ℕ) : EraseCmd :=
  ⟨if device.sd then .sdCmdEraseWrBlkEnd else .eraseGroupEnd, eraseArgument device arg⟩

/-- The command of `MmcSendEraseCmd`. -/
def mmcSendEraseCmd : EraseCmd := ⟨.mmcErase, 0⟩

/-- The alignment of the start in `MmcAlignEraseSize`, with the size from there. -/
def alignStart (eraseSize start size : ℕ) : Option (ℕ × ℕ) :=
  let tmp := start % eraseSize
  if 0 < tmp then
    let tmp := (eraseSize - tmp) % 2 ^ 32
    if tmp < size then some ((start + tmp) % 2 ^ 32, size - tmp) else none
  else some (start, size)

/-- `MmcAlignEraseSize`: the start and the end that it stores. -/
def mmcAlignEraseSize (eraseSize start size : ℕ) : Option (ℕ × ℕ) :=
  if eraseSize = 0 then none
  else match alignStart eraseSize start size with
    | none => none
    | some (start, curSize) =>
      let tmp := curSize % eraseSize
      let curSize := if 0 < tmp then curSize - tmp else curSize
      if curSize = 0 then none else some (start, (start + curSize) % 2 ^ 32)

/-- The commands that erase from one address to another. -/
def eraseCmds (device : EraseDevice) (start last : ℕ) : List EraseCmd :=
  [mmcSendEraseStartCmd device start, mmcSendEraseEndCmd device last, mmcSendEraseCmd]

/-- `MmcSendErase`: what it returns, and the commands that it has sent. -/
def mmcSendErase (device : EraseDevice) (answers : EraseAnswers) (startSec nSec : ℕ) :
    Int32 × List EraseCmd :=
  if device.eraseSize = 0 ∨ device.ccc &&& mmcCsdCccErase = 0 then (hdfErrNotSupport, [])
  else match mmcAlignEraseSize device.eraseSize (startSec % 2 ^ 32) (nSec % 2 ^ 32) with
    | none => (0, [])
    | some (start, last) =>
      if answers.start ≠ 0 then (answers.start, (eraseCmds device start last).take 1)
      else if answers.last ≠ 0 then (answers.last, (eraseCmds device start last).take 2)
      else if answers.erase ≠ 0 then (answers.erase, eraseCmds device start last)
      else (answers.ready, eraseCmds device start last)

/-- How many of the sectors are erased in a chunk. -/
def eraseSectors (curSec : ℕ) : ℕ :=
  if mmcMaxEraseSector < curSec then mmcMaxEraseSector else curSec

theorem eraseSectors_eq (curSec : ℕ) : eraseSectors curSec = min mmcMaxEraseSector curSec := by
  rw [eraseSectors]
  split
  · rename_i lt
    exact (Nat.min_eq_left (Nat.le_of_lt lt)).symm
  · rename_i le
    exact (Nat.min_eq_right (Nat.le_of_not_lt le)).symm

/-- The loop of `MmcDeviceErase`. -/
def eraseLoop (device : EraseDevice) (answers : ℕ → EraseAnswers) (k curStartSec curSec : ℕ) :
    Int32 × List EraseCmd :=
  let eraseSec := eraseSectors curSec
  let chunk := mmcSendErase device (answers k) curStartSec eraseSec
  if chunk.1 ≠ 0 then chunk
  else if 0 < curSec - eraseSec then
    let rest := eraseLoop device answers (k + 1) (curStartSec + eraseSec) (curSec - eraseSec)
    (rest.1, chunk.2 ++ rest.2)
  else (0, chunk.2)
termination_by curSec
decreasing_by
  have more : 0 < curSec - eraseSectors curSec := by assumption
  have positive : 0 < eraseSectors curSec := by
    rw [eraseSectors_eq]
    exact Nat.lt_min.mpr ⟨by decide, Nat.lt_of_lt_of_le more (Nat.sub_le ..)⟩
  omega

/-- `MmcDeviceErase`. -/
def mmcDeviceErase (device : EraseDevice) (answers : ℕ → EraseAnswers) (startSec nSec : ℕ) :
    Int32 × List EraseCmd :=
  eraseLoop device answers 0 startSec nSec

/-! ### What a device erases -/

/-- The sector at an address. -/
def EraseDevice.sectorOf (device : EraseDevice) (argument : UInt32) : ℕ :=
  if device.blockAddr then argument.toNat else argument.toNat / 512

/-- A device has got a first and a last address and is told to erase. -/
def EraseDevice.Told (device : EraseDevice) (first last erase : EraseCmd) : Prop :=
  first.cmdCode = (if device.sd then .sdCmdEraseWrBlkStart else .eraseGroupStart) ∧
    last.cmdCode = (if device.sd then .sdCmdEraseWrBlkEnd else .eraseGroupEnd) ∧
    erase.cmdCode = .mmcErase

/-- The commands that a device has got make it erase a sector: its group is none before that of the
first address, and none behind that of the last address. -/
def erases (device : EraseDevice) : List EraseCmd → ℕ → Prop
  | first :: last :: erase :: cmds, sector =>
    device.Told first last erase ∧
      device.sectorOf first.argument / device.eraseSize ≤ sector / device.eraseSize ∧
      sector / device.eraseSize ≤ device.sectorOf last.argument / device.eraseSize ∨
    erases device (last :: erase :: cmds) sector
  | _, _ => False

/-- A group of sectors lies in a range. -/
def EraseDevice.Inside (device : EraseDevice) (group first last : ℕ) : Prop :=
  first ≤ group * device.eraseSize ∧ (group + 1) * device.eraseSize ≤ last

/-- A call that succeeds erases only sectors of its range, and all groups that lie in it. -/
def ErasesGroups (device : EraseDevice) (startSec nSec : ℕ) : Prop :=
  ∀ answers, (mmcDeviceErase device answers startSec nSec).1 = 0 →
    (∀ sector, erases device (mmcDeviceErase device answers startSec nSec).2 sector →
      startSec ≤ sector ∧ sector < startSec + nSec) ∧
    ∀ sector, device.Inside (sector / device.eraseSize) startSec (startSec + nSec) →
      erases device (mmcDeviceErase device answers startSec nSec).2 sector

/-! ### When it erases the right groups -/

/-- The begin of a chunk. -/
def chunkBegin (startSec k : ℕ) : ℕ := startSec + k * mmcMaxEraseSector

/-- The end of a chunk. -/
def chunkEnd (startSec nSec k : ℕ) : ℕ := chunkBegin startSec k + piece mmcMaxEraseSector nSec k

/-- A group lies in a chunk. -/
def EraseDevice.HasGroup (device : EraseDevice) (startSec nSec k : ℕ) : Prop :=
  ∃ group, device.Inside group (chunkBegin startSec k) (chunkEnd startSec nSec k)

/-- The addresses of a call have 32 bits: those where its chunks begin, and those of the groups in
which the chunks end. -/
def EraseDevice.Fits (device : EraseDevice) (startSec nSec : ℕ) : Prop :=
  ∀ k < pieceCount mmcMaxEraseSector nSec, chunkBegin startSec k < 2 ^ 32 ∧
    (device.HasGroup startSec nSec k →
      chunkEnd startSec nSec k / device.eraseSize * device.eraseSize <
        if device.blockAddr then 2 ^ 32 else 2 ^ 23)

/-- If a group lies in a chunk, then the group in which the chunk ends does not exceed the call. -/
def EraseDevice.EndsInside (device : EraseDevice) (startSec nSec : ℕ) : Prop :=
  ∀ k < pieceCount mmcMaxEraseSector nSec, device.HasGroup startSec nSec k →
    (chunkEnd startSec nSec k / device.eraseSize + 1) * device.eraseSize ≤ startSec + nSec

/-- A group lies in every chunk in which a group of the call begins. -/
def EraseDevice.Begins (device : EraseDevice) (startSec nSec : ℕ) : Prop :=
  ∀ group, device.Inside group startSec (startSec + nSec) →
    ∀ k < pieceCount mmcMaxEraseSector nSec, chunkBegin startSec k ≤ group * device.eraseSize →
      group * device.eraseSize < chunkEnd startSec nSec k → device.HasGroup startSec nSec k

/-! ### Groups in a range -/

section

variable {g a n : ℕ}

/-- A start that is aligned stays so. -/
theorem alignStart_of_dvd (aligned : g ∣ a) : alignStart g a n = some (a, n) := by
  rw [alignStart, Nat.mod_eq_zero_of_dvd aligned]
  rfl

/-- The start of the next group, if it is in the range. -/
theorem alignStart_of_lt (small : g ≤ 2 ^ 32) (offset : 0 < a % g)
    (inside : g - a % g < n) :
    alignStart g a n = some ((a + (g - a % g)) % 2 ^ 32, n - (g - a % g)) := by
  have tmp : (g - a % g) % 2 ^ 32 = g - a % g := Nat.mod_eq_of_lt (by omega)
  rw [alignStart]
  dsimp only
  rw [if_pos offset, tmp, if_pos inside]

/-- The size from the aligned start is at most that of the range. -/
theorem snd_alignStart_le {start curSize : ℕ} (aligned : alignStart g a n = some (start, curSize)) :
    curSize ≤ n := by
  rw [alignStart] at aligned
  grind

/-- No group fits if the size from the aligned start is smaller than a group. -/
theorem mmcAlignEraseSize_of_small (positive : 0 < g)
    (small : ∀ start curSize, alignStart g a n = some (start, curSize) → curSize < g) :
    mmcAlignEraseSize g a n = none := by
  rw [mmcAlignEraseSize, if_neg positive.ne']
  split
  · rfl
  · rename_i start curSize aligned
    have less := small start curSize aligned
    have zero : (if 0 < curSize % g then curSize - curSize % g else curSize) = 0 := by
      rw [Nat.mod_eq_of_lt less]
      split <;> omega
    dsimp only
    rw [if_pos zero]

theorem mmcAlignEraseSize_of_le (positive : 0 < g) {start curSize : ℕ}
    (aligned : alignStart g a n = some (start, curSize)) (le : g ≤ curSize) :
    mmcAlignEraseSize g a n = some (start, (start + curSize / g * g) % 2 ^ 32) := by
  have size : (if 0 < curSize % g then curSize - curSize % g else curSize) = curSize / g * g := by
    have divided := Nat.div_add_mod' curSize g
    split <;> omega
  have some_group : curSize / g * g ≠ 0 :=
    Nat.mul_ne_zero (Nat.div_pos le positive).ne' positive.ne'
  rw [mmcAlignEraseSize, if_neg positive.ne', aligned]
  dsimp only
  rw [size, if_neg some_group]

theorem ceilDiv_of_dvd (positive : 0 < g) (aligned : g ∣ a) : a ⌈/⌉ g * g = a := by
  have least : a ⌈/⌉ g ≤ a / g := by
    rw [ceilDiv_le_iff_le_mul positive, Nat.mul_div_cancel' aligned]
  have large := (ceilDiv_le_iff_le_mul positive).mp (le_refl (a ⌈/⌉ g))
  rw [Nat.mul_comm] at large
  exact le_antisymm ((Nat.mul_le_mul_right g least).trans (Nat.div_mul_le_self a g)) large

theorem ceilDiv_of_offset (positive : 0 < g) (offset : 0 < a % g) :
    a ⌈/⌉ g * g = a + (g - a % g) := by
  have divided := Nat.div_add_mod' a g
  have low := Nat.mod_lt a positive
  have next : a ⌈/⌉ g = a / g + 1 := by
    apply le_antisymm
    · rw [ceilDiv_le_iff_le_mul positive, Nat.mul_comm, Nat.succ_mul]
      omega
    · by_contra less
      have le := (ceilDiv_le_iff_le_mul positive).mp (Nat.le_of_lt_succ (Nat.not_le.mp less))
      rw [Nat.mul_comm] at le
      omega
  rw [next, Nat.succ_mul]
  omega

/-- A group lies between two sectors if and only if there is room for it behind the next begin of a
group. -/
theorem ceilDiv_lt_iff (positive : 0 < g) {b : ℕ} :
    a ⌈/⌉ g < b / g ↔ a ⌈/⌉ g * g + g ≤ b := by
  rw [Nat.lt_iff_add_one_le, Nat.le_div_iff_mul_le positive, Nat.succ_mul]

/-- The size of the groups from the next begin of a group on. -/
theorem ceilDiv_add_div {b : ℕ} (le : a ⌈/⌉ g ≤ b / g) :
    a ⌈/⌉ g * g + (b - a ⌈/⌉ g * g) / g * g = b / g * g := by
  rw [Nat.mul_comm (a ⌈/⌉ g), Nat.sub_mul_div, ← Nat.mul_comm (a ⌈/⌉ g), ← Nat.add_mul,
    Nat.add_sub_cancel' le]

/-- What is stored if a group lies in the range. -/
theorem mmcAlignEraseSize_of_group (positive : 0 < g) (small : n < 2 ^ 32)
    (group : a ⌈/⌉ g < (a + n) / g) (fits : (a + n) / g * g < 2 ^ 32) :
    mmcAlignEraseSize g a n = some (a ⌈/⌉ g * g, (a + n) / g * g) := by
  have room := (ceilDiv_lt_iff positive).mp group
  have size := ceilDiv_add_div (Nat.le_of_lt group)
  have start_lt : a ⌈/⌉ g * g < 2 ^ 32 := by
    have le := Nat.mul_le_mul_right g (Nat.le_of_lt group)
    omega
  have aligned : alignStart g a n = some (a ⌈/⌉ g * g, a + n - a ⌈/⌉ g * g) := by
    rcases Nat.eq_zero_or_pos (a % g) with zero | offset
    · have dvd := Nat.dvd_of_mod_eq_zero zero
      rw [alignStart_of_dvd dvd, ceilDiv_of_dvd positive dvd, Nat.add_sub_cancel_left]
    · have next := ceilDiv_of_offset positive offset
      rw [alignStart_of_lt (by omega) offset (by omega), ← next, Nat.mod_eq_of_lt start_lt]
      congr 2
      omega
  rw [mmcAlignEraseSize_of_le positive aligned (by omega), size, Nat.mod_eq_of_lt fits]

/-- Nothing is stored if no group lies in the range. -/
theorem mmcAlignEraseSize_of_not (positive : 0 < g) (small : n < 2 ^ 32)
    (noGroup : ¬a ⌈/⌉ g < (a + n) / g) : mmcAlignEraseSize g a n = none := by
  rw [ceilDiv_lt_iff positive] at noGroup
  refine mmcAlignEraseSize_of_small positive fun start curSize aligned => ?_
  rcases Nat.lt_or_ge n g with less | le
  · exact Nat.lt_of_le_of_lt (snd_alignStart_le aligned) less
  · rcases Nat.eq_zero_or_pos (a % g) with zero | offset
    · have dvd := Nat.dvd_of_mod_eq_zero zero
      rw [ceilDiv_of_dvd positive dvd] at noGroup
      omega
    · rw [ceilDiv_of_offset positive offset] at noGroup
      by_cases inside : g - a % g < n
      · rw [alignStart_of_lt (by omega) offset inside, Option.some.injEq, Prod.mk.injEq] at aligned
        omega
      · have tmp : (g - a % g) % 2 ^ 32 = g - a % g := Nat.mod_eq_of_lt (by omega)
        rw [alignStart] at aligned
        dsimp only at aligned
        rw [if_pos offset, tmp, if_neg inside] at aligned
        cases aligned

end

/-! ### The commands of a call -/

/-- The commands that a successful chunk has sent. -/
def chunkCmds (device : EraseDevice) (start size : ℕ) : List EraseCmd :=
  match mmcAlignEraseSize device.eraseSize (start % 2 ^ 32) (size % 2 ^ 32) with
  | none => []
  | some (start, last) => eraseCmds device start last

/-- A device can erase. -/
def EraseDevice.Supports (device : EraseDevice) : Prop :=
  ¬(device.eraseSize = 0 ∨ device.ccc &&& mmcCsdCccErase = 0)

instance (device : EraseDevice) : Decidable device.Supports := inferInstanceAs (Decidable (¬_))

section

variable {device : EraseDevice} {answers : ℕ → EraseAnswers} {first : EraseAnswers}
  {cmds : List EraseCmd} {cmd : EraseCmd} {start last size k sector : ℕ}

theorem EraseDevice.Supports.pos (supports : device.Supports) : 0 < device.eraseSize :=
  Nat.pos_of_ne_zero fun zero => supports (Or.inl zero)

theorem sectorOf_eraseArgument {arg : ℕ}
    (fits : arg < if device.blockAddr then 2 ^ 32 else 2 ^ 23) :
    device.sectorOf (eraseArgument device arg) = arg := by
  rw [EraseDevice.sectorOf, eraseArgument]
  cases block : device.blockAddr with
  | true =>
    rw [block, if_pos rfl] at fits
    simp only [if_true, UInt32.toNat_ofNat']
    exact Nat.mod_eq_of_lt fits
  | false =>
    rw [block, if_neg Bool.false_ne_true] at fits
    have nine : (9 : UInt32).toNat % 32 = 9 := rfl
    simp only [Bool.false_eq_true, if_false]
    rw [UInt32.toNat_shiftLeft, UInt32.toNat_ofNat', Nat.shiftLeft_eq, nine]
    omega

/-- A command that is no first address starts nothing. -/
theorem erases_cons_of_ne
    (other : cmd.cmdCode ≠ if device.sd then .sdCmdEraseWrBlkStart else .eraseGroupStart) :
    erases device (cmd :: cmds) sector ↔ erases device cmds sector := by
  match cmds with
  | [] => exact Iff.rfl
  | [_] => exact Iff.rfl
  | last :: erase :: cmds =>
    rw [erases]
    exact or_iff_right fun told => other told.1.1

theorem erases_eraseCmds_append : erases device (eraseCmds device start last ++ cmds) sector ↔
    (device.sectorOf (eraseArgument device start) / device.eraseSize ≤ sector / device.eraseSize ∧
      sector / device.eraseSize ≤
        device.sectorOf (eraseArgument device last) / device.eraseSize) ∨
    erases device cmds sector := by
  have told : device.Told (mmcSendEraseStartCmd device start) (mmcSendEraseEndCmd device last)
      mmcSendEraseCmd := ⟨rfl, rfl, rfl⟩
  change erases device (_ :: _ :: _ :: cmds) sector ↔ _
  rw [erases, erases_cons_of_ne, erases_cons_of_ne]
  · exact or_congr_left (and_iff_right told)
  · cases device.sd <;> simp [mmcSendEraseCmd]
  · cases sd : device.sd <;> simp [mmcSendEraseEndCmd, sd]

theorem erases_eraseCmds : erases device (eraseCmds device start last) sector ↔
    device.sectorOf (eraseArgument device start) / device.eraseSize ≤ sector / device.eraseSize ∧
      sector / device.eraseSize ≤
        device.sectorOf (eraseArgument device last) / device.eraseSize := by
  rw [← List.append_nil (eraseCmds device start last), erases_eraseCmds_append]
  exact or_iff_left id

theorem erases_chunkCmds_append : erases device (chunkCmds device start size ++ cmds) sector ↔
    erases device (chunkCmds device start size) sector ∨ erases device cmds sector := by
  rw [chunkCmds]
  split
  · exact (or_iff_right id).symm
  · rename_i start last _
    rw [erases_eraseCmds_append, erases_eraseCmds]

theorem erases_flatMap (chunks : List (ℕ × ℕ)) :
    erases device (chunks.flatMap fun chunk => chunkCmds device chunk.1 chunk.2) sector ↔
      ∃ chunk ∈ chunks, erases device (chunkCmds device chunk.1 chunk.2) sector := by
  induction chunks with
  | nil => exact iff_of_false id fun ⟨_, member, _⟩ => List.not_mem_nil member
  | cons chunk chunks ih =>
    rw [List.flatMap_cons, erases_chunkCmds_append, ih, List.exists_mem_cons_iff]

/-- The commands of a chunk that succeeds. -/
theorem snd_mmcSendErase (supports : device.Supports)
    (success : (mmcSendErase device first start size).1 = 0) :
    (mmcSendErase device first start size).2 = chunkCmds device start size := by
  rw [mmcSendErase, if_neg supports] at success ⊢
  rw [chunkCmds]
  split at success
  · rfl
  · split at success
    · contradiction
    · split at success
      · contradiction
      · split at success
        · contradiction
        · rename_i startOk lastOk eraseOk
          simp only [if_neg startOk, if_neg lastOk, if_neg eraseOk]


theorem mmcMaxEraseSector_pos : 0 < mmcMaxEraseSector := by decide

/-- What is left behind a full chunk. -/
theorem rest_lt (lt : mmcMaxEraseSector < size) : size - mmcMaxEraseSector < size :=
  Nat.sub_lt (Nat.zero_lt_of_lt lt) mmcMaxEraseSector_pos

/-- A chunk, and the rest of a call if the chunk has succeeded. -/
def followedBy (chunk rest : Int32 × List EraseCmd) : Int32 × List EraseCmd :=
  if chunk.1 ≠ 0 then chunk else (rest.1, chunk.2 ++ rest.2)

theorem followedBy_of_success {chunk rest : Int32 × List EraseCmd} (success : chunk.1 = 0) :
    followedBy chunk rest = (rest.1, chunk.2 ++ rest.2) :=
  if_neg (not_not_intro success)

theorem fst_followedBy {chunk rest : Int32 × List EraseCmd} (success : chunk.1 = 0) :
    (followedBy chunk rest).1 = rest.1 := by
  rw [followedBy_of_success success]

theorem followedBy_success {chunk rest : Int32 × List EraseCmd}
    (success : (followedBy chunk rest).1 = 0) : chunk.1 = 0 ∧ rest.1 = 0 := by
  by_cases failed : chunk.1 = 0
  · exact ⟨failed, fst_followedBy failed ▸ success⟩
  · rw [followedBy, if_pos failed] at success
    exact absurd success failed

/-- The loop goes on behind a full chunk. -/
theorem eraseLoop_of_lt (lt : mmcMaxEraseSector < size) :
    eraseLoop device answers k start size =
      followedBy (mmcSendErase device (answers k) start mmcMaxEraseSector)
        (eraseLoop device answers (k + 1) (start + mmcMaxEraseSector)
          (size - mmcMaxEraseSector)) := by
  have full : eraseSectors size = mmcMaxEraseSector := if_pos lt
  rw [eraseLoop]
  dsimp only
  rw [full, if_pos (Nat.sub_pos_of_lt lt)]
  rfl

/-- The loop ends with the last chunk. -/
theorem eraseLoop_of_le (le : size ≤ mmcMaxEraseSector) :
    eraseLoop device answers k start size =
      followedBy (mmcSendErase device (answers k) start size) (0, []) := by
  have full : eraseSectors size = size := if_neg (Nat.not_lt.mpr le)
  rw [eraseLoop]
  dsimp only
  rw [full, Nat.sub_self, if_neg (Nat.lt_irrefl 0), followedBy, List.append_nil]

/-- The chunks of a call. -/
def chunks (start size : ℕ) : List (ℕ × ℕ) :=
  (List.range (pieceCount mmcMaxEraseSector size)).map fun k =>
    (chunkBegin start k, piece mmcMaxEraseSector size k)

theorem chunks_of_le (le : size ≤ mmcMaxEraseSector) : chunks start size = [(start, size)] := by
  rw [chunks, pieceCount_of_le le (by decide), List.range_one, List.map_singleton, piece_zero,
    Nat.min_eq_right le, chunkBegin, Nat.zero_mul, Nat.add_zero]

theorem chunks_of_lt (lt : mmcMaxEraseSector < size) : chunks start size =
    (start, mmcMaxEraseSector) :: chunks (start + mmcMaxEraseSector)
      (size - mmcMaxEraseSector) := by
  rw [chunks, pieceCount_of_lt lt (by decide), List.range_succ_eq_map, List.map_cons, List.map_map,
    piece_zero, Nat.min_eq_left (Nat.le_of_lt lt), chunkBegin, Nat.zero_mul, Nat.add_zero, chunks]
  congr 1
  refine List.map_congr_left fun k _ => ?_
  simp only [Function.comp_apply, Nat.succ_eq_add_one, piece_succ, chunkBegin, Prod.mk.injEq,
    and_true]
  rw [Nat.succ_mul]
  omega

/-- The commands of a call that succeeds. -/
theorem snd_eraseLoop (supports : device.Supports) (size : ℕ) : ∀ k start,
    (eraseLoop device answers k start size).1 = 0 →
    (eraseLoop device answers k start size).2 =
      (chunks start size).flatMap fun chunk => chunkCmds device chunk.1 chunk.2 := by
  induction size using Nat.strong_induction_on with
  | h size ih =>
    intro k start success
    rcases Nat.lt_or_ge mmcMaxEraseSector size with lt | le
    · rw [eraseLoop_of_lt lt] at success ⊢
      obtain ⟨chunk, rest⟩ := followedBy_success success
      rw [followedBy_of_success chunk, chunks_of_lt lt, List.flatMap_cons,
        ih _ (rest_lt lt) _ _ rest, snd_mmcSendErase supports chunk]
    · rw [eraseLoop_of_le le] at success ⊢
      obtain ⟨chunk, -⟩ := followedBy_success success
      rw [followedBy_of_success chunk, chunks_of_le le, List.flatMap_singleton, List.append_nil,
        snd_mmcSendErase supports chunk]

/-- All commands for a chunk succeed. -/
def EraseAnswers.fine : EraseAnswers := ⟨0, 0, 0, 0⟩

theorem fst_mmcSendErase_fine (supports : device.Supports) :
    (mmcSendErase device .fine start size).1 = 0 := by
  rw [mmcSendErase, if_neg supports]
  split <;> rfl

/-- A call whose commands succeed is successful. -/
theorem fst_eraseLoop_fine (supports : device.Supports) (size : ℕ) : ∀ k start,
    (eraseLoop device (fun _ => .fine) k start size).1 = 0 := by
  induction size using Nat.strong_induction_on with
  | h size ih =>
    intro k start
    rcases Nat.lt_or_ge mmcMaxEraseSector size with lt | le
    · rw [eraseLoop_of_lt lt, fst_followedBy (fst_mmcSendErase_fine supports)]
      exact ih _ (rest_lt lt) ..
    · rw [eraseLoop_of_le le, fst_followedBy (fst_mmcSendErase_fine supports)]

end

/-! ### The groups that are erased -/

section

variable {device : EraseDevice} {answers : ℕ → EraseAnswers} {startSec nSec k sector : ℕ}

theorem inside_iff (positive : 0 < device.eraseSize) {group first last : ℕ} :
    device.Inside group first last ↔
      first ⌈/⌉ device.eraseSize ≤ group ∧ group < last / device.eraseSize := by
  rw [EraseDevice.Inside, ceilDiv_le_iff_le_mul positive, Nat.mul_comm, ← Nat.succ_le_iff,
    Nat.le_div_iff_mul_le positive]

theorem hasGroup_iff (positive : 0 < device.eraseSize) : device.HasGroup startSec nSec k ↔
    chunkBegin startSec k ⌈/⌉ device.eraseSize < chunkEnd startSec nSec k / device.eraseSize := by
  simp only [EraseDevice.HasGroup, inside_iff positive]
  exact ⟨fun ⟨_, le, lt⟩ => Nat.lt_of_le_of_lt le lt, fun lt => ⟨_, le_rfl, lt⟩⟩

/-- What a chunk erases: from its first group to the group in which it ends. -/
theorem erases_chunk (supports : device.Supports) (fits : device.Fits startSec nSec)
    (below : k < pieceCount mmcMaxEraseSector nSec) :
    erases device (chunkCmds device (chunkBegin startSec k) (piece mmcMaxEraseSector nSec k))
      sector ↔ device.HasGroup startSec nSec k ∧
        chunkBegin startSec k ⌈/⌉ device.eraseSize ≤ sector / device.eraseSize ∧
        sector / device.eraseSize ≤ chunkEnd startSec nSec k / device.eraseSize := by
  have positive := supports.pos
  obtain ⟨start_lt, last_lt⟩ := fits k below
  have small : piece mmcMaxEraseSector nSec k < 2 ^ 32 :=
    Nat.lt_of_le_of_lt (piece_le ..) (by decide)
  rw [chunkCmds, Nat.mod_eq_of_lt start_lt, Nat.mod_eq_of_lt small]
  by_cases group : device.HasGroup startSec nSec k
  · have last_fits := last_lt group
    have groups := (hasGroup_iff positive).mp group
    have bound : chunkEnd startSec nSec k / device.eraseSize * device.eraseSize < 2 ^ 32 :=
      Nat.lt_of_lt_of_le last_fits (by split <;> decide)
    have start_fits := Nat.lt_of_le_of_lt
      (Nat.mul_le_mul_right device.eraseSize (Nat.le_of_lt groups)) last_fits
    have aligned : mmcAlignEraseSize device.eraseSize (chunkBegin startSec k)
        (piece mmcMaxEraseSector nSec k) =
        some (chunkBegin startSec k ⌈/⌉ device.eraseSize * device.eraseSize,
          chunkEnd startSec nSec k / device.eraseSize * device.eraseSize) :=
      mmcAlignEraseSize_of_group positive small groups bound
    rw [aligned]
    dsimp only
    rw [erases_eraseCmds, sectorOf_eraseArgument start_fits, sectorOf_eraseArgument last_fits,
      Nat.mul_div_cancel _ positive, Nat.mul_div_cancel _ positive, and_iff_right group]
  · rw [mmcAlignEraseSize_of_not positive small (mt (hasGroup_iff positive).mpr group)]
    exact iff_of_false id fun both => group both.1

/-- What a call erases. -/
theorem erases_call (supports : device.Supports) (fits : device.Fits startSec nSec)
    (success : (mmcDeviceErase device answers startSec nSec).1 = 0) :
    erases device (mmcDeviceErase device answers startSec nSec).2 sector ↔
      ∃ k < pieceCount mmcMaxEraseSector nSec, device.HasGroup startSec nSec k ∧
        chunkBegin startSec k ⌈/⌉ device.eraseSize ≤ sector / device.eraseSize ∧
        sector / device.eraseSize ≤ chunkEnd startSec nSec k / device.eraseSize := by
  rw [mmcDeviceErase] at success ⊢
  rw [snd_eraseLoop supports nSec 0 startSec success, erases_flatMap]
  simp only [chunks, List.mem_map, List.mem_range, exists_exists_and_eq_and]
  refine exists_congr fun k => and_congr_right fun below => ?_
  exact erases_chunk supports fits below


/-! ### Chunks of a call -/

theorem chunkBegin_succ (startSec k : ℕ) :
    chunkBegin startSec (k + 1) = chunkBegin startSec k + mmcMaxEraseSector := by
  rw [chunkBegin, chunkBegin, Nat.succ_mul, Nat.add_assoc]

theorem chunkBegin_mono (startSec : ℕ) {i : ℕ} (le : i ≤ k) :
    chunkBegin startSec i ≤ chunkBegin startSec k :=
  Nat.add_le_add_left (Nat.mul_le_mul_right _ le) _

/-- A chunk ends where the next one begins at the latest. -/
theorem chunkEnd_le_chunkBegin (startSec nSec : ℕ) {i : ℕ} (lt : i < k) :
    chunkEnd startSec nSec i ≤ chunkBegin startSec k := by
  have next := chunkBegin_mono startSec (Nat.succ_le_of_lt lt)
  have size := piece_le mmcMaxEraseSector nSec i
  rw [Nat.succ_eq_add_one, chunkBegin_succ] at next
  rw [chunkEnd]
  omega

/-- A sector of a call is in a chunk. -/
theorem exists_chunk (begins : startSec ≤ sector) (ends : sector < startSec + nSec) :
    ∃ k < pieceCount mmcMaxEraseSector nSec,
      chunkBegin startSec k ≤ sector ∧ sector < chunkEnd startSec nSec k := by
  have offset : sector - startSec < nSec := by omega
  obtain ⟨k, below, le, lt⟩ := exists_piece mmcMaxEraseSector_pos offset
  refine ⟨k, below, ?_, ?_⟩
  · rw [chunkBegin]
    omega
  · rw [chunkEnd, chunkBegin]
    omega

/-- The last chunk ends with the call, and all others are full. -/
theorem chunkEnd_eq (startSec : ℕ) (below : k < pieceCount mmcMaxEraseSector nSec) :
    chunkEnd startSec nSec k = startSec + nSec ∨
      chunkEnd startSec nSec k = chunkBegin startSec k + mmcMaxEraseSector := by
  rcases Nat.lt_or_eq_of_le (Nat.succ_le_of_lt below) with more | last
  · exact .inr (by rw [chunkEnd, piece_of_lt mmcMaxEraseSector_pos more])
  · have ends := piece_last mmcMaxEraseSector_pos last
    refine .inl ?_
    rw [chunkEnd, chunkBegin]
    omega


/-! ### When the right groups are erased -/

/-- The sectors that chunks erase are in the call if and only if the groups in which the chunks end
are. -/
theorem erased_inside_iff (positive : 0 < device.eraseSize) :
    (∀ sector, (∃ k < pieceCount mmcMaxEraseSector nSec, device.HasGroup startSec nSec k ∧
        chunkBegin startSec k ⌈/⌉ device.eraseSize ≤ sector / device.eraseSize ∧
        sector / device.eraseSize ≤ chunkEnd startSec nSec k / device.eraseSize) →
      startSec ≤ sector ∧ sector < startSec + nSec) ↔ device.EndsInside startSec nSec := by
  constructor
  · intro inside k below group
    -- the last sector of the group in which the chunk ends
    have last : ((chunkEnd startSec nSec k / device.eraseSize + 1) * device.eraseSize - 1) /
        device.eraseSize = chunkEnd startSec nSec k / device.eraseSize := by
      refine Nat.div_eq_of_lt_le ?_ ?_ <;> rw [Nat.succ_mul] <;> omega
    have range := inside _ ⟨k, below, group,
      last.symm ▸ Nat.le_of_lt ((hasGroup_iff positive).mp group), last.le⟩
    omega
  · rintro inside sector ⟨k, below, group, first, last⟩
    rw [ceilDiv_le_iff_le_mul positive] at first
    have ends := inside k below group
    have low := Nat.mul_div_le sector device.eraseSize
    have high := Nat.lt_mul_of_div_lt (Nat.lt_succ_of_le last) positive
    have begins : startSec ≤ chunkBegin startSec k := Nat.le_add_right ..
    exact ⟨begins.trans (first.trans low), Nat.lt_of_lt_of_le high ends⟩

/-- A group of a call that begins in a chunk without a group is erased by no chunk. -/
theorem not_erased (positive : 0 < device.eraseSize) {group : ℕ}
    (inside : device.Inside group startSec (startSec + nSec))
    (below : k < pieceCount mmcMaxEraseSector nSec)
    (begins : chunkBegin startSec k ≤ group * device.eraseSize)
    (ends : group * device.eraseSize < chunkEnd startSec nSec k)
    (noGroup : ¬device.HasGroup startSec nSec k) {i : ℕ}
    (hasGroup : device.HasGroup startSec nSec i)
    (first : chunkBegin startSec i ⌈/⌉ device.eraseSize ≤ group)
    (last : group ≤ chunkEnd startSec nSec i / device.eraseSize) : False := by
  rw [ceilDiv_le_iff_le_mul positive, Nat.mul_comm] at first
  rw [Nat.le_div_iff_mul_le positive] at last
  rcases Nat.lt_trichotomy i k with before | rfl | behind
  · -- the group begins where chunk `k` does, and fits into it as one fits into chunk `i`
    have le := chunkEnd_le_chunkBegin startSec nSec before
    obtain ⟨other, from_begin, to_end⟩ := hasGroup
    have size := piece_le mmcMaxEraseSector nSec i
    have chunk : chunkEnd startSec nSec i =
        chunkBegin startSec i + piece mmcMaxEraseSector nSec i :=
      rfl
    refine noGroup ⟨group, begins, ?_⟩
    rw [Nat.succ_mul] at to_end ⊢
    have whole := inside.2
    rw [Nat.succ_mul] at whole
    rcases chunkEnd_eq startSec below with last | full <;> omega
  · exact noGroup hasGroup
  · have le := chunkEnd_le_chunkBegin startSec nSec behind
    omega

/-- The groups of a call are erased if and only if each of them begins in a chunk with a group. -/
theorem groups_erased_iff (positive : 0 < device.eraseSize) :
    (∀ sector, device.Inside (sector / device.eraseSize) startSec (startSec + nSec) →
      ∃ k < pieceCount mmcMaxEraseSector nSec, device.HasGroup startSec nSec k ∧
        chunkBegin startSec k ⌈/⌉ device.eraseSize ≤ sector / device.eraseSize ∧
        sector / device.eraseSize ≤ chunkEnd startSec nSec k / device.eraseSize) ↔
      device.Begins startSec nSec := by
  constructor
  · intro erased group inside k below begins ends
    by_contra noGroup
    have same : group * device.eraseSize / device.eraseSize = group :=
      Nat.mul_div_cancel group positive
    obtain ⟨i, _, hasGroup, first, last⟩ := erased (group * device.eraseSize) (same.symm ▸ inside)
    rw [same] at first last
    exact not_erased positive inside below begins ends noGroup hasGroup first last
  · intro starts sector inside
    have more : sector / device.eraseSize * device.eraseSize < startSec + nSec :=
      Nat.lt_of_lt_of_le (Nat.mul_lt_mul_of_pos_right (Nat.lt_succ_self _) positive) inside.2
    obtain ⟨k, below, begins, ends⟩ := exists_chunk inside.1 more
    refine ⟨k, below, starts _ inside k below begins ends, ?_, ?_⟩
    · rwa [ceilDiv_le_iff_le_mul positive, Nat.mul_comm]
    · rw [Nat.le_div_iff_mul_le positive]
      exact Nat.le_of_lt ends

end

/-- If the addresses of a call fit, then it erases the whole groups of its range and nothing else if
and only if no chunk with a group ends in a group that exceeds the range, and every group of the
range begins in a chunk with a group. -/
theorem erasesGroups_iff {device : EraseDevice} (supports : device.Supports) {startSec nSec : ℕ}
    (fits : device.Fits startSec nSec) :
    ErasesGroups device startSec nSec ↔
      device.EndsInside startSec nSec ∧ device.Begins startSec nSec := by
  rw [← erased_inside_iff supports.pos, ← groups_erased_iff supports.pos]
  constructor
  · intro right
    have success : (mmcDeviceErase device (fun _ => .fine) startSec nSec).1 = 0 :=
      fst_eraseLoop_fine supports ..
    have right := right _ success
    simp only [erases_call supports fits success] at right
    exact right
  · intro right answers success
    simp only [erases_call supports fits success]
    exact right

/-! ### Some calls -/

/-- A device with groups of eight sectors. -/
def emmc : EraseDevice := ⟨⟨true, false⟩, false, 8, mmcCsdCccErase⟩

theorem pieceCount_straddling : pieceCount mmcMaxEraseSector (mmcMaxEraseSector + 8) = 2 := by
  decide

/-- A call of two chunks, the first of which ends in the middle of a group. -/
theorem erasesGroups_straddling : ErasesGroups emmc 4 (mmcMaxEraseSector + 8) := by
  have sectors : mmcMaxEraseSector = 0x100000 := rfl
  have size : emmc.eraseSize = 8 := rfl
  have block : emmc.blockAddr = true := rfl
  have begins (k : ℕ) : chunkBegin 4 k = 4 + k * 0x100000 := rfl
  have ends (k : ℕ) : chunkEnd 4 (mmcMaxEraseSector + 8) k =
      4 + k * 0x100000 + min 0x100000 (0x100008 - k * 0x100000) := rfl
  refine (erasesGroups_iff (by decide) ?_).mpr ⟨?_, ?_⟩
  · intro k below
    rw [pieceCount_straddling] at below
    rw [begins, ends, size, block, if_pos rfl]
    omega
  · rintro k below ⟨group, first, last⟩
    rw [pieceCount_straddling] at below
    rw [begins, size] at first
    rw [ends, size] at last
    rw [ends, size]
    omega
  · rintro group ⟨_, inside⟩ k below first last
    rw [pieceCount_straddling] at below
    rw [size] at inside
    rw [begins, size] at first
    rw [ends, size] at last
    refine ⟨1, ?_, ?_⟩
    · rw [begins, size]
      omega
    · rw [ends, size]
      omega

/-- A device whose groups are larger than a chunk. -/
def largeGroups : EraseDevice := ⟨⟨true, false⟩, false, 0x180000, mmcCsdCccErase⟩

theorem cmds_emmc : mmcDeviceErase emmc (fun _ => .fine) 0 8 =
    (0, [⟨.eraseGroupStart, 0⟩, ⟨.eraseGroupEnd, 8⟩, ⟨.mmcErase, 0⟩]) := by
  rw [mmcDeviceErase, eraseLoop_of_le (by decide)]
  decide

theorem cmds_largeGroups : mmcDeviceErase largeGroups (fun _ => .fine) 0 0x200000 = (0, []) := by
  rw [mmcDeviceErase, eraseLoop_of_lt (by decide), eraseLoop_of_le (by decide)]
  decide

/-- The sector behind the range is erased. And a group that begins in the first of two chunks and
ends in the second one is not erased. -/
theorem erases_wrong_groups :
    (emmc.Supports ∧ erases emmc (mmcDeviceErase emmc (fun _ => .fine) 0 8).2 8 ∧
      ¬ErasesGroups emmc 0 8) ∧
    largeGroups.Supports ∧ largeGroups.Inside 0 0 0x200000 ∧
      ¬ErasesGroups largeGroups 0 0x200000 := by
  have behind : erases emmc (mmcDeviceErase emmc (fun _ => .fine) 0 8).2 8 := by
    rw [cmds_emmc]
    exact .inl ⟨⟨rfl, rfl, rfl⟩, by decide, by decide⟩
  refine ⟨⟨by decide, behind, fun right => ?_⟩, by decide, ⟨by decide, by decide⟩, fun right => ?_⟩
  · have inside := (right _ (by rw [cmds_emmc])).1 8 behind
    exact Nat.lt_irrefl 8 inside.2
  · have erased := (right _ (by rw [cmds_largeGroups])).2 0 ⟨by decide, by decide⟩
    rw [cmds_largeGroups] at erased
    exact erased

end Hdf.Storage.Mmc
