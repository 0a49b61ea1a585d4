import Hdf.Core.Base
import Hdf.Lib.BitFields
import Hdf.Lib.Runs

/-!
# Mixer controls

A mixer control is a field of a register, or two fields for the left and the right channel,
in one register or in two. Setting a control writes the fields, and getting it reads them. The
codec, the accessory and the interface of the processor have the same functions with
different status codes.

Whether the accesses to the registers succeed comes with the call.

## Main results

* `readsBack_of_runs`: after every run of such calls, the control reads what has been set
* `forgets_values`: calls after which it does not
-/

namespace Hdf.Audio.Mixer

open BitVec Hdf.Core

/-- `struct AudioMixerControl`. Its bounds are compared with unsigned numbers. -/
structure AudioMixerControl where
  min : BitVec 32
  max : BitVec 32
  mask : BitVec 32
  reg : BitVec 32
  rreg : BitVec 32
  shift : ℕ
  rshift : ℕ
  invert : Bool
  deriving DecidableEq, Repr

/-- The values of a call. -/
structure Values where
  left : BitVec 32
  right : BitVec 32
  deriving DecidableEq, Repr

/-- The registers of a device. -/
abbrev Regs := BitVec 32 → BitVec 32

/-- Whether a register can be read and written. -/
structure Access where
  reads : Bool
  writes : Bool

/-- A control with two channels. -/
def AudioMixerControl.Stereo (mixerCtrl : AudioMixerControl) : Prop :=
  mixerCtrl.reg ≠ mixerCtrl.rreg ∨ mixerCtrl.shift ≠ mixerCtrl.rshift

instance (mixerCtrl : AudioMixerControl) : Decidable mixerCtrl.Stereo :=
  inferInstanceAs (Decidable (_ ∨ _))

/-- The function that `AudioUpdateCodecRegBits`, `AudioUpdateAccessoryRegBits` and
`AudioUpdateDaiRegBits` have in common. -/
def updateRegBits (access : Access) (reg mask : BitVec 32) (shift : ℕ) (value : BitVec 32)
    (regs : Regs) : HdfStatus × Regs :=
  if ¬access.reads then (.failure, regs)
  else if ¬access.writes then (.failure, regs)
  else (.success, Function.update regs reg ((regs reg).setField mask shift value))

/-- `AudioUpdateCodecRegBits`. -/
def audioUpdateCodecRegBits := updateRegBits

/-- `AudioUpdateAccessoryRegBits`. -/
def audioUpdateAccessoryRegBits := updateRegBits

/-- `AudioUpdateDaiRegBits`. -/
def audioUpdateDaiRegBits := updateRegBits

/-- `AudioSetCtrlOpsReg`, and the value for the left field. -/
def audioSetCtrlOpsReg (mixerCtrl : AudioMixerControl) (elemValue : Values) :
    HdfStatus × BitVec 32 :=
  let value := elemValue.left
  if value < mixerCtrl.min ∨ mixerCtrl.max < value then (.invalidObject, value)
  else (.success, if mixerCtrl.invert then mixerCtrl.max - value else value)

/-- `AudioSetCtrlOpsRReg`: the control, and the value for the right field if it is updated. The
shift for the right field is stored as that of the control. -/
def audioSetCtrlOpsRReg (mixerCtrl : AudioMixerControl) (elemValue : Values) :
    HdfStatus × AudioMixerControl × Option (BitVec 32) :=
  if mixerCtrl.Stereo then
    let rvalue := elemValue.right
    if rvalue < mixerCtrl.min ∨ mixerCtrl.max < rvalue then (.failure, mixerCtrl, some rvalue)
    else
      let rshift := if mixerCtrl.reg = mixerCtrl.rreg then mixerCtrl.rshift else mixerCtrl.shift
      (.success, { mixerCtrl with shift := rshift },
        some (if mixerCtrl.invert then mixerCtrl.max - rvalue else rvalue))
  else (.success, mixerCtrl, none)

/-- The function that `AudioCodecSetCtrlOps`, `AudioAccessorySetCtrlOps` and
`AudioCpuDaiSetCtrlOps` have in common, with the status code for values that are refused and the
function that updates a register. -/
def setCtrlOps (refused : HdfStatus)
    (update : Access → BitVec 32 → BitVec 32 → ℕ → BitVec 32 → Regs → HdfStatus × Regs)
    (left right : Access) (elemValue : Values) (mixerCtrl : AudioMixerControl) (regs : Regs) :
    HdfStatus × AudioMixerControl × Regs :=
  let (ret, value) := audioSetCtrlOpsReg mixerCtrl elemValue
  if ret ≠ .success then (refused, mixerCtrl, regs)
  else
    let (ret, regs) := update left mixerCtrl.reg mixerCtrl.mask mixerCtrl.shift value regs
    if ret ≠ .success then (.failure, mixerCtrl, regs)
    else
      -- the right value is checked only now, after the left field has been written
      let (ret, mixerCtrl, rvalue) := audioSetCtrlOpsRReg mixerCtrl elemValue
      if ret ≠ .success then (refused, mixerCtrl, regs)
      else match rvalue with
        | none => (.success, mixerCtrl, regs)
        | some rvalue =>
          let (ret, regs) := update right mixerCtrl.rreg mixerCtrl.mask mixerCtrl.rshift rvalue regs
          (if ret ≠ .success then .failure else .success, mixerCtrl, regs)

/-- `AudioCodecSetCtrlOps`. -/
def audioCodecSetCtrlOps := setCtrlOps .invalidObject audioUpdateCodecRegBits

/-- `AudioAccessorySetCtrlOps`. -/
def audioAccessorySetCtrlOps := setCtrlOps .failure audioUpdateAccessoryRegBits

/-- `AudioCpuDaiSetCtrlOps`. -/
def audioCpuDaiSetCtrlOps := setCtrlOps .invalidObject audioUpdateDaiRegBits

/-- `AudioGetCtrlOpsReg`, with the values that are returned. -/
def audioGetCtrlOpsReg (elemValue : Values) (mixerCtrl : AudioMixerControl)
    (curValue : BitVec 32) : HdfStatus × Values :=
  let curValue := curValue.field mixerCtrl.mask mixerCtrl.shift
  if mixerCtrl.max < curValue ∨ curValue < mixerCtrl.min then (.failure, elemValue)
  else
    (.success,
      { elemValue with left := if mixerCtrl.invert then mixerCtrl.max - curValue else curValue })

/-- `AudioGetCtrlOpsRReg`, with the values that are returned. -/
def audioGetCtrlOpsRReg (elemValue : Values) (mixerCtrl : AudioMixerControl)
    (rcurValue : BitVec 32) : HdfStatus × Values :=
  if mixerCtrl.Stereo then
    let rcurValue :=
      if mixerCtrl.reg = mixerCtrl.rreg then rcurValue.field mixerCtrl.mask mixerCtrl.rshift
      else rcurValue.field mixerCtrl.mask mixerCtrl.shift
    if mixerCtrl.max < rcurValue ∨ rcurValue < mixerCtrl.min then (.failure, elemValue)
    else
      (.success, { elemValue with
        right := if mixerCtrl.invert then mixerCtrl.max - rcurValue else rcurValue })
  else (.success, elemValue)

/-- The function that `AudioCodecGetCtrlOps`, `AudioAccessoryGetCtrlOps` and
`AudioCpuDaiGetCtrlOps` have in common. -/
def getCtrlOps (left right : Access) (mixerCtrl : AudioMixerControl) (regs : Regs)
    (elemValue : Values) : HdfStatus × Values :=
  if ¬left.reads ∨ ¬right.reads then (.failure, elemValue)
  else
    let (ret, elemValue) := audioGetCtrlOpsReg elemValue mixerCtrl (regs mixerCtrl.reg)
    if ret ≠ .success then (.failure, elemValue)
    else
      let (ret, elemValue) := audioGetCtrlOpsRReg elemValue mixerCtrl (regs mixerCtrl.rreg)
      if ret ≠ .success then (.failure, elemValue) else (.success, elemValue)

/-- `AudioCodecGetCtrlOps`. -/
def audioCodecGetCtrlOps := getCtrlOps

/-- `AudioAccessoryGetCtrlOps`. -/
def audioAccessoryGetCtrlOps := getCtrlOps

/-- `AudioCpuDaiGetCtrlOps`. -/
def audioCpuDaiGetCtrlOps := getCtrlOps

/-! ### Runs -/

/-- The devices that have mixer controls. -/
inductive Variant where
  | codec | accessory | cpuDai
  deriving DecidableEq, Repr

/-- All accesses to a register succeed. -/
def Access.fine : Access := ⟨true, true⟩

/-- Setting a control of a device. -/
def Variant.set : Variant → Values → AudioMixerControl → Regs → HdfStatus × AudioMixerControl × Regs
  | .codec => audioCodecSetCtrlOps .fine .fine
  | .accessory => audioAccessorySetCtrlOps .fine .fine
  | .cpuDai => audioCpuDaiSetCtrlOps .fine .fine

/-- Getting a control of a device. -/
def Variant.get : Variant → AudioMixerControl → Regs → Values → HdfStatus × Values
  | .codec => audioCodecGetCtrlOps .fine .fine
  | .accessory => audioAccessoryGetCtrlOps .fine .fine
  | .cpuDai => audioCpuDaiGetCtrlOps .fine .fine

/-- The control, the registers, and the values of the last call that returned success. -/
structure State where
  control : AudioMixerControl
  regs : Regs
  last : Option Values

/-- A call that sets the control. -/
def step (variant : Variant) (elemValue : Values) (s : State) : Option State :=
  let (ret, control, regs) := variant.set elemValue s.control s.regs
  some ⟨control, regs, if ret = .success then some elemValue else s.last⟩

/-- A value is in the range of a control. -/
def AudioMixerControl.InRange (mixerCtrl : AudioMixerControl) (value : BitVec 32) : Prop :=
  mixerCtrl.min ≤ value ∧ value ≤ mixerCtrl.max

instance (mixerCtrl : AudioMixerControl) (value : BitVec 32) :
    Decidable (mixerCtrl.InRange value) :=
  inferInstanceAs (Decidable (_ ∧ _))

/-- The values for the channels of a control are in its range. -/
def AudioMixerControl.Accepts (mixerCtrl : AudioMixerControl) (elemValue : Values) : Prop :=
  mixerCtrl.InRange elemValue.left ∧ (mixerCtrl.Stereo → mixerCtrl.InRange elemValue.right)

/-- The bits of a register that belong to a control. -/
def AudioMixerControl.bits (mixerCtrl : AudioMixerControl) (reg : BitVec 32) : BitVec 32 :=
  (if reg = mixerCtrl.reg then mixerCtrl.mask <<< mixerCtrl.shift else 0) |||
    (if reg = mixerCtrl.rreg then mixerCtrl.mask <<< mixerCtrl.rshift else 0)

/-- The fields of a control are fields of 32-bit registers, and have room for its values. -/
structure AudioMixerControl.WellFormed (mixerCtrl : AudioMixerControl) : Prop where
  ones : mixerCtrl.mask.IsOnes
  left : mixerCtrl.mask.Fits mixerCtrl.shift
  right : mixerCtrl.mask.Fits mixerCtrl.rshift
  max_le : mixerCtrl.max ≤ mixerCtrl.mask

/-- A call changes nothing if a value is out of range. Otherwise the control has one channel, or
two channels with the same shift in two registers. And the values of an inverted control are in
range when they are inverted. -/
def Orderly (elemValue : Values) (s : State) : Prop :=
  s.control.InRange elemValue.left →
    (s.control.Stereo → s.control.reg ≠ s.control.rreg ∧ s.control.shift = s.control.rshift ∧
      s.control.InRange elemValue.right) ∧
    (s.control.invert = true → s.control.min ≤ s.control.max - elemValue.left ∧
      (s.control.Stereo → s.control.min ≤ s.control.max - elemValue.right))

instance (elemValue : Values) (s : State) : Decidable (Orderly elemValue s) :=
  inferInstanceAs (Decidable (_ → (_ → _ ∧ _ ∧ _) ∧ (_ → _ ∧ (_ → _))))

/-- A control reads what has been set, and nothing else has changed. -/
structure ReadsBack (variant : Variant) (first s : State) : Prop where
  reads : ∀ elemValue, s.last = some elemValue → ∀ old,
    (variant.get s.control s.regs old).1 = .success ∧
    (variant.get s.control s.regs old).2.left = elemValue.left ∧
    (s.control.Stereo → (variant.get s.control s.regs old).2.right = elemValue.right)
  control : s.control = first.control
  others : ∀ reg, s.regs reg &&& ~~~first.control.bits reg =
    first.regs reg &&& ~~~first.control.bits reg
  /-- A call with a value out of range fails and changes nothing. -/
  refuses : ∀ elemValue, Orderly elemValue s → ¬s.control.Accepts elemValue →
    (variant.set elemValue s.control s.regs).1 ≠ .success ∧
      (variant.set elemValue s.control s.regs).2 = (s.control, s.regs)

/-! ### Single calls -/

/-- The status code of a device for values that are refused. -/
def Variant.refused : Variant → HdfStatus
  | .accessory => .failure
  | _ => .invalidObject

theorem Variant.refused_ne (variant : Variant) : variant.refused ≠ .success := by
  cases variant <;> decide

theorem Variant.set_eq (variant : Variant) :
    variant.set = setCtrlOps variant.refused updateRegBits .fine .fine := by
  cases variant <;> rfl

theorem Variant.get_eq (variant : Variant) : variant.get = getCtrlOps .fine .fine := by
  cases variant <;> rfl

/-- The value of a field. -/
def AudioMixerControl.raw (mixerCtrl : AudioMixerControl) (value : BitVec 32) : BitVec 32 :=
  if mixerCtrl.invert then mixerCtrl.max - value else value

/-- The registers in which a field has been replaced. -/
def AudioMixerControl.write (mixerCtrl : AudioMixerControl) (reg : BitVec 32) (shift : ℕ)
    (value : BitVec 32) (regs : Regs) : Regs :=
  Function.update regs reg ((regs reg).setField mixerCtrl.mask shift (mixerCtrl.raw value))

section

variable {variant : Variant} {mixerCtrl : AudioMixerControl} {value : BitVec 32}
  {elemValue : Values} {regs : Regs} {first s t : State}

theorem outside_iff : (value < mixerCtrl.min ∨ mixerCtrl.max < value) ↔
    ¬mixerCtrl.InRange value := by
  rw [AudioMixerControl.InRange, not_and_or, BitVec.not_le, BitVec.not_le]

theorem updateRegBits_fine (reg : BitVec 32) (shift : ℕ) :
    updateRegBits .fine reg mixerCtrl.mask shift (mixerCtrl.raw value) regs =
      (.success, mixerCtrl.write reg shift value regs) := rfl

theorem audioSetCtrlOpsReg_of_inRange (inRange : mixerCtrl.InRange elemValue.left) :
    audioSetCtrlOpsReg mixerCtrl elemValue = (.success, mixerCtrl.raw elemValue.left) := by
  rw [audioSetCtrlOpsReg]
  exact if_neg fun outside => outside_iff.mp outside inRange

/-- A left value out of range changes nothing. -/
theorem Variant.set_of_not_inRange (outside : ¬mixerCtrl.InRange elemValue.left) :
    variant.set elemValue mixerCtrl regs = (variant.refused, mixerCtrl, regs) := by
  have refuses : audioSetCtrlOpsReg mixerCtrl elemValue = (.invalidObject, elemValue.left) := by
    rw [audioSetCtrlOpsReg]
    exact if_pos (outside_iff.mpr outside)
  rw [variant.set_eq, setCtrlOps, refuses]
  rfl

/-- Setting a control with one channel. -/
theorem Variant.set_of_mono (inRange : mixerCtrl.InRange elemValue.left)
    (mono : ¬mixerCtrl.Stereo) : variant.set elemValue mixerCtrl regs =
      (.success, mixerCtrl, mixerCtrl.write mixerCtrl.reg mixerCtrl.shift elemValue.left regs) := by
  have right : audioSetCtrlOpsRReg mixerCtrl elemValue = (.success, mixerCtrl, none) := if_neg mono
  rw [variant.set_eq, setCtrlOps, audioSetCtrlOpsReg_of_inRange inRange]
  simp only [updateRegBits_fine, right, ne_eq, not_true_eq_false, if_false]

/-- Setting a control with two registers. -/
theorem Variant.set_of_two_regs (inRange : mixerCtrl.InRange elemValue.left)
    (differ : mixerCtrl.reg ≠ mixerCtrl.rreg) (right : mixerCtrl.InRange elemValue.right) :
    variant.set elemValue mixerCtrl regs = (.success, mixerCtrl,
      mixerCtrl.write mixerCtrl.rreg mixerCtrl.rshift elemValue.right
        (mixerCtrl.write mixerCtrl.reg mixerCtrl.shift elemValue.left regs)) := by
  have right : audioSetCtrlOpsRReg mixerCtrl elemValue =
      (.success, mixerCtrl, some (mixerCtrl.raw elemValue.right)) := by
    have stereo : mixerCtrl.Stereo := Or.inl differ
    rw [audioSetCtrlOpsRReg, if_pos stereo]
    dsimp only
    rw [if_neg fun outside => outside_iff.mp outside right, if_neg differ]
    rfl
  rw [variant.set_eq, setCtrlOps, audioSetCtrlOpsReg_of_inRange inRange]
  simp only [updateRegBits_fine, right, ne_eq, not_true_eq_false, if_false]


/-! ### What the fields hold -/

/-- The left and the right field hold values whose inversions are in range. -/
structure Holds (mixerCtrl : AudioMixerControl) (regs : Regs) (elemValue : Values) : Prop where
  left : (regs mixerCtrl.reg).field mixerCtrl.mask mixerCtrl.shift =
    mixerCtrl.raw elemValue.left
  inRange : mixerCtrl.InRange elemValue.left
  rawInRange : mixerCtrl.InRange (mixerCtrl.raw elemValue.left)
  right : mixerCtrl.Stereo → mixerCtrl.reg ≠ mixerCtrl.rreg ∧
    (regs mixerCtrl.rreg).field mixerCtrl.mask mixerCtrl.shift =
      mixerCtrl.raw elemValue.right ∧
    mixerCtrl.InRange elemValue.right ∧ mixerCtrl.InRange (mixerCtrl.raw elemValue.right)

/-- Inverting twice. -/
theorem raw_raw (inRange : mixerCtrl.InRange value) :
    (if mixerCtrl.invert then mixerCtrl.max - mixerCtrl.raw value else mixerCtrl.raw value) =
      value := by
  rw [AudioMixerControl.raw]
  split
  · have le := inRange.2
    bv_omega
  · rfl

/-- An inverted value is in range if it is not too small. -/
theorem inRange_raw (inRange : mixerCtrl.InRange value)
    (large : mixerCtrl.invert = true → mixerCtrl.min ≤ mixerCtrl.max - value) :
    mixerCtrl.InRange (mixerCtrl.raw value) := by
  rw [AudioMixerControl.raw]
  split
  · rename_i invert
    refine ⟨large invert, ?_⟩
    rw [BitVec.le_def, BitVec.toNat_sub_of_le inRange.2]
    exact Nat.sub_le ..
  · exact inRange

/-- A value that is in range has room in the mask. -/
theorem raw_and_mask (wellFormed : mixerCtrl.WellFormed)
    (inRange : mixerCtrl.InRange (mixerCtrl.raw value)) :
    mixerCtrl.raw value &&& mixerCtrl.mask = mixerCtrl.raw value :=
  wellFormed.ones.and_eq (BitVec.le_trans inRange.2 wellFormed.max_le)

theorem field_write (wellFormed : mixerCtrl.WellFormed) {shift : ℕ}
    (fits : mixerCtrl.mask.Fits shift) (inRange : mixerCtrl.InRange (mixerCtrl.raw value))
    (reg : BitVec 32) :
    (mixerCtrl.write reg shift value regs reg).field mixerCtrl.mask shift =
      mixerCtrl.raw value := by
  rw [AudioMixerControl.write, Function.update_self]
  exact field_setField fits (raw_and_mask wellFormed inRange)

theorem Holds.get (holds : Holds mixerCtrl regs elemValue) (old : Values) :
    (variant.get mixerCtrl regs old).1 = .success ∧
    (variant.get mixerCtrl regs old).2.left = elemValue.left ∧
    (mixerCtrl.Stereo → (variant.get mixerCtrl regs old).2.right = elemValue.right) := by
  have left : audioGetCtrlOpsReg old mixerCtrl (regs mixerCtrl.reg) =
      (.success, { old with left := elemValue.left }) := by
    rw [audioGetCtrlOpsReg]
    simp only [holds.left]
    rw [if_neg fun outside => outside_iff.mp outside.symm holds.rawInRange, raw_raw holds.inRange]
  by_cases stereo : mixerCtrl.Stereo
  · obtain ⟨differ, right, inRange, rawInRange⟩ := holds.right stereo
    have right : audioGetCtrlOpsRReg { old with left := elemValue.left } mixerCtrl
        (regs mixerCtrl.rreg) = (.success, elemValue) := by
      rw [audioGetCtrlOpsRReg, if_pos stereo]
      simp only [if_neg differ, right]
      rw [if_neg fun outside => outside_iff.mp outside.symm rawInRange, raw_raw inRange]
    rw [variant.get_eq, getCtrlOps, if_neg (by decide), left]
    dsimp only
    rw [if_neg (not_not_intro rfl), right]
    exact ⟨rfl, rfl, fun _ => rfl⟩
  · have right : audioGetCtrlOpsRReg { old with left := elemValue.left } mixerCtrl
        (regs mixerCtrl.rreg) = (.success, { old with left := elemValue.left }) := if_neg stereo
    rw [variant.get_eq, getCtrlOps, if_neg (by decide), left]
    dsimp only
    rw [if_neg (not_not_intro rfl), right]
    exact ⟨rfl, rfl, fun both => absurd both stereo⟩


/-! ### What a call keeps -/

theorem write_of_ne {reg other : BitVec 32} {shift : ℕ} (differ : other ≠ reg) :
    mixerCtrl.write reg shift value regs other = regs other :=
  Function.update_of_ne differ ..

/-- Writing a field of a control changes none of the other bits. -/
theorem write_and_not {reg : BitVec 32} {shift : ℕ}
    (own : mixerCtrl.mask <<< shift &&& ~~~mixerCtrl.bits reg = 0) (other : BitVec 32) :
    mixerCtrl.write reg shift value regs other &&& ~~~mixerCtrl.bits other =
      regs other &&& ~~~mixerCtrl.bits other := by
  by_cases same : other = reg
  · subst other
    rw [AudioMixerControl.write, Function.update_self]
    exact setField_and_not own
  · rw [write_of_ne same]


theorem and_not_or (x y : BitVec 32) : x &&& ~~~(x ||| y) = 0 := by
  apply eq_of_getLsbD_eq
  intro i _
  simp only [getLsbD_and, getLsbD_not, getLsbD_or]
  cases x.getLsbD i <;> simp

theorem left_own (mixerCtrl : AudioMixerControl) :
    mixerCtrl.mask <<< mixerCtrl.shift &&& ~~~mixerCtrl.bits mixerCtrl.reg = 0 := by
  rw [AudioMixerControl.bits, if_pos rfl]
  exact and_not_or ..

theorem right_own (mixerCtrl : AudioMixerControl) :
    mixerCtrl.mask <<< mixerCtrl.rshift &&& ~~~mixerCtrl.bits mixerCtrl.rreg = 0 := by
  rw [AudioMixerControl.bits, BitVec.or_comm, if_pos rfl]
  exact and_not_or ..

/-- What calls keep. -/
structure Kept (first s : State) : Prop where
  control : s.control = first.control
  others : ∀ reg, s.regs reg &&& ~~~first.control.bits reg =
    first.regs reg &&& ~~~first.control.bits reg
  holds : ∀ elemValue, s.last = some elemValue → Holds s.control s.regs elemValue

/-- A refused call. -/
theorem step_of_not_inRange (outside : ¬s.control.InRange elemValue.left) :
    step variant elemValue s = some s := by
  rw [step, Variant.set_of_not_inRange outside]
  simp only [if_neg variant.refused_ne]

/-- A call for a control with one channel. -/
theorem step_of_mono (inRange : s.control.InRange elemValue.left) (mono : ¬s.control.Stereo) :
    step variant elemValue s = some ⟨s.control,
      s.control.write s.control.reg s.control.shift elemValue.left s.regs, some elemValue⟩ := by
  rw [step, Variant.set_of_mono inRange mono]
  rfl

/-- A call for a control with two registers. -/
theorem step_of_two_regs (inRange : s.control.InRange elemValue.left)
    (differ : s.control.reg ≠ s.control.rreg) (right : s.control.InRange elemValue.right) :
    step variant elemValue s = some ⟨s.control,
      s.control.write s.control.rreg s.control.rshift elemValue.right
        (s.control.write s.control.reg s.control.shift elemValue.left s.regs),
      some elemValue⟩ := by
  rw [step, Variant.set_of_two_regs inRange differ right]
  rfl

theorem Kept.step (wellFormed : first.control.WellFormed) (kept : Kept first s)
    (orderly : Orderly elemValue s) (stepped : Mixer.step variant elemValue s = some t) :
    Kept first t := by
  rw [← kept.control] at wellFormed
  by_cases inRange : s.control.InRange elemValue.left
  · obtain ⟨channels, inverted⟩ := orderly inRange
    have raw := inRange_raw inRange fun invert => (inverted invert).1
    have left (reg : BitVec 32) :
        s.control.write s.control.reg s.control.shift elemValue.left s.regs reg &&&
          ~~~s.control.bits reg = first.regs reg &&& ~~~s.control.bits reg :=
      (write_and_not (left_own s.control) reg).trans (kept.control ▸ kept.others reg)
    by_cases stereo : s.control.Stereo
    · obtain ⟨differ, shifts, right⟩ := channels stereo
      have rightRaw := inRange_raw right fun invert => (inverted invert).2 stereo
      rw [step_of_two_regs inRange differ right, Option.some.injEq] at stepped
      subst stepped
      refine ⟨kept.control, fun reg => ?_, fun values same => ?_⟩
      · rw [← kept.control]
        exact (write_and_not (right_own s.control) reg).trans (left reg)
      · obtain rfl : elemValue = values := Option.some.inj same
        refine ⟨?_, inRange, raw, fun _ => ⟨differ, ?_, right, rightRaw⟩⟩
        · exact (congrArg (field · _ _) (write_of_ne differ)).trans
            (field_write wellFormed wellFormed.left raw _)
        · rw [shifts]
          exact field_write wellFormed wellFormed.right rightRaw _
    · rw [step_of_mono inRange stereo, Option.some.injEq] at stepped
      subst stepped
      refine ⟨kept.control, fun reg => ?_, fun values same => ?_⟩
      · rw [← kept.control]
        exact left reg
      · obtain rfl : elemValue = values := Option.some.inj same
        exact ⟨field_write wellFormed wellFormed.left raw _, inRange, raw,
          fun both => absurd both stereo⟩
  · rw [step_of_not_inRange inRange, Option.some.injEq] at stepped
    exact stepped ▸ kept

/-- A call with a value out of range that meets the condition fails and changes nothing. -/
theorem set_of_not_accepts (orderly : Orderly elemValue s)
    (outside : ¬s.control.Accepts elemValue) :
    (variant.set elemValue s.control s.regs).1 ≠ .success ∧
      (variant.set elemValue s.control s.regs).2 = (s.control, s.regs) := by
  have left : ¬s.control.InRange elemValue.left := fun inRange =>
    outside ⟨inRange, fun stereo => ((orderly inRange).1 stereo).2.2⟩
  rw [Variant.set_of_not_inRange left]
  exact ⟨variant.refused_ne, rfl⟩

end

/-- After every run of calls that meet the condition, the control reads what has been set. -/
theorem readsBack_of_runs (variant : Variant) {mixerCtrl : AudioMixerControl} {regs : Regs}
    {s : State} (wellFormed : mixerCtrl.WellFormed) {calls : List Values}
    (orderly : Meets (step variant) Orderly ⟨mixerCtrl, regs, none⟩ calls)
    (ran : runs (step variant) ⟨mixerCtrl, regs, none⟩ calls = some s) :
    ReadsBack variant ⟨mixerCtrl, regs, none⟩ s := by
  have start : Kept ⟨mixerCtrl, regs, none⟩ ⟨mixerCtrl, regs, none⟩ :=
    ⟨rfl, fun _ => rfl, fun _ same => absurd same (Option.some_ne_none _).symm⟩
  have kept := runs_invariant
    (fun _ _ _ kept orderly stepped => Kept.step wellFormed kept orderly stepped) start orderly ran
  exact ⟨fun elemValue last => (kept.holds elemValue last).get, kept.control, kept.others,
    fun _ orderly outside => set_of_not_accepts orderly outside⟩

/-! ### Some runs -/

/-- An inverted control with two channels in two registers. -/
def twoRegs : AudioMixerControl := ⟨0, 10, 15, 1, 2, 4, 4, true⟩

theorem wellFormed_twoRegs : twoRegs.WellFormed :=
  ⟨⟨4, by decide⟩, by decide, by decide, by decide⟩

theorem readsBack_twoRegs : ∃ s,
    runs (step .codec) ⟨twoRegs, fun _ => 0, none⟩ [⟨3, 4⟩, ⟨11, 0⟩, ⟨10, 0⟩] = some s ∧
    ReadsBack .codec ⟨twoRegs, fun _ => 0, none⟩ s ∧ s.last = some ⟨10, 0⟩ ∧
    s.regs 1 = 0 ∧ s.regs 2 = 0xa0 :=
  ⟨_, rfl, @readsBack_of_runs .codec _ _ _ wellFormed_twoRegs [⟨3, 4⟩, ⟨11, 0⟩, ⟨10, 0⟩]
    (by decide) rfl, by decide, by decide, by decide⟩

/-- A control with two channels in one register. -/
def oneReg : AudioMixerControl := ⟨0, 10, 15, 1, 1, 0, 8, false⟩

/-- A control with two channels and different shifts in two registers. -/
def twoShifts : AudioMixerControl := ⟨0, 10, 15, 1, 2, 0, 8, false⟩

/-- An inverted control with a lower bound. -/
def lowerBound : AudioMixerControl := ⟨2, 10, 15, 1, 1, 0, 0, true⟩

/-- With two channels in one register, a call changes the description of the control, and has
changed a register when it is refused because of its right value. With different shifts in two
registers, the right value is not read back. And with a lower bound, the value of an inverted
control cannot be read back. -/
theorem forgets_values :
    (oneReg.WellFormed ∧
      oneReg.mask <<< oneReg.shift &&& oneReg.mask <<< oneReg.rshift = 0 ∧
      ∃ s, runs (step .codec) ⟨oneReg, fun _ => 0, none⟩ [⟨3, 4⟩] = some s ∧
        s.control.shift = 8 ∧ s.last = some ⟨3, 4⟩ ∧
        (Variant.get .codec s.control s.regs ⟨0, 0⟩).2 = ⟨4, 0⟩) ∧
    (oneReg.WellFormed ∧
      (Variant.set .codec ⟨3, 11⟩ oneReg fun _ => 0).1 = .invalidObject ∧
      (Variant.set .codec ⟨3, 11⟩ oneReg fun _ => 0).2.2 1 = 3) ∧
    (twoShifts.WellFormed ∧
      ∃ s, runs (step .codec) ⟨twoShifts, fun _ => 0, none⟩ [⟨3, 4⟩] = some s ∧
        s.last = some ⟨3, 4⟩ ∧ Variant.get .codec s.control s.regs ⟨0, 0⟩ = (.success, ⟨3, 0⟩)) ∧
    (lowerBound.WellFormed ∧
      ∃ s, runs (step .codec) ⟨lowerBound, fun _ => 0, none⟩ [⟨9, 0⟩] = some s ∧
        s.last = some ⟨9, 0⟩ ∧ (Variant.get .codec s.control s.regs ⟨0, 0⟩).1 = .failure) := by
  refine ⟨⟨?_, by decide, _, rfl, ?_⟩, ⟨?_, ?_⟩, ⟨?_, _, rfl, ?_⟩, ⟨?_, _, rfl, ?_⟩⟩
  · exact ⟨⟨4, by decide⟩, by decide, by decide, by decide⟩
  · decide
  · exact ⟨⟨4, by decide⟩, by decide, by decide, by decide⟩
  · decide
  · exact ⟨⟨4, by decide⟩, by decide, by decide, by decide⟩
  · decide
  · exact ⟨⟨4, by decide⟩, by decide, by decide, by decide⟩
  · decide

end Hdf.Audio.Mixer
