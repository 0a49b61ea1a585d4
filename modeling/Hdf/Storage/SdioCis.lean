import Hdf.Lib.StoppedWalk
import Mathlib.Data.List.Basic
import Mathlib.Data.UInt

/-!
# The card information structure of SDIO cards

A card describes itself and each of its functions by a chain of tuples: a code, a link with the
length of the body, and the body. The driver follows the chain and keeps what it finds in tuples of
two kinds.

The registers are a function of the argument of a reading command, and all readings succeed.
Allocations may fail.

## Main definitions

* `sdioReadCis`: the driver, with a bound on the rounds of its loop
* `ChainAt`: a well-formed chain
* `DecodesCis`: reading ends, stays inside the bodies and misses no tuple of a chain
* `HasEnd`, `NoneBehindEmpty`: what the driver needs for it

## Main results

* `decodeField_eq`: what one tuple changes
* `sdioDecodeCis_of_walksTo`: what is read along the links until one stops
* `decodesCis_iff`: a card is read completely exactly under these conditions
-/

namespace Hdf.Storage.Cis

/-- `HDF_SUCCESS`. -/
def hdfSuccess : ℤ := 0

/-- `HDF_ERR_MALLOC_FAIL`. -/
def hdfErrMallocFail : ℤ := -6

/-- `SDIO_CIS_TPL_NULL`. -/
def sdioCisTplNull : UInt8 := 0x00

/-- `SDIO_CIS_TPL_MANFID`. -/
def sdioCisTplManfid : UInt8 := 0x20

/-- `SDIO_CIS_TPL_FUNCE`. -/
def sdioCisTplFunce : UInt8 := 0x22

/-- `SDIO_CIS_TPL_END`. -/
def sdioCisTplEnd : UInt8 := 0xFF

/-- `SDIO_CIS_TPL_FUNCE_COMMON`. -/
def sdioCisTplFunceCommon : UInt8 := 0

/-- `SDIO_CIS_TPL_FUNCE_FUNCTION_PC`. -/
def sdioCisTplFunceFunctionPc : UInt8 := 1

/-- `SDIO_CIS_TPL_MANFID_MIN_SIZE`. -/
def sdioCisTplManfidMinSize : ℕ := 0x04

/-- `SDIO_CIS_TPL_FUNCE_COMMON_MIN_SIZE`. -/
def sdioCisTplFunceCommonMinSize : ℕ := 0x04

/-- `SDIO_CCCR_SDIO_REV_1_00`. -/
def sdioCccrSdioRev100 : ℕ := 0x00

/-- `SDIO_CIS_TPLFE_ENABLE_TIMEOUT_VAL_DEF`. -/
def sdioCisTplfeEnableTimeoutValDef : ℕ := 100

/-- The least link of a function's extension: `SDIO_CIS_TPL_FUNCE_FUNCTION_PC_MIN_SIZE` or
`SDIO_CIS_TPL_FUNCE_FUNCTION_PC_MAX_SIZE`. -/
def functionMinSize (sdioRev : ℕ) : ℕ :=
  if sdioRev = sdioCccrSdioRev100 then 0x1C else 0x2A

/-- `struct SdioCisTuple`, whose body has as many bytes as the link says. -/
structure SdioCisTuple where
  tplCode : UInt8
  tplLink : UInt8
  tplBody : List UInt8
  length_tplBody : tplBody.length = tplLink.toNat

/-- `struct SdioCis`. -/
structure SdioCis where
  vendorId : ℕ
  deviceId : ℕ
  blkSize : ℕ
  maxDtr : ℕ

/-- `struct SdioFunction`. -/
structure SdioFunction where
  funcNum : UInt32
  maxBlkSize : ℕ
  vendorId : ℕ
  deviceId : ℕ
  timeOut : ℕ

/-- What is kept of a card while the structure of one function is read, or the common one. -/
structure Card where
  sdioRev : ℕ
  cis : SdioCis
  function : Option SdioFunction

/-! ### Tuples -/

/-- A byte of a body; there is none at or behind the link length. -/
def SdioCisTuple.byte (tuple : SdioCisTuple) (i : ℕ) : Option ℕ := tuple.tplBody[i]?.map UInt8.toNat

/-- Two bytes of a body, the low one first. -/
def SdioCisTuple.word (tuple : SdioCisTuple) (i : ℕ) : Option ℕ :=
  (tuple.byte (i + 1)).bind fun high => (tuple.byte i).map fun low => high <<< 8 ||| low

/-- `SdioDecodeCisTplManfId`. There is no result when the body ends too early. -/
def sdioDecodeCisTplManfId (card : Card) (tuple : SdioCisTuple) : Option Card :=
  if tuple.tplLink.toNat < sdioCisTplManfidMinSize then some card
  else
    (tuple.word 0).bind fun vendorId => (tuple.word 2).map fun deviceId =>
      match card.function with
      | some function => { card with function := some { function with vendorId, deviceId } }
      | none => { card with cis := { card.cis with vendorId, deviceId } }

/-- The transfer rate that a byte encodes. -/
def transferRate (speed : ℕ) : ℕ :=
  [10000, 100000, 1000000, 10000000, 0, 0, 0, 0].getD (speed &&& 7) 0 *
    [0, 10, 12, 13, 15, 20, 25, 30, 35, 40, 45, 50, 55, 60, 70, 80].getD ((speed >>> 3) &&& 15) 0

/-- `SdioDecodeCisTplFunceCommon`. -/
def sdioDecodeCisTplFunceCommon (card : Card) (tuple : SdioCisTuple) : Option Card :=
  if tuple.tplLink.toNat < sdioCisTplFunceCommonMinSize then some card
  else
    (tuple.word 1).bind fun blkSize => (tuple.byte 3).map fun speed =>
      { card with cis := { card.cis with blkSize, maxDtr := transferRate speed } }

/-- `SdioDecodeCisTplFunceFunction`. -/
def sdioDecodeCisTplFunceFunction (sdioRev : ℕ) (function : SdioFunction)
    (tuple : SdioCisTuple) : Option SdioFunction :=
  if tuple.tplLink.toNat < functionMinSize sdioRev then some function
  else
    (tuple.word 12).bind fun maxBlkSize =>
      if sdioRev > sdioCccrSdioRev100 then
        (tuple.word 28).map fun limit => { function with maxBlkSize, timeOut := limit * 10 }
      else some { function with maxBlkSize, timeOut := sdioCisTplfeEnableTimeoutValDef }

/-- `SdioDecodeCisTplFunce`. -/
def sdioDecodeCisTplFunce (card : Card) (tuple : SdioCisTuple) : Option Card :=
  tuple.tplBody[0]?.bind fun type =>
    if type = sdioCisTplFunceCommon then
      match card.function with
      | some _ => some card
      | none => sdioDecodeCisTplFunceCommon card tuple
    else if type = sdioCisTplFunceFunctionPc then
      match card.function with
      | none => some card
      | some function => (sdioDecodeCisTplFunceFunction card.sdioRev function tuple).map
          fun function => { card with function := some function }
    else some card

/-- `SdioDecodeCisTplField`. -/
def sdioDecodeCisTplField (card : Card) (tuple : SdioCisTuple) : Option Card :=
  if tuple.tplCode = sdioCisTplManfid then sdioDecodeCisTplManfId card tuple
  else if tuple.tplCode = sdioCisTplFunce then sdioDecodeCisTplFunce card tuple
  else some card

/-! ### Reading -/

/-- What the card answers to `SDIO_RW_DIRECT` with an argument. -/
abbrev Registers := UInt32 → UInt8

/-- `SdioReadCisTplField`: a reading of function 0, with the address from bit 9 on. -/
def sdioReadCisTplField (registers : Registers) (addr : UInt32) : UInt8 := registers (addr <<< 9)

/-- The loop of `SdioFillTplInfo`: the bytes behind an address, and the last address. -/
def fillBody (registers : Registers) : ℕ → UInt32 → List UInt8 × UInt32
  | 0, addr => ([], addr)
  | n + 1, addr =>
    let rest := fillBody registers n (addr + 1)
    (sdioReadCisTplField registers (addr + 1) :: rest.1, rest.2)

theorem length_fillBody (registers : Registers) (n : ℕ) (addr : UInt32) :
    (fillBody registers n addr).1.length = n := by
  induction n generalizing addr with
  | zero => rfl
  | succ n ih => exact congrArg (· + 1) (ih (addr + 1))

/-- `SdioFillTplInfo`. -/
def sdioFillTplInfo (registers : Registers) (addr : UInt32) (tplCode tplLink : UInt8) :
    SdioCisTuple × UInt32 :=
  let filled := fillBody registers tplLink.toNat addr
  ({ tplCode, tplLink, tplBody := filled.1, length_tplBody := length_fillBody _ _ _ }, filled.2)

/-- What becomes of a reading with a bound on its rounds. -/
inductive Reading where
  | unfinished
  /-- A byte behind the end of a body has been asked for. -/
  | overread
  | returned (status : ℤ) (decoded : List SdioCisTuple) (card : Card)

/-- `SdioDecodeCis`, with the tuples that have been decoded. The `k`-th allocation succeeds if
`memory k` says so. -/
def sdioDecodeCis (registers : Registers) (memory : ℕ → Bool) :
    ℕ → UInt32 → List SdioCisTuple → Card → Reading
  | 0, _, _, _ => .unfinished
  | fuel + 1, addr, decoded, card =>
    let tplCode := sdioReadCisTplField registers addr
    if tplCode = sdioCisTplEnd ∨ tplCode = sdioCisTplNull then .returned hdfSuccess decoded card
    else
      let addr := addr + 1
      let tplLink := sdioReadCisTplField registers addr
      if tplLink = sdioCisTplEnd then .returned hdfSuccess decoded card
      -- the address stays at the link, which is the next code
      else if tplLink = sdioCisTplNull then sdioDecodeCis registers memory fuel addr decoded card
      else if memory decoded.length then
        let filled := sdioFillTplInfo registers addr tplCode tplLink
        match sdioDecodeCisTplField card filled.1 with
        | none => .overread
        | some card =>
          sdioDecodeCis registers memory fuel (filled.2 + 1) (decoded ++ [filled.1]) card
      else .returned hdfErrMallocFail decoded card

/-- The pointer to the structure of a function, from registers 0xn09 to 0xn0B. -/
def cisStartAddr (registers : Registers) (funcNum : UInt32) : UInt32 :=
  (List.range 3).foldl (fun start i => start |||
    (sdioReadCisTplField registers (funcNum * 0x100 + 0x09 + UInt32.ofNat i)).toUInt32 <<<
      UInt32.ofNat (i * 8)) 0

/-- Where the structure of a card or a function begins. -/
def Card.start (registers : Registers) (card : Card) : UInt32 :=
  cisStartAddr registers (card.function.elim 0 SdioFunction.funcNum)

/-- `SdioReadCis`. -/
def sdioReadCis (registers : Registers) (memory : ℕ → Bool) (fuel : ℕ) (card : Card) : Reading :=
  sdioDecodeCis registers memory fuel (card.start registers) [] card

/-! ### Chains -/

/-- The place of the tuple behind one. -/
def next (registers : Registers) (addr : UInt32) : UInt32 :=
  addr + 2 + (sdioReadCisTplField registers (addr + 1)).toUInt32

/-- The tuple at an address. -/
def tupleAt (registers : Registers) (addr : UInt32) : SdioCisTuple where
  tplCode := sdioReadCisTplField registers addr
  tplLink := sdioReadCisTplField registers (addr + 1)
  tplBody := (List.range (sdioReadCisTplField registers (addr + 1)).toNat).map fun i =>
    sdioReadCisTplField registers (addr + 2 + UInt32.ofNat i)
  length_tplBody := by rw [List.length_map, List.length_range]

/-- A well-formed chain, ended by the mark as a code or as a link. -/
inductive ChainAt (registers : Registers) : UInt32 → List SdioCisTuple → Prop
  | code {addr : UInt32} : sdioReadCisTplField registers addr = sdioCisTplEnd →
      ChainAt registers addr []
  | link {addr : UInt32} : sdioReadCisTplField registers addr ≠ sdioCisTplNull →
      sdioReadCisTplField registers (addr + 1) = sdioCisTplEnd → ChainAt registers addr []
  | tuple {addr : UInt32} {rest : List SdioCisTuple} :
      sdioReadCisTplField registers addr ≠ sdioCisTplNull →
      sdioReadCisTplField registers addr ≠ sdioCisTplEnd →
      sdioReadCisTplField registers (addr + 1) ≠ sdioCisTplEnd →
      ChainAt registers (next registers addr) rest →
      ChainAt registers addr (tupleAt registers addr :: rest)

/-- Two bytes of a body as a number. -/
def SdioCisTuple.wordAt (tuple : SdioCisTuple) (i : ℕ) : ℕ :=
  (tuple.tplBody.getD (i + 1) 0).toNat * 256 + (tuple.tplBody.getD i 0).toNat

/-- A manufacturer identification of sufficient length. -/
def SdioCisTuple.IsManfId (tuple : SdioCisTuple) : Prop :=
  tuple.tplCode = sdioCisTplManfid ∧ sdioCisTplManfidMinSize ≤ tuple.tplLink.toNat

instance (tuple : SdioCisTuple) : Decidable tuple.IsManfId := inferInstanceAs (Decidable (_ ∧ _))

/-- An extension of sufficient length, for the card or for functions. -/
def Card.Extends (card : Card) (tuple : SdioCisTuple) : Prop :=
  tuple.tplCode = sdioCisTplFunce ∧
    match card.function with
    | none => tuple.tplBody[0]? = some sdioCisTplFunceCommon ∧
        sdioCisTplFunceCommonMinSize ≤ tuple.tplLink.toNat
    | some _ => tuple.tplBody[0]? = some sdioCisTplFunceFunctionPc ∧
        functionMinSize card.sdioRev ≤ tuple.tplLink.toNat

instance : (card : Card) → (tuple : SdioCisTuple) → Decidable (card.Extends tuple)
  | { function := none, .. }, _ => inferInstanceAs (Decidable (_ ∧ _ ∧ _))
  | { function := some _, .. }, _ => inferInstanceAs (Decidable (_ ∧ _ ∧ _))

/-- A tuple that determines something. -/
def Card.Decides (card : Card) (tuple : SdioCisTuple) : Prop :=
  tuple.IsManfId ∨ card.Extends tuple

instance (card : Card) (tuple : SdioCisTuple) : Decidable (card.Decides tuple) :=
  inferInstanceAs (Decidable (_ ∨ _))

/-- Vendor and device. -/
def Card.ids (card : Card) : ℕ × ℕ :=
  match card.function with
  | none => (card.cis.vendorId, card.cis.deviceId)
  | some function => (function.vendorId, function.deviceId)

/-- The block size with the rate of a card or with the time-out of a function. -/
def Card.limits (card : Card) : ℕ × ℕ :=
  match card.function with
  | none => (card.cis.blkSize, card.cis.maxDtr)
  | some function => (function.maxBlkSize, function.timeOut)

/-- A card with these values, and nothing else changed. -/
def Card.stored (card : Card) (ids limits : ℕ × ℕ) : Card :=
  match card.function with
  | none => { card with
      cis := { vendorId := ids.1, deviceId := ids.2, blkSize := limits.1, maxDtr := limits.2 } }
  | some function => { card with
      function := some { funcNum := function.funcNum, maxBlkSize := limits.1, vendorId := ids.1,
                         deviceId := ids.2, timeOut := limits.2 } }

/-- What a manufacturer identification says. -/
def SdioCisTuple.ids (tuple : SdioCisTuple) : ℕ × ℕ := (tuple.wordAt 0, tuple.wordAt 2)

/-- What an extension says. -/
def Card.limitsOf (card : Card) (tuple : SdioCisTuple) : ℕ × ℕ :=
  match card.function with
  | none => (tuple.wordAt 1, transferRate (tuple.tplBody.getD 3 0).toNat)
  | some _ => (tuple.wordAt 12,
      if card.sdioRev = sdioCccrSdioRev100 then sdioCisTplfeEnableTimeoutValDef
      else tuple.wordAt 28 * 10)

/-- The last tuple of each kind determines the values. -/
def Card.after (card : Card) (chain : List SdioCisTuple) : Card :=
  card.stored
    (((chain.filter fun tuple => tuple.IsManfId).getLast?.map SdioCisTuple.ids).getD card.ids)
    (((chain.filter fun tuple => card.Extends tuple).getLast?.map card.limitsOf).getD card.limits)

/-- Reading ends, never asks for a byte behind a body and, if there is memory, decodes each
tuple of a well-formed chain that determines something. -/
structure DecodesCis (registers : Registers) (card : Card) : Prop where
  ends : ∀ memory, ∃ fuel status decoded result,
    sdioReadCis registers memory fuel card = .returned status decoded result
  safe : ∀ memory fuel, sdioReadCis registers memory fuel card ≠ .overread
  complete : ∀ chain, ChainAt registers (card.start registers) chain →
    ∃ fuel decoded, sdioReadCis registers (fun _ => true) fuel card =
      .returned hdfSuccess decoded (card.after chain) ∧
      decoded.filter (fun tuple => card.Decides tuple) =
        chain.filter (fun tuple => card.Decides tuple)

/-- The driver stops at a tuple: at a mark, or at an empty body, whose link it takes for a code. -/
def Stops (registers : Registers) (addr : UInt32) : Prop :=
  (sdioReadCisTplField registers addr = sdioCisTplEnd ∨
    sdioReadCisTplField registers addr = sdioCisTplNull) ∨
  sdioReadCisTplField registers (addr + 1) = sdioCisTplEnd ∨
    sdioReadCisTplField registers (addr + 1) = sdioCisTplNull

/-- The links lead to a tuple where the driver stops. -/
def HasEnd (registers : Registers) (start : UInt32) : Prop :=
  ∃ k, Stops registers ((next registers)^[k] start)

/-- Behind an empty body no tuple of a well-formed chain determines anything. -/
def NoneBehindEmpty (registers : Registers) (card : Card) : Prop :=
  ∀ chain, ChainAt registers (card.start registers) chain →
    ∀ tuple ∈ chain.dropWhile fun tuple => tuple.tplLink ≠ sdioCisTplNull, ¬ card.Decides tuple

/-! ### One tuple -/

section

variable {card : Card} {tuple : SdioCisTuple} {ids limits : ℕ × ℕ} {i : ℕ}

@[simp] theorem ids_stored (card : Card) (ids limits : ℕ × ℕ) :
    (card.stored ids limits).ids = ids := by
  obtain ⟨_, _, _ | _⟩ := card <;> rfl

@[simp] theorem limits_stored (card : Card) (ids limits : ℕ × ℕ) :
    (card.stored ids limits).limits = limits := by
  obtain ⟨_, _, _ | _⟩ := card <;> rfl

@[simp] theorem stored_stored (card : Card) (ids limits ids' limits' : ℕ × ℕ) :
    (card.stored ids limits).stored ids' limits' = card.stored ids' limits' := by
  obtain ⟨_, _, _ | _⟩ := card <;> rfl

@[simp] theorem stored_self (card : Card) : card.stored card.ids card.limits = card := by
  obtain ⟨_, _, _ | _⟩ := card <;> rfl

@[simp] theorem limitsOf_stored (card : Card) (ids limits : ℕ × ℕ) :
    (card.stored ids limits).limitsOf = card.limitsOf := by
  obtain ⟨_, _, _ | _⟩ := card <;> rfl

@[simp] theorem extends_stored (card : Card) (ids limits : ℕ × ℕ) (tuple : SdioCisTuple) :
    (card.stored ids limits).Extends tuple ↔ card.Extends tuple := by
  obtain ⟨_, _, _ | _⟩ := card <;> rfl

theorem byte_of_lt (inside : i < tuple.tplLink.toNat) :
    tuple.byte i = some (tuple.tplBody.getD i 0).toNat := by
  have listed : i < tuple.tplBody.length := tuple.length_tplBody ▸ inside
  rw [SdioCisTuple.byte, List.getD_eq_getElem?_getD, List.getElem?_eq_getElem listed]
  rfl

theorem word_of_lt (inside : i + 1 < tuple.tplLink.toNat) :
    tuple.word i = some (tuple.wordAt i) := by
  have low : (tuple.tplBody.getD i 0).toNat < 2 ^ 8 := UInt8.toNat_lt _
  have joined := Nat.two_pow_add_eq_or_of_lt low (tuple.tplBody.getD (i + 1) 0).toNat
  rw [SdioCisTuple.word, byte_of_lt inside, byte_of_lt (Nat.lt_of_succ_lt inside),
    SdioCisTuple.wordAt, Nat.mul_comm, joined, Nat.mul_comm, ← Nat.shiftLeft_eq]
  rfl

/-- A card after one tuple. -/
def Card.afterTuple (card : Card) (tuple : SdioCisTuple) : Card :=
  card.stored (if tuple.IsManfId then tuple.ids else card.ids)
    (if card.Extends tuple then card.limitsOf tuple else card.limits)

theorem sdioDecodeCisTplManfId_eq (card : Card) (tuple : SdioCisTuple) :
    sdioDecodeCisTplManfId card tuple =
      some (if tuple.tplLink.toNat < sdioCisTplManfidMinSize then card
        else card.stored tuple.ids card.limits) := by
  rw [sdioDecodeCisTplManfId]
  split
  · rfl
  · rename_i enough
    have long : 4 ≤ tuple.tplLink.toNat := Nat.not_lt.mp enough
    rw [word_of_lt (by omega), word_of_lt (by omega)]
    obtain ⟨_, _, _ | _⟩ := card <;> rfl

theorem sdioDecodeCisTplFunceCommon_eq (common : card.function = none) :
    sdioDecodeCisTplFunceCommon card tuple =
      some (if tuple.tplLink.toNat < sdioCisTplFunceCommonMinSize then card
        else card.stored card.ids (card.limitsOf tuple)) := by
  rw [sdioDecodeCisTplFunceCommon]
  split
  · rfl
  · rename_i enough
    have long : 4 ≤ tuple.tplLink.toNat := Nat.not_lt.mp enough
    rw [word_of_lt (by omega), byte_of_lt (by omega)]
    obtain ⟨_, _, _⟩ := card
    subst common
    rfl

theorem sdioDecodeCisTplFunceFunction_eq {function : SdioFunction}
    (own : card.function = some function) :
    (sdioDecodeCisTplFunceFunction card.sdioRev function tuple).map
        (fun function => { card with function := some function }) =
      some (if tuple.tplLink.toNat < functionMinSize card.sdioRev then card
        else card.stored card.ids (card.limitsOf tuple)) := by
  obtain ⟨rev, cis, _⟩ := card
  subst own
  rw [sdioDecodeCisTplFunceFunction]
  split
  · rfl
  · rename_i enough
    have long := Nat.not_lt.mp enough
    by_cases first : rev = sdioCccrSdioRev100
    · rw [functionMinSize, if_pos first] at long
      rw [word_of_lt (by omega), Card.stored, Card.limitsOf, if_pos first]
      dsimp only [Option.bind]
      rw [if_neg (by rw [first]; exact Nat.lt_irrefl _)]
      rfl
    · rw [functionMinSize, if_neg first] at long
      rw [word_of_lt (by omega), word_of_lt (by omega), Card.stored, Card.limitsOf, if_neg first]
      dsimp only [Option.bind]
      have later : rev > sdioCccrSdioRev100 := Nat.pos_of_ne_zero first
      rw [if_pos later]
      rfl

theorem sdioDecodeCisTplFunce_eq (code : tuple.tplCode = sdioCisTplFunce)
    (body : tuple.tplLink ≠ sdioCisTplNull) :
    sdioDecodeCisTplFunce card tuple =
      some (if card.Extends tuple then card.stored card.ids (card.limitsOf tuple) else card) := by
  have nonempty : 0 < tuple.tplBody.length := by
    rw [tuple.length_tplBody]
    exact Nat.pos_of_ne_zero fun none => body (UInt8.toNat_inj.mp none)
  have first := List.getElem?_eq_getElem nonempty
  rw [sdioDecodeCisTplFunce, first, Option.bind_some]
  obtain ⟨rev, cis, _ | function⟩ := card
  · dsimp only
    rw [sdioDecodeCisTplFunceCommon_eq rfl]
    by_cases common : tuple.tplBody[0] = sdioCisTplFunceCommon
    · have extends_iff : (Card.mk rev cis none).Extends tuple ↔
          ¬ tuple.tplLink.toNat < sdioCisTplFunceCommonMinSize := by
        simp only [Card.Extends, code, first, common, true_and, Nat.not_lt]
      rw [if_pos common]
      simp only [extends_iff, ite_not]
    · have other : ¬ (Card.mk rev cis none).Extends tuple := fun extending =>
        common (Option.some.inj (first.symm.trans extending.2.1))
      rw [if_neg common, if_neg other]
      split <;> rfl
  · dsimp only
    have decoded := @sdioDecodeCisTplFunceFunction_eq ⟨rev, cis, some function⟩ tuple function rfl
    dsimp only at decoded
    rw [decoded]
    by_cases own : tuple.tplBody[0] = sdioCisTplFunceFunctionPc
    · have extends_iff : (Card.mk rev cis (some function)).Extends tuple ↔
          ¬ tuple.tplLink.toNat < functionMinSize rev := by
        simp only [Card.Extends, code, first, own, true_and, Nat.not_lt]
      have common : tuple.tplBody[0] ≠ sdioCisTplFunceCommon := by
        rw [own]
        decide
      rw [if_neg common, if_pos own]
      simp only [extends_iff, ite_not]
    · have other : ¬ (Card.mk rev cis (some function)).Extends tuple := fun extending =>
        own (Option.some.inj (first.symm.trans extending.2.1))
      rw [if_neg own, if_neg other, ite_self]

/-- A tuple with a body changes what it determines, and is read within its body. -/
theorem decodeField_eq (card : Card) (tuple : SdioCisTuple)
    (body : tuple.tplLink ≠ sdioCisTplNull) :
    sdioDecodeCisTplField card tuple = some (card.afterTuple tuple) := by
  rw [sdioDecodeCisTplField, Card.afterTuple]
  by_cases manfid : tuple.tplCode = sdioCisTplManfid
  · have other : ¬ card.Extends tuple := fun extending =>
      absurd (manfid.symm.trans extending.1) (by decide)
    rw [if_pos manfid, if_neg other, sdioDecodeCisTplManfId_eq]
    by_cases short : tuple.tplLink.toNat < sdioCisTplManfidMinSize
    · rw [if_pos short, if_neg fun long => absurd long.2 (Nat.not_le.mpr short), stored_self]
    · rw [if_neg short, if_pos ⟨manfid, Nat.not_lt.mp short⟩]
  · have other : ¬ tuple.IsManfId := fun manfId => manfid manfId.1
    rw [if_neg manfid, if_neg other]
    by_cases funce : tuple.tplCode = sdioCisTplFunce
    · rw [if_pos funce, sdioDecodeCisTplFunce_eq funce body]
      split
      · rfl
      · rw [stored_self]
    · have none : ¬ card.Extends tuple := fun extending => funce extending.1
      rw [if_neg funce, if_neg none, stored_self]

theorem after_nil (card : Card) : card.after [] = card := stored_self card

/-- The values after one tuple more. -/
theorem after_concat (card : Card) (chain : List SdioCisTuple) (tuple : SdioCisTuple) :
    card.after (chain ++ [tuple]) = (card.after chain).afterTuple tuple := by
  have last : ∀ (p : SdioCisTuple → Bool) (value : SdioCisTuple → ℕ × ℕ) (default : ℕ × ℕ),
      (((chain ++ [tuple]).filter p).getLast?.map value).getD default =
        if p tuple then value tuple else ((chain.filter p).getLast?.map value).getD default := by
    intro p value default
    rw [List.filter_append]
    by_cases kept : p tuple
    · rw [List.filter_cons_of_pos kept, List.filter_nil, List.getLast?_concat, if_pos kept]
      rfl
    · rw [List.filter_cons_of_neg kept, List.filter_nil, List.append_nil, if_neg kept]
  rw [Card.after, last, last, Card.afterTuple, Card.after, stored_stored, ids_stored, limits_stored,
    limitsOf_stored]
  simp only [extends_stored, decide_eq_true_eq]

/-- Tuples behind a chain that determine nothing change nothing. -/
theorem after_append_of_none {chain rest : List SdioCisTuple}
    (none : ∀ tuple ∈ rest, ¬ card.Decides tuple) :
    card.after (chain ++ rest) = card.after chain := by
  have manfIds : rest.filter (fun tuple => tuple.IsManfId) = [] :=
    List.filter_eq_nil_iff.mpr fun tuple listed kept =>
      none tuple listed (.inl (of_decide_eq_true kept))
  have extending : rest.filter (fun tuple => card.Extends tuple) = [] :=
    List.filter_eq_nil_iff.mpr fun tuple listed kept =>
      none tuple listed (.inr (of_decide_eq_true kept))
  rw [Card.after, List.filter_append, List.filter_append, manfIds, extending, List.append_nil,
    List.append_nil, Card.after]

end

/-! ### The loop -/

section

variable {registers : Registers} {memory : ℕ → Bool} {addr : UInt32} {card : Card}
  {decoded : List SdioCisTuple} {fuel : ℕ}

/-- The body behind an address, and the last address of it. -/
theorem fillBody_eq (registers : Registers) (n : ℕ) (addr : UInt32) :
    fillBody registers n addr =
      ((List.range n).map fun i => sdioReadCisTplField registers (addr + 1 + UInt32.ofNat i),
        addr + UInt32.ofNat n) := by
  induction n generalizing addr with
  | zero => exact Prod.ext rfl (UInt32.add_zero addr).symm
  | succ n ih =>
    rw [fillBody, ih, List.range_succ_eq_map, List.map_cons, List.map_map]
    have behind : ∀ i : ℕ, addr + 1 + UInt32.ofNat i = addr + UInt32.ofNat (i + 1) := by
      intro i
      rw [UInt32.add_assoc, UInt32.add_comm 1, UInt32.ofNat_add]
      rfl
    refine Prod.ext (List.cons_eq_cons.mpr ⟨?_, List.map_congr_left fun i _ => ?_⟩) (behind n)
    · exact congrArg _ (UInt32.add_zero _).symm
    · rw [add_right_comm _ 1, behind i, add_right_comm]
      rfl

theorem sdioFillTplInfo_eq (registers : Registers) (addr : UInt32) :
    sdioFillTplInfo registers (addr + 1) (sdioReadCisTplField registers addr)
        (sdioReadCisTplField registers (addr + 1)) =
      (tupleAt registers addr, addr + 1 + (sdioReadCisTplField registers (addr + 1)).toUInt32) := by
  have twice : addr + 1 + 1 = addr + 2 := UInt32.add_assoc addr 1 1
  simp only [sdioFillTplInfo, fillBody_eq, twice, UInt32.ofNat_uInt8ToNat]
  rfl

/-- Where the driver stops, it returns what it has. -/
theorem sdioDecodeCis_of_stops (stops : Stops registers addr) :
    sdioDecodeCis registers memory (fuel + 2) addr decoded card =
      .returned hdfSuccess decoded card := by
  rw [sdioDecodeCis]
  dsimp only
  by_cases code : sdioReadCisTplField registers addr = sdioCisTplEnd ∨
      sdioReadCisTplField registers addr = sdioCisTplNull
  · rw [if_pos code]
  · rw [if_neg code]
    by_cases mark : sdioReadCisTplField registers (addr + 1) = sdioCisTplEnd
    · rw [if_pos mark]
    · -- the empty link is the code of the next round
      have empty := (stops.resolve_left code).resolve_left mark
      rw [if_neg mark, if_pos empty, sdioDecodeCis]
      dsimp only
      rw [if_pos (.inr empty)]

/-- Elsewhere it decodes the tuple, if there is memory, and goes on behind it. -/
theorem sdioDecodeCis_of_goes (goes : ¬ Stops registers addr) :
    sdioDecodeCis registers memory (fuel + 1) addr decoded card =
      if memory decoded.length then
        sdioDecodeCis registers memory fuel (next registers addr)
          (decoded ++ [tupleAt registers addr]) (card.afterTuple (tupleAt registers addr))
      else .returned hdfErrMallocFail decoded card := by
  obtain ⟨code, link⟩ := not_or.mp goes
  obtain ⟨mark, empty⟩ := not_or.mp link
  rw [sdioDecodeCis]
  dsimp only
  rw [if_neg code, if_neg mark, if_neg empty, sdioFillTplInfo_eq]
  dsimp only
  rw [decodeField_eq card (tupleAt registers addr) empty]
  have behind : addr + 1 + (sdioReadCisTplField registers (addr + 1)).toUInt32 + 1 =
      next registers addr := by
    rw [add_right_comm, UInt32.add_assoc addr 1 1]
    rfl
  dsimp only
  rw [behind]

/-- No byte behind a body is asked for. -/
theorem sdioDecodeCis_ne_overread :
    sdioDecodeCis registers memory fuel addr decoded card ≠ .overread := by
  induction fuel generalizing addr decoded card with
  | zero =>
    intro read
    cases read
  | succ fuel ih =>
    by_cases stops : Stops registers addr
    · rw [sdioDecodeCis]
      dsimp only
      split_ifs with code mark empty
      · exact fun read => by cases read
      · exact fun read => by cases read
      · exact ih
      · exact absurd stops (not_or.mpr ⟨code, not_or.mpr ⟨mark, empty⟩⟩)
      · exact fun read => by cases read
    · rw [sdioDecodeCis_of_goes stops]
      split
      · exact ih
      · exact fun read => by cases read

/-- Without an end of its memory, the loop decodes the tuples along the links until one where it
stops. -/
theorem sdioDecodeCis_of_walksTo {places : List UInt32}
    (walk : WalksTo (next registers) (Stops registers) addr places) :
    sdioDecodeCis registers (fun _ => true) (places.length + 2) addr decoded (card.after decoded) =
      .returned hdfSuccess (decoded ++ places.map (tupleAt registers))
        (card.after (decoded ++ places.map (tupleAt registers))) := by
  induction walk generalizing decoded with
  | stop here => rw [sdioDecodeCis_of_stops here, List.map_nil, List.append_nil]
  | go goes _ ih =>
    rw [List.length_cons, Nat.add_right_comm, sdioDecodeCis_of_goes goes, if_pos rfl,
      ← after_concat, ih, List.map_cons, List.append_assoc]
    rfl

theorem sdioDecodeCis_ends {places : List UInt32} (memory : ℕ → Bool)
    (walk : WalksTo (next registers) (Stops registers) addr places) (decoded : List SdioCisTuple)
    (card : Card) : ∃ status all result,
      sdioDecodeCis registers memory (places.length + 2) addr decoded card =
        .returned status all result := by
  induction walk generalizing decoded card with
  | stop here => exact ⟨_, _, _, sdioDecodeCis_of_stops here⟩
  | go goes _ ih =>
    rw [List.length_cons, Nat.add_right_comm, sdioDecodeCis_of_goes goes]
    split
    · exact ih _ _
    · exact ⟨_, _, _, rfl⟩

/-- The loop only returns when the links come to a tuple where it stops, and then with the tuples
before this one. -/
theorem walksTo_of_returned {status : ℤ} {all : List SdioCisTuple} {result : Card}
    (returned : sdioDecodeCis registers (fun _ => true) fuel addr decoded card =
      .returned status all result) :
    ∃ places, WalksTo (next registers) (Stops registers) addr places ∧
      all = decoded ++ places.map (tupleAt registers) := by
  induction fuel generalizing addr decoded card with
  | zero => cases returned
  | succ fuel ih =>
    by_cases stops : Stops registers addr
    · refine ⟨[], .stop stops, ?_⟩
      rw [List.map_nil, List.append_nil]
      cases fuel with
      | zero =>
        rw [sdioDecodeCis] at returned
        dsimp only at returned
        split_ifs at returned with code mark empty
        · cases returned
          rfl
        · cases returned
          rfl
        · cases returned
        all_goals exact absurd stops (not_or.mpr ⟨code, not_or.mpr ⟨mark, empty⟩⟩)
      | succ fuel =>
        rw [sdioDecodeCis_of_stops stops] at returned
        cases returned
        rfl
    · rw [sdioDecodeCis_of_goes stops, if_pos rfl] at returned
      obtain ⟨places, walk, rfl⟩ := ih returned
      refine ⟨addr :: places, .go stops walk, ?_⟩
      rw [List.map_cons, List.append_assoc]
      rfl

/-- Along a well-formed chain the driver comes to the first empty body, or to the end. -/
theorem walksTo_of_chainAt {chain : List SdioCisTuple} (wellFormed : ChainAt registers addr chain) :
    ∃ places, WalksTo (next registers) (Stops registers) addr places ∧
      places.map (tupleAt registers) =
        chain.takeWhile fun tuple => tuple.tplLink ≠ sdioCisTplNull := by
  induction wellFormed with
  | code mark => exact ⟨[], .stop (.inl (.inl mark)), rfl⟩
  | link _ mark => exact ⟨[], .stop (.inr (.inl mark)), rfl⟩
  | @tuple addr rest notNull notEnd notMark _ ih =>
    by_cases empty : sdioReadCisTplField registers (addr + 1) = sdioCisTplNull
    · have dropped : ¬ decide ((tupleAt registers addr).tplLink ≠ sdioCisTplNull) = true :=
        fun kept => of_decide_eq_true kept empty
      refine ⟨[], .stop (.inr (.inr empty)), ?_⟩
      rw [List.takeWhile_cons, if_neg dropped]
      rfl
    · obtain ⟨places, walk, same⟩ := ih
      have goes : ¬ Stops registers addr :=
        not_or.mpr ⟨not_or.mpr ⟨notEnd, notNull⟩, not_or.mpr ⟨notMark, empty⟩⟩
      have kept : decide ((tupleAt registers addr).tplLink ≠ sdioCisTplNull) = true :=
        decide_eq_true empty
      refine ⟨addr :: places, .go goes walk, ?_⟩
      rw [List.takeWhile_cons, if_pos kept, ← same]
      rfl

end

/-! ### Cards -/

/-- A card's structure is read completely exactly when the links come to a tuple where the driver
stops, and no tuple behind an empty one determines anything. -/
theorem decodesCis_iff (registers : Registers) (card : Card) :
    DecodesCis registers card ↔
      HasEnd registers (card.start registers) ∧ NoneBehindEmpty registers card := by
  constructor
  · intro decodes
    constructor
    · obtain ⟨fuel, status, all, result, returned⟩ := decodes.ends fun _ => true
      obtain ⟨places, walk, -⟩ := walksTo_of_returned returned
      exact walk.exists_stops
    · intro chain wellFormed tuple listed decides
      obtain ⟨fuel, all, returned, same⟩ := decodes.complete chain wellFormed
      obtain ⟨places, walk, rfl⟩ := walksTo_of_returned returned
      obtain ⟨others, walk', before⟩ := walksTo_of_chainAt wellFormed
      obtain rfl := walk.unique walk'
      -- what is decoded lies before the first empty body, so that none is left behind it
      have split := @List.takeWhile_append_dropWhile _
        (fun tuple : SdioCisTuple => tuple.tplLink ≠ sdioCisTplNull) chain
      rw [List.nil_append, before] at same
      nth_rewrite 2 [← split] at same
      rw [List.filter_append, List.self_eq_append_right] at same
      exact List.filter_eq_nil_iff.mp same tuple listed (decide_eq_true decides)
  · rintro ⟨hasEnd, noneBehind⟩
    obtain ⟨places, walk⟩ := exists_walksTo_iff.mpr hasEnd
    refine ⟨fun memory => ?_, fun _ _ => sdioDecodeCis_ne_overread, fun chain wellFormed => ?_⟩
    · obtain ⟨status, all, result, returned⟩ := sdioDecodeCis_ends memory walk [] card
      exact ⟨_, status, all, result, returned⟩
    · obtain ⟨others, walk', before⟩ := walksTo_of_chainAt wellFormed
      obtain rfl := walk.unique walk'
      have read := @sdioDecodeCis_of_walksTo registers _ card [] places walk
      have split := @List.takeWhile_append_dropWhile _
        (fun tuple : SdioCisTuple => tuple.tplLink ≠ sdioCisTplNull) chain
      have none := noneBehind chain wellFormed
      rw [List.nil_append, before, after_nil, ← after_append_of_none none, split] at read
      refine ⟨_, _, read, ?_⟩
      nth_rewrite 2 [← split]
      rw [List.filter_append, List.self_eq_append_right, List.filter_eq_nil_iff]
      exact fun tuple listed decides => none tuple listed (of_decide_eq_true decides)

/-- A structure at 0x1000 with an empty tuple before the manufacturer identification. -/
def emptyFirst : Registers := fun argument =>
  let addr := (argument >>> 9).toNat
  if addr = 0x0A then 0x10
  else if addr < 0x1000 then 0
  else [0x80, 0, 0x20, 4, 1, 2, 3, 4, 0xFF].getD (addr - 0x1000) 0

/-- A card before anything is read. -/
def freshCard : Card where
  sdioRev := 3
  cis := { vendorId := 0, deviceId := 0, blkSize := 0, maxDtr := 0 }
  function := none

/-- A tuple behind an empty one is not decoded. -/
theorem misses_behind_empty : ¬ ∀ registers card, DecodesCis registers card := by
  intro always
  have wellFormed : ChainAt emptyFirst (freshCard.start emptyFirst)
      [tupleAt emptyFirst 0x1000, tupleAt emptyFirst 0x1002] :=
    .tuple (by decide) (by decide) (by decide)
      (.tuple (by decide) (by decide) (by decide) (.code (by decide)))
  obtain ⟨fuel, all, returned, same⟩ := (always emptyFirst freshCard).complete _ wellFormed
  obtain ⟨places, walk, rfl⟩ := walksTo_of_returned returned
  have nothing : WalksTo (next emptyFirst) (Stops emptyFirst) (freshCard.start emptyFirst) [] :=
    .stop (.inr (.inr (by decide)))
  obtain rfl := walk.unique nothing
  exact absurd (congrArg List.length same) (by decide)

end Hdf.Storage.Cis
