import Hdf.Lib.LittleEndian
import Mathlib.Data.List.Basic

/-!
# Reading a configuration blob

The loader reads a compiled configuration in place, through pointers into it. A
pointer is the part of the blob from there on. Reading beyond the end of the blob
is undefined in C and has no result here. Whether fields are padded is kept in a
static variable that checking a blob sets, and that is passed on here.
-/

namespace Hdf.HcsParser

/-- Bytes of a blob, from a pointer on. -/
abbrev Bytes := List UInt8

def configNode : UInt32 := 0x1
def configAttr : UInt32 := 0x2
def configReference : UInt32 := 0x3
def configArray : UInt32 := 0x4
def configByte : UInt32 := 0x10
def configWord : UInt32 := 0x11
def configDword : UInt32 := 0x12
def configQword : UInt32 := 0x13
def configString : UInt32 := 0x14

def hbcMagicNumber : UInt32 := 0xA00AA00A

/-- The size of `struct HbcHeader`. -/
def hbcHeaderLength : ℕ := 20

def hbcBlobMaxLength : ℕ := 1024 * 1024 * 10

def hdfFailure : ℤ := -1

def int32Max : ℤ := 2147483647

/-! ### Words and strings -/

/-- A little-endian number of some bytes at a pointer. -/
def wordAt (width : ℕ) (start : Bytes) : Option ℕ :=
  if width ≤ start.length then some (leNat (start.take width)) else none

def hcsByteCodeToUint8 (start : Bytes) : Option UInt8 := (wordAt 1 start).map .ofNat
def hcsByteCodeToUint16 (start : Bytes) : Option UInt16 := (wordAt 2 start).map .ofNat
def hcsByteCodeToUint32 (start : Bytes) : Option UInt32 := (wordAt 4 start).map .ofNat

/-- `strlen`. -/
def strlen : Bytes → Option ℕ
  | [] => none
  | c :: rest => if c = 0 then some 0 else (strlen rest).map (· + 1)

section

-- `g_byteAlign`
variable (byteAlign : Bool)

def hcsPrefixLength : ℕ := if byteAlign then 4 else 1
def hcsByteLength : ℕ := if byteAlign then 4 else 1
def hcsWordLength : ℕ := if byteAlign then 4 else 2
def hcsDwordLength : ℕ := 4
def hcsQwordLength : ℕ := 8

/-- `HCS_STRING_LENGTH`. `HcsAlignSize` rounds up to a multiple of 4. -/
def hcsStringLength (str : Bytes) : Option ℕ :=
  (strlen str).map fun n => if byteAlign then roundUp4 (n + 1) else n + 1

def hcsGetPrefix (start : Bytes) : Option UInt32 :=
  if byteAlign then hcsByteCodeToUint32 start
  else (hcsByteCodeToUint8 start).map UInt8.toUInt32

/-! ### Numbers -/

/-- `HcsSwapToUint8`, whose failure is no value. -/
def hcsSwapToUint8 (realValue : Bytes) (type : UInt32) : Option (Option UInt8) :=
  if type = configByte then
    (if byteAlign then (hcsByteCodeToUint32 realValue).map UInt32.toUInt8
      else hcsByteCodeToUint8 realValue).map some
  else some none

/-- `HcsSwapToUint16`. -/
def hcsSwapToUint16 (realValue : Bytes) (type : UInt32) : Option (Option UInt16) :=
  if type = configWord then
    (if byteAlign then (hcsByteCodeToUint32 realValue).map UInt32.toUInt16
      else hcsByteCodeToUint16 realValue).map some
  else (hcsSwapToUint8 byteAlign realValue type).map (Option.map UInt8.toUInt16)

/-- `HcsSwapToUint32`. -/
def hcsSwapToUint32 (realValue : Bytes) (type : UInt32) : Option (Option UInt32) :=
  if type = configDword then (hcsByteCodeToUint32 realValue).map some
  else (hcsSwapToUint16 byteAlign realValue type).map (Option.map UInt16.toUInt32)

/-! ### Lengths of records -/

def hcsGetDataTypeOffset (start : Bytes) : Option ℤ :=
  (hcsGetPrefix byteAlign start).bind fun opCode =>
    let data (length : ℕ) : ℤ := (length + hcsPrefixLength byteAlign : ℕ)
    if opCode = configByte then some (data (hcsByteLength byteAlign))
    else if opCode = configWord then some (data (hcsWordLength byteAlign))
    else if opCode = configDword ∨ opCode = configReference then some (data hcsDwordLength)
    else if opCode = configQword then some (data hcsQwordLength)
    else if opCode = configString then
      (hcsStringLength byteAlign (start.drop (hcsPrefixLength byteAlign))).map data
    else some hdfFailure

/-- The loop of `HcsGetArrayLength`, with the elements still to come. -/
def arrayLengthLoop (start : Bytes) : ℕ → ℕ → Option ℤ
  | 0, arrayLen => some arrayLen
  | left + 1, arrayLen =>
    (hcsGetDataTypeOffset byteAlign (start.drop arrayLen)).bind fun lenData =>
      if lenData < 0 then some hdfFailure
      else arrayLengthLoop start left (arrayLen + lenData.toNat)

def hcsGetArrayLength (start : Bytes) : Option ℤ :=
  (hcsSwapToUint16 byteAlign (start.drop (hcsPrefixLength byteAlign)) configWord).bind fun count =>
    match count with
    | none => some hdfFailure
    | some count => arrayLengthLoop byteAlign start count.toNat
        (hcsPrefixLength byteAlign + hcsWordLength byteAlign)

def hcsGetAttrLength (start : Bytes) : Option ℤ :=
  (hcsStringLength byteAlign (start.drop (hcsPrefixLength byteAlign))).bind fun nameLength =>
    let length := hcsPrefixLength byteAlign + nameLength
    let data := start.drop length
    (hcsGetPrefix byteAlign data).bind fun opCode =>
      (if opCode = configByte ∨ opCode = configWord ∨ opCode = configDword ∨
          opCode = configQword ∨ opCode = configString ∨ opCode = configReference then
        hcsGetDataTypeOffset byteAlign data
      else if opCode = configArray then hcsGetArrayLength byteAlign data
      else some hdfFailure).map fun dataLen =>
        if dataLen < 0 then hdfFailure else dataLen + length

def hcsGetNodeOrAttrLength (start : Bytes) : Option ℤ :=
  (hcsGetPrefix byteAlign start).bind fun opCode =>
    if opCode = configNode then
      (hcsStringLength byteAlign (start.drop (hcsPrefixLength byteAlign))).map fun nameLength =>
        ((nameLength + hcsPrefixLength byteAlign + hcsDwordLength : ℕ) : ℤ)
    else if opCode = configAttr then hcsGetAttrLength byteAlign start
    else some hdfFailure

/-- The length of a root with all records below it. A sum that does not fit `int32_t` is undefined
in C as well. -/
def hcsGetNodeLength (blob : Bytes) : Option ℤ :=
  (hcsGetNodeOrAttrLength byteAlign blob).bind fun rootLen =>
    if rootLen < 0 then some hdfFailure
    else
      (hcsStringLength byteAlign (blob.drop (hcsPrefixLength byteAlign))).bind fun nameLength =>
        (hcsByteCodeToUint32 (blob.drop (hcsPrefixLength byteAlign + nameLength))).bind fun size =>
          if rootLen + size.toInt32.toInt ≤ int32Max then some (rootLen + size.toInt32.toInt)
          else none

/-! ### Checking -/

/-- `CheckHcsBlobLength`: the result and the new value of `g_byteAlign`. The least length is
computed with the old value. -/
def checkHcsBlobLength (length : UInt32) (totalSize : Int32) : Bool × Bool :=
  let rootName := if byteAlign then 8 else 5
  let minLength : UInt32 :=
    .ofNat (rootName + hcsPrefixLength byteAlign + hcsDwordLength + hbcHeaderLength)
  let blobLength : UInt32 :=
    if totalSize ≥ 0 then .ofNat hbcHeaderLength + totalSize.toUInt32
    else .ofNat hbcHeaderLength - totalSize.toUInt32
  (!(decide (length ≠ blobLength) || decide (blobLength < minLength)), decide (totalSize < 0))

/-- `HcsCheckBlobFormat`: the result and the new value of `g_byteAlign`. -/
def hcsCheckBlobFormat (start : Bytes) (length : UInt32) : Option (Bool × Bool) :=
  if length.toNat < hbcHeaderLength ∨ length.toNat > hbcBlobMaxLength then some (false, byteAlign)
  else
    (hcsByteCodeToUint32 start).bind fun magicNumber =>
      if magicNumber ≠ hbcMagicNumber then some (false, byteAlign)
      else
        (hcsByteCodeToUint32 (start.drop 16)).map fun totalSize =>
          checkHcsBlobLength byteAlign length totalSize.toInt32

end

end Hdf.HcsParser
