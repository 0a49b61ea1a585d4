import Hdf.Lib.LittleEndian
import Hdf.Lib.Storage
import Mathlib.Data.Nat.Bits

/-!
# The raw sbuf

A raw sbuf is a block of storage with a write and a read position. Every element
starts at a multiple of four from the first one, and an sbuf that owns its
storage moves to a larger block when an element does not fit.

Sizes and positions are of type `size_t`, which has 64 bits; lengths in the data
are words of 32 bits. The outcomes of allocations are arguments: `none` when the
memory is exhausted, else the address of the new block. A function has no result
when it touches a byte outside the storage.
-/

namespace Hdf.Sbuf

/-- `HDF_SBUF_GROW_SIZE_DEFAULT`. -/
def hdfSbufGrowSizeDefault : ℕ := 256

/-- `HDF_SBUF_MAX_SIZE`. -/
def hdfSbufMaxSize : ℕ := 512 * 1024

/-- `HDF_SBUF_ALIGN`. -/
def hdfSbufAlign : ℕ := 4

/-- `INT16_MAX`. -/
def int16Max : ℕ := 32767

/-- `SECUREC_MEM_MAX_LEN`, the largest size that `memcpy_s` accepts. -/
def securecMemMaxLen : ℕ := 2 ^ 31 - 1

/-- Conversion to `size_t`. -/
def sizeT (n : ℕ) : ℕ := n % 2 ^ 64

/-- Conversion of an `int` to `size_t`, which extends the sign. -/
def sizeOfInt (n : Int32) : ℕ := (n.toInt % 2 ^ 64).toNat

/-- Conversion to `uint32_t`. -/
def uint32T (n : ℕ) : ℕ := n % 2 ^ 32

/-- A block of memory: its address and its bytes. -/
structure Block where
  base : ℕ
  bytes : List UInt8
  deriving DecidableEq, Repr

/-- `struct HdfSBufRaw`, with the block that `data` points to. -/
structure HdfSBufRaw where
  writePos : ℕ
  readPos : ℕ
  capacity : ℕ
  data : Option Block
  isBind : Bool
  deriving DecidableEq, Repr

/-- What a function returns, with the sbuf that it leaves. -/
abbrev Result (ρ : Type) := Option (ρ × HdfSBufRaw)

/-- `memcpy_s` into a block: it clears the destination when the source is too long for it. -/
def memcpyS (dst : Block) (offset destMax : ℕ) (src : List UInt8) : Option (Bool × Block) :=
  if destMax = 0 ∨ securecMemMaxLen < destMax then some (false, dst)
  else if destMax < src.length then
    (storeAt dst.bytes offset (List.replicate destMax 0)).map fun bytes =>
      (false, { dst with bytes := bytes })
  else (storeAt dst.bytes offset src).map fun bytes => (true, { dst with bytes := bytes })

/-- `OsalMemCalloc` of a block, given the outcome of the allocation. -/
def osalMemCalloc (alloc : Option ℕ) (size : ℕ) : Option Block :=
  alloc.map fun base => ⟨base, List.replicate size 0⟩

/-! ### Positions -/

/-- `SbufRawImplGetAlignSize`. -/
def getAlignSize (size : ℕ) : ℕ := sizeT (size + (hdfSbufAlign - 1)) &&& (2 ^ 64 - hdfSbufAlign)

/-- `SbufRawImplGetLeftWriteSize`. -/
def getLeftWriteSize (sbuf : HdfSBufRaw) : ℕ :=
  if sbuf.capacity < sbuf.writePos then 0 else sbuf.capacity - sbuf.writePos

/-- `SbufRawImplGetLeftReadSize`. -/
def getLeftReadSize (sbuf : HdfSBufRaw) : ℕ :=
  if sbuf.writePos < sbuf.readPos then 0 else sbuf.writePos - sbuf.readPos

/-- `SbufRawImplWriteRollback`. -/
def writeRollback (sbuf : HdfSBufRaw) (size : ℕ) : Bool × HdfSBufRaw :=
  let alignSize := getAlignSize size
  if sbuf.writePos < alignSize then (false, sbuf)
  else (true, { sbuf with writePos := sbuf.writePos - alignSize })

/-- `SbufRawImplReadRollback`. -/
def readRollback (sbuf : HdfSBufRaw) (size : ℕ) : Bool × HdfSBufRaw :=
  let alignSize := getAlignSize size
  if sbuf.readPos < alignSize then (false, sbuf)
  else (true, { sbuf with readPos := sbuf.readPos - alignSize })

/-- `SbufRawImplSetDataSize`. -/
def setDataSize (sbuf : HdfSBufRaw) (size : ℕ) : HdfSBufRaw :=
  if size ≤ sbuf.capacity then { sbuf with readPos := 0, writePos := size } else sbuf

/-- `SbufRawImplFlush`. -/
def flush (sbuf : HdfSBufRaw) : HdfSBufRaw := { sbuf with readPos := 0, writePos := 0 }

/-- `SbufRawImplTransDataOwnership`. -/
def transDataOwnership (sbuf : HdfSBufRaw) : HdfSBufRaw := { sbuf with isBind := false }

/-! ### Elements -/

/-- `SbufRawImplGrow`, where `growSize` is of type `uint32_t`. -/
def grow (alloc : Option ℕ) (sbuf : HdfSBufRaw) (growSize : ℕ) : Result Bool :=
  let newSize := uint32T (getAlignSize (sizeT (sbuf.capacity + growSize)))
  if sbuf.isBind then some (false, sbuf)
  else if newSize < sbuf.capacity then some (false, sbuf)
  else if hdfSbufMaxSize < newSize then some (false, sbuf)
  else match osalMemCalloc alloc newSize with
    | none => some (false, sbuf)
    | some newData =>
      match sbuf.data with
      | none => some (true, { sbuf with data := some newData, capacity := newSize })
      | some data =>
        match (loadAt data.bytes 0 sbuf.writePos).bind (memcpyS newData 0 newSize) with
        | none => none
        | some (false, _) => some (false, sbuf)
        | some (true, newData) =>
          some (true, { sbuf with data := some newData, capacity := newSize })

/-- The end of `SbufRawImplWrite`, once there should be room for the element. -/
def writeHere (sbuf : HdfSBufRaw) (src : List UInt8) (alignSize : ℕ) : Result Bool :=
  match sbuf.data with
  | none => none
  | some data =>
    match memcpyS data sbuf.writePos (getLeftWriteSize sbuf) src with
    | none => none
    | some (false, data) => some (false, { sbuf with data := some data })
    | some (true, data) =>
      some (true, { sbuf with data := some data, writePos := sizeT (sbuf.writePos + alignSize) })

/-- `SbufRawImplWrite` of the bytes at `data`. -/
def write (alloc : Option ℕ) (sbuf : HdfSBufRaw) (src : List UInt8) : Result Bool :=
  let alignSize := getAlignSize src.length
  if sbuf.data.isNone then some (false, sbuf)
  else if src.length = 0 then some (true, sbuf)
  else if alignSize < src.length then some (false, sbuf)
  else if getLeftWriteSize sbuf < alignSize then
    let growSize := if hdfSbufGrowSizeDefault < alignSize
      then sizeT (alignSize + hdfSbufGrowSizeDefault) else hdfSbufGrowSizeDefault
    match grow alloc sbuf (uint32T growSize) with
    | none => none
    | some (false, sbuf) => some (false, sbuf)
    | some (true, sbuf) => writeHere sbuf src alignSize
  else writeHere sbuf src alignSize

/-- `SbufRawImplRead`. -/
def read (sbuf : HdfSBufRaw) (readSize : ℕ) : Result (Option (List UInt8)) :=
  let alignSize := getAlignSize readSize
  match sbuf.data with
  | none => some (none, sbuf)
  | some data =>
    if readSize = 0 then some (some [], sbuf)
    else if getLeftReadSize sbuf < alignSize then some (none, sbuf)
    else (loadAt data.bytes sbuf.readPos readSize).map fun bytes =>
      (some bytes, { sbuf with readPos := sizeT (sbuf.readPos + alignSize) })

/-! ### Integers -/

/-- A value of one of the integer types. -/
inductive Scalar where
  | uint64 (value : UInt64)
  | uint32 (value : UInt32)
  | uint16 (value : UInt16)
  | uint8 (value : UInt8)
  | int64 (value : Int64)
  | int32 (value : Int32)
  | int16 (value : Int16)
  | int8 (value : Int8)
  deriving DecidableEq

/-- The integer types. -/
inductive ScalarType where
  | uint64 | uint32 | uint16 | uint8 | int64 | int32 | int16 | int8
  deriving DecidableEq, Repr

/-- The type of an integer value. -/
def Scalar.type : Scalar → ScalarType
  | uint64 _ => .uint64
  | uint32 _ => .uint32
  | uint16 _ => .uint16
  | uint8 _ => .uint8
  | int64 _ => .int64
  | int32 _ => .int32
  | int16 _ => .int16
  | int8 _ => .int8

/-- The write of an integer of `size` bytes. -/
def writeValue (alloc : Option ℕ) (sbuf : HdfSBufRaw) (size value : ℕ) : Result Bool :=
  write alloc sbuf (leBytes size value)

/-- The read of an integer of `size` bytes. -/
def readValue {α : Type} (sbuf : HdfSBufRaw) (size : ℕ) (ofNat : ℕ → α) : Result (Option α) :=
  (read sbuf size).map fun r => (r.1.map fun bytes => ofNat (leNat bytes), r.2)

section

variable (alloc : Option ℕ) (sbuf : HdfSBufRaw)

/-- `SbufRawImplWriteUint64`. -/
def writeUint64 (value : UInt64) : Result Bool := writeValue alloc sbuf 8 value.toNat

/-- `SbufRawImplWriteUint32`. -/
def writeUint32 (value : UInt32) : Result Bool := writeValue alloc sbuf 4 value.toNat

/-- `SbufRawImplWriteUint16`. -/
def writeUint16 (value : UInt16) : Result Bool := writeValue alloc sbuf 2 value.toNat

/-- `SbufRawImplWriteUint8`. -/
def writeUint8 (value : UInt8) : Result Bool := writeValue alloc sbuf 1 value.toNat

/-- `SbufRawImplWriteInt64`. -/
def writeInt64 (value : Int64) : Result Bool := writeValue alloc sbuf 8 value.toUInt64.toNat

/-- `SbufRawImplWriteInt32`. -/
def writeInt32 (value : Int32) : Result Bool := writeValue alloc sbuf 4 value.toUInt32.toNat

/-- `SbufRawImplWriteInt16`. -/
def writeInt16 (value : Int16) : Result Bool := writeValue alloc sbuf 2 value.toUInt16.toNat

/-- `SbufRawImplWriteInt8`. -/
def writeInt8 (value : Int8) : Result Bool := writeValue alloc sbuf 1 value.toUInt8.toNat

/-- `SbufRawImplReadUint64`. -/
def readUint64 : Result (Option UInt64) := readValue sbuf 8 UInt64.ofNat

/-- `SbufRawImplReadUint32`. -/
def readUint32 : Result (Option UInt32) := readValue sbuf 4 UInt32.ofNat

/-- `SbufRawImplReadUint16`. -/
def readUint16 : Result (Option UInt16) := readValue sbuf 2 UInt16.ofNat

/-- `SbufRawImplReadUint8`. -/
def readUint8 : Result (Option UInt8) := readValue sbuf 1 UInt8.ofNat

/-- `SbufRawImplReadInt64`. -/
def readInt64 : Result (Option Int64) := readValue sbuf 8 fun n => (UInt64.ofNat n).toInt64

/-- `SbufRawImplReadInt32`. -/
def readInt32 : Result (Option Int32) := readValue sbuf 4 fun n => (UInt32.ofNat n).toInt32

/-- `SbufRawImplReadInt16`. -/
def readInt16 : Result (Option Int16) := readValue sbuf 2 fun n => (UInt16.ofNat n).toInt16

/-- `SbufRawImplReadInt8`. -/
def readInt8 : Result (Option Int8) := readValue sbuf 1 fun n => (UInt8.ofNat n).toInt8

/-- The write of an integer by the function for its type. -/
def writeScalar : Scalar → Result Bool
  | .uint64 value => writeUint64 alloc sbuf value
  | .uint32 value => writeUint32 alloc sbuf value
  | .uint16 value => writeUint16 alloc sbuf value
  | .uint8 value => writeUint8 alloc sbuf value
  | .int64 value => writeInt64 alloc sbuf value
  | .int32 value => writeInt32 alloc sbuf value
  | .int16 value => writeInt16 alloc sbuf value
  | .int8 value => writeInt8 alloc sbuf value

/-- The read of an integer by the function for its type. -/
def readScalar : ScalarType → Result (Option Scalar)
  | .uint64 => (readUint64 sbuf).map fun r => (r.1.map .uint64, r.2)
  | .uint32 => (readUint32 sbuf).map fun r => (r.1.map .uint32, r.2)
  | .uint16 => (readUint16 sbuf).map fun r => (r.1.map .uint16, r.2)
  | .uint8 => (readUint8 sbuf).map fun r => (r.1.map .uint8, r.2)
  | .int64 => (readInt64 sbuf).map fun r => (r.1.map .int64, r.2)
  | .int32 => (readInt32 sbuf).map fun r => (r.1.map .int32, r.2)
  | .int16 => (readInt16 sbuf).map fun r => (r.1.map .int16, r.2)
  | .int8 => (readInt8 sbuf).map fun r => (r.1.map .int8, r.2)

end

/-! ### Buffers and strings -/

/-- `SbufRawImplWriteBuffer` of the bytes at `data`, which may be `NULL`. The outcomes are those
of the allocations for the length and for the bytes. -/
def writeBuffer (alloc alloc' : Option ℕ) (sbuf : HdfSBufRaw) :
    Option (List UInt8) → Result Bool
  | none => writeInt32 alloc sbuf 0
  | some src =>
    match writeInt32 alloc sbuf (UInt32.ofNat src.length).toInt32 with
    | none => none
    | some (false, sbuf) => some (false, sbuf)
    | some (true, sbuf) =>
      match write alloc' sbuf src with
      | none => none
      | some (false, sbuf) => some (false, (writeRollback sbuf 4).2)
      | some (true, sbuf) => some (true, sbuf)

/-- `SbufRawImplWriteString` of a string, which may be `NULL`. The size with the terminator is
converted to `uint32_t`. -/
def writeString (alloc alloc' : Option ℕ) (sbuf : HdfSBufRaw) (value : Option (List UInt8)) :
    Result Bool :=
  writeBuffer alloc alloc' sbuf (value.map fun s => (s ++ [0]).take (uint32T (s.length + 1)))

/-- A pointer into the storage, or `NULL`, with a size. -/
structure Found where
  data : Option ℕ
  readSize : ℕ
  deriving DecidableEq, Repr

/-- `SbufRawImplReadBuffer`. -/
def readBuffer (sbuf : HdfSBufRaw) : Result (Option Found) :=
  if sbuf.data.isNone then some (none, sbuf)
  else match readInt32 sbuf with
    | none => none
    | some (none, sbuf) => some (none, sbuf)
    | some (some buffSize, sbuf) =>
      let alignSize := getAlignSize (sizeOfInt buffSize)
      if buffSize = 0 then some (some ⟨none, 0⟩, sbuf)
      else if getLeftReadSize sbuf < alignSize then
        some (none, (readRollback sbuf 4).2)
      else some (some ⟨some sbuf.readPos, buffSize.toUInt32.toNat⟩,
        { sbuf with readPos := sizeT (sbuf.readPos + alignSize) })

/-- `SbufRawImplReadString`: the pointer to the string, which is terminated in place. -/
def readString (sbuf : HdfSBufRaw) : Result (Option ℕ) :=
  if sbuf.data.isNone then some (none, sbuf)
  else match readInt32 sbuf with
    | none => none
    | some (none, sbuf) => some (none, sbuf)
    | some (some strLen, sbuf) =>
      let alignSize := getAlignSize (sizeOfInt strLen)
      if strLen ≤ 0 then some (none, sbuf)
      else if (int16Max : ℤ) < strLen.toInt ∨ getLeftReadSize sbuf < alignSize then
        some (none, (readRollback sbuf 4).2)
      else
        match sbuf.data with
        | none => none
        | some data =>
          (storeAt data.bytes (sbuf.readPos + (sizeOfInt strLen - 1)) [0]).map fun bytes =>
            (some sbuf.readPos, {
              sbuf with
              data := some { data with bytes := bytes }
              readPos := sizeT (sbuf.readPos + alignSize) })

/-! ### Getting an sbuf -/

/-- `SbufRawImplNewInstance`, given the outcomes of the allocations of the `struct` and of the
storage. -/
def newInstance (structAlloc : Bool) (alloc : Option ℕ) (capacity : ℕ) : Option HdfSBufRaw :=
  if hdfSbufMaxSize < capacity then none
  else if !structAlloc then none
  else (osalMemCalloc alloc capacity).map fun data =>
    { writePos := 0, readPos := 0, capacity := capacity, data := some data, isBind := false }

/-- `SbufObtainRaw`. -/
def obtainRaw (structAlloc : Bool) (alloc : Option ℕ) (capacity : ℕ) : Option HdfSBufRaw :=
  newInstance structAlloc alloc capacity

/-- `SbufBindRaw` of the bytes at an address. -/
def bindRaw (structAlloc : Bool) (base : ℕ) (bytes : List UInt8) : Option HdfSBufRaw :=
  if base = 0 ∨ bytes.length = 0 then none
  else if base &&& 3 ≠ 0 then none
  else if !structAlloc then none
  else some {
    writePos := bytes.length
    readPos := 0
    capacity := bytes.length
    data := some ⟨base, bytes⟩
    isBind := true }

/-- `SbufRawImplCopy`. -/
def copy (structAlloc : Bool) (alloc : Option ℕ) (sbuf : HdfSBufRaw) :
    Option (Option HdfSBufRaw) :=
  match sbuf.data with
  | none => some none
  | some data =>
    match newInstance structAlloc alloc sbuf.capacity with
    | none => some none
    | some new =>
      match new.data with
      | none => none
      | some newData =>
        match (loadAt data.bytes 0 sbuf.capacity).bind (memcpyS newData 0 sbuf.capacity) with
        | none => none
        | some (false, _) => some none
        | some (true, newData) => some (some {
            new with
            capacity := sbuf.capacity, readPos := 0, writePos := sbuf.writePos
            data := some newData })

/-- `SbufRawImplMove`: the new sbuf and what is left of the old one. -/
def move (structAlloc : Bool) (sbuf : HdfSBufRaw) : Option HdfSBufRaw × HdfSBufRaw :=
  if sbuf.isBind then (none, sbuf)
  else if !structAlloc then (none, sbuf)
  else
    (some {
        writePos := sbuf.writePos, readPos := 0, capacity := sbuf.capacity, data := sbuf.data
        isBind := false },
      flush { sbuf with data := none, capacity := 0 })

end Hdf.Sbuf
