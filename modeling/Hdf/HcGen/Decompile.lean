import Hdf.HcGen.ByteCode

/-!
# The decompiler of hc-gen

`Decompile` reads a byte code file as a stream and rebuilds a tree of objects
from its records. A node ends where its size says, an array after as many
elements as its count says.

The recursion takes a bound on its calls, since a file is not a tree by itself.
Every call reads an opcode. A read that fails makes the caller fail as well, but
for the one in the loop over the characters of a string, which then ends.
-/

namespace Hdf.HcGen

/-- The opcode with a value. -/
def OpCodeType.ofCode (code : UInt8) : Option OpCodeType :=
  if code = 0x01 then some .node
  else if code = 0x02 then some .term
  else if code = 0x03 then some .nodeRef
  else if code = 0x04 then some .array
  else if code = 0x10 then some .byte
  else if code = 0x11 then some .word
  else if code = 0x12 then some .dword
  else if code = 0x13 then some .qword
  else if code = 0x14 then some .string
  else none

@[simp] theorem OpCodeType.ofCode_code (op : OpCodeType) : ofCode op.code = some op := by
  cases op <;> rfl

/-- A rebuilt object that has children. -/
inductive RebuiltNode where
  | confNode (name : Bytes) (size hash : UInt32)
  | confTerm (name : Bytes)
  | array
  deriving DecidableEq, Repr

/-- A rebuilt object without children. -/
inductive RebuiltLeaf where
  | number (type : IntType) (integerValue : UInt64)
  | string (stringValue : Bytes)
  | nodeRef (refNodeHash : UInt32)
  deriving DecidableEq, Repr

/-- A rebuilt object with what is below it. -/
abbrev Rebuilt := Tree RebuiltNode RebuiltLeaf

namespace Decompile

/-- The state of `file_`: the offset, what is left and whether no read has failed. -/
structure Input where
  offset : ℕ
  rest : Bytes
  good : Bool := true
  deriving DecidableEq, Repr

/-- `std::ifstream::tellg`, in 32 bits. -/
def Input.tellg (i : Input) : UInt32 := if i.good then .ofNat i.offset else -1

/-- `Decompile::ReadFile`. -/
def readFile (readSize : ℕ) (i : Input) : Option (Bytes × Input) :=
  if i.good ∧ readSize ≤ i.rest.length then
    some (i.rest.take readSize,
      { offset := i.offset + readSize, rest := i.rest.drop readSize })
  else none

/-- The limit in `Decompile::ReadString`, a constant of `enum TokenType`. -/
def stringLimit : ℕ := TokenType.number.code

/-- The loop of `Decompile::ReadString`, which also ends with the file. -/
def readChars (value : Bytes) (offset : ℕ) : Bytes → Option (Bytes × Input)
  | [] => some (value, { offset := offset, rest := [], good := false })
  | c :: rest =>
    if c = 0 then some (value, { offset := offset + 1, rest := rest })
    else if value.length > stringLimit then none
    else readChars (value ++ [c]) (offset + 1) rest

section

-- `isAlign_`
variable (isAlign : Bool)

/-- `Decompile::GetAlignSize`. -/
def getAlignSize (size : UInt32) : UInt32 := if isAlign then (size + 3) &&& ~~~3 else size

/-- `Decompile::ReadUint32`. -/
def readUint32 (i : Input) : Option (UInt32 × Input) :=
  (readFile 4 i).map fun r => (.ofNat (leNat r.1), r.2)

/-- `Decompile::ReadUint8`. -/
def readUint8 (i : Input) : Option (UInt8 × Input) :=
  if getAlignSize isAlign 1 ≠ 1 then (readUint32 i).map fun r => (r.1.toUInt8, r.2)
  else (readFile 1 i).map fun r => (.ofNat (leNat r.1), r.2)

/-- `Decompile::ReadUint16`. -/
def readUint16 (i : Input) : Option (UInt16 × Input) :=
  if getAlignSize isAlign 2 ≠ 2 then (readUint32 i).map fun r => (r.1.toUInt16, r.2)
  else (readFile 2 i).map fun r => (.ofNat (leNat r.1), r.2)

/-- `Decompile::ReadUint64`. -/
def readUint64 (i : Input) : Option (UInt64 × Input) :=
  (readFile 8 i).map fun r => (.ofNat (leNat r.1), r.2)

/-- `Decompile::ReadString`. -/
def readString (i : Input) : Option (Bytes × Input) :=
  (if i.good then readChars [] i.offset i.rest else some ([], i)).bind fun r =>
    let length := UInt32.ofNat (r.1.length + 1)
    let alignSize := getAlignSize isAlign length - length
    if alignSize > 0 then (readFile alignSize.toNat r.2).map fun s => (r.1, s.2) else some r

/-- `Decompile::GetNextByteCode`. -/
def getNextByteCode (i : Input) : Option (UInt32 × Input) :=
  if getAlignSize isAlign 1 = 1 then (readUint8 isAlign i).map fun r => (r.1.toUInt32, r.2)
  else readUint32 i

/-- `Decompile::RebuildNumberObject`. -/
def rebuildNumberObject (type : IntType) (i : Input) : Option (Rebuilt × Input) :=
  match type with
  | .uint8 => (readUint8 isAlign i).map fun r => (.leaf (.number .uint8 r.1.toUInt64), r.2)
  | .uint16 => (readUint16 isAlign i).map fun r => (.leaf (.number .uint16 r.1.toUInt64), r.2)
  | .uint32 => (readUint32 i).map fun r => (.leaf (.number .uint32 r.1.toUInt64), r.2)
  | .uint64 => (readUint64 i).map fun r => (.leaf (.number .uint64 r.1), r.2)

/-- `Decompile::RebuildStringObject`. -/
def rebuildStringObject (i : Input) : Option (Rebuilt × Input) :=
  (readString isAlign i).map fun r => (.leaf (.string r.1), r.2)

/-- `Decompile::RebuildNodeRefObject`. -/
def rebuildNodeRefObject (i : Input) : Option (Rebuilt × Input) :=
  (readUint32 i).map fun r => (.leaf (.nodeRef r.1), r.2)

section Recursion

-- `RebuildObject`, for the objects below
variable (object : UInt8 → Input → Option (Rebuilt × Input))

/-- Reads an opcode and rebuilds the object that it belongs to. -/
def rebuildNext (i : Input) : Option (Rebuilt × Input) :=
  (getNextByteCode isAlign i).bind fun op => object op.1.toUInt8 op.2

/-- The loop of `Decompile::RebuildNode`. -/
def rebuildChildren (nodeEnd : Int32) : ℕ → List Rebuilt → Input →
    Option (List Rebuilt × Input)
  | 0, _, _ => none
  | rounds + 1, children, i =>
    if i.tellg.toInt32 < nodeEnd then
      (rebuildNext isAlign object i).bind fun child =>
        rebuildChildren nodeEnd rounds (children ++ [child.1]) child.2
    else some (children, i)

/-- `Decompile::RebuildNode`. -/
def rebuildNode (rounds : ℕ) (i : Input) : Option (Rebuilt × Input) :=
  let nodeHash := i.tellg - getAlignSize isAlign 1
  (readString isAlign i).bind fun name =>
    (readUint32 name.2).bind fun nodeSize =>
      let nodeEnd := (nodeSize.2.tellg + nodeSize.1).toInt32
      (rebuildChildren isAlign object nodeEnd rounds [] nodeSize.2).map fun r =>
        (.node (.confNode name.1 nodeSize.1 nodeHash) r.1, r.2)

/-- `Decompile::RebuildTerm`. -/
def rebuildTerm (i : Input) : Option (Rebuilt × Input) :=
  (readString isAlign i).bind fun name =>
    (rebuildNext isAlign object name.2).map fun value =>
      (.node (.confTerm name.1) [value.1], value.2)

/-- The loop of `Decompile::RebuildArray`, with the elements still to come. -/
def rebuildElements : ℕ → List Rebuilt → Input → Option (List Rebuilt × Input)
  | 0, elements, i => some (elements, i)
  | left + 1, elements, i =>
    (rebuildNext isAlign object i).bind fun e => rebuildElements left (elements ++ [e.1]) e.2

/-- `Decompile::RebuildArray`. -/
def rebuildArray (i : Input) : Option (Rebuilt × Input) :=
  (readUint16 isAlign i).bind fun arraySize =>
    (rebuildElements isAlign object arraySize.1.toNat [] arraySize.2).map fun r =>
      (.node .array r.1, r.2)

end Recursion

/-- `Decompile::RebuildObject`. -/
def rebuildObject : ℕ → UInt8 → Input → Option (Rebuilt × Input)
  | 0, _, _ => none
  | calls + 1, opCode, i =>
    match OpCodeType.ofCode opCode with
    | some .node => rebuildNode isAlign (rebuildObject calls) calls i
    | some .term => rebuildTerm isAlign (rebuildObject calls) i
    | some .nodeRef => rebuildNodeRefObject i
    | some .byte => rebuildNumberObject isAlign .uint8 i
    | some .word => rebuildNumberObject isAlign .uint16 i
    | some .dword => rebuildNumberObject isAlign .uint32 i
    | some .qword => rebuildNumberObject isAlign .uint64 i
    | some .array => rebuildArray isAlign (rebuildObject calls) i
    | some .string => rebuildStringObject isAlign i
    | none => none

/-- `Decompile::RebuildAst`. -/
def rebuildAst (calls : ℕ) (i : Input) : Option Rebuilt :=
  (getNextByteCode isAlign i).bind fun op =>
    if op.1 = OpCodeType.node.code.toUInt32 then
      (rebuildObject isAlign calls op.1.toUInt8 op.2).map Prod.fst
    else none

end

/-- `Decompile::VerifyDecompileFile`: whether the file is aligned. -/
def verifyDecompileFile (i : Input) : Option (Bool × Input) :=
  (readFile hcbHeaderSize i).bind fun r =>
    let magicNumber := leNat (r.1.take 4)
    let totalSize := UInt32.ofNat (leNat ((r.1.drop 16).take 4))
    if magicNumber = hcbMagicNum then some (decide (totalSize.toInt32 < 0), r.2) else none

/-- `Decompile::DoDecompile` up to the generator, within a number of calls. -/
def decompile (calls : ℕ) (file : Bytes) : Option Rebuilt :=
  (verifyDecompileFile { offset := 0, rest := file }).bind fun r => rebuildAst r.1 calls r.2

/-- The decompiler rebuilds a tree from a file. -/
def Decompiles (file : Bytes) (tree : Rebuilt) : Prop := ∃ calls, decompile calls file = some tree

end Decompile

end Hdf.HcGen
