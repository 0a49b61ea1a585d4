import Hdf.HcGen.Ast
import Hdf.Lib.LittleEndian
import Mathlib.Logic.Function.Basic

/-!
# The byte code generator of hc-gen

`ByteCodeGen` works on the expanded AST in three walks. The first one separates
the templates and computes the size of every object, bottom-up and in 32 bits.
The second and the third one write the same records in document order, first to
nowhere, so that every node knows its offset, and then to the file.

Sizes and offsets are kept by the address of a node, as are references. A
reference to a node that is no longer in the tree is a null pointer access, and
has no result; neither has a reference that does not belong to a term. Writing
to the file itself is taken to succeed.
-/

namespace Hdf.HcGen

/-- `enum OpCodeType`. -/
inductive OpCodeType where
  | node | term | nodeRef | array | byte | word | dword | qword | string
  deriving DecidableEq, Repr

/-- The value of an `OpCodeType` constant. -/
def OpCodeType.code : OpCodeType → UInt8
  | node => 0x01
  | term => 0x02
  | nodeRef => 0x03
  | array => 0x04
  | byte => 0x10
  | word => 0x11
  | dword => 0x12
  | qword => 0x13
  | string => 0x14

/-- The opcode of an integer type. -/
def IntType.opCode : IntType → OpCodeType
  | uint8 => .byte
  | uint16 => .word
  | uint32 => .dword
  | uint64 => .qword

/-- `struct OpCode`: the code and the size of a field of fixed size. -/
structure OpCode where
  opCode : UInt8
  size : ℕ

/-- `HCB_MAGIC_NUM`. -/
def hcbMagicNum : ℕ := 0xA00AA00A

/-- The size of `struct HcbHeader`. -/
def hcbHeaderSize : ℕ := 20

namespace ByteCodeGen

/-- `ByteCodeGen::ToOpCode`. The map has no entry for `PARSEROP_DELETE`. -/
def toOpCode : ObjectType → OpCode
  | .int type => { opCode := type.opCode.code, size := type.size }
  | .string => { opCode := OpCodeType.string.code, size := 0 }
  | .array => { opCode := OpCodeType.array.code, size := 2 }
  | .confNode => { opCode := OpCodeType.node.code, size := 4 }
  | .confTerm => { opCode := OpCodeType.term.code, size := 0 }
  | .nodeRef => { opCode := OpCodeType.nodeRef.code, size := 4 }
  | .delete => { opCode := 0, size := 0 }

/-! ### Converting -/

mutual

/-- The walk of `ByteCodeGen::ByteCodeConvert`, with the templates separated. The inner
`none` is a separated object. -/
def convert : AstObject → Option (Option AstObject)
  | .leaf leaf =>
    match leaf with
    | .term term =>
      if (toOpCode term.value.type).opCode = 0 then none else some (some (.leaf (.term term)))
    | .value value =>
      if (toOpCode value.type).opCode = 0 then none else some (some (.leaf (.value value)))
  | .node node children =>
    match convertList children with
    | none => none
    | some children =>
      if node.nodeType = .template then some none else some (some (.node node children))

def convertList : List AstObject → Option (List AstObject)
  | [] => some []
  | child :: rest =>
    match convert child, convertList rest with
    | some child, some rest => some (child.toList ++ rest)
    | _, _ => none

end

section Sizes

variable (needAlign : Bool)

/-- `ByteCodeGen::Align`. -/
def align (size : UInt32) : UInt32 := if needAlign then (size + 3) &&& ~~~3 else size

/-- The part of `ByteCodeGen::CalculateSize` before the children, with the name or the string
value of the object. -/
def ownSize (type : ObjectType) (text : Bytes) : UInt32 :=
  let size := align needAlign 1 + align needAlign (.ofNat (toOpCode type).size)
  match type with
  | .confNode => size + align needAlign (.ofNat (text.length + 1))
  | .confTerm => size + align needAlign (.ofNat (text.length + 1))
  | .string => size + align needAlign (.ofNat (text.length + 1))
  | _ => size

/-- `AstObject::GetSize` of a number or string object. -/
def datumSize : Datum → UInt32
  | .number type _ => ownSize needAlign (.int type) []
  | .string stringValue => ownSize needAlign .string stringValue

/-- The `subSize_` of an array. -/
def elementsSize : List Datum → UInt32
  | [] => 0
  | e :: rest => datumSize needAlign e + elementsSize rest

/-- `AstObject::GetSize` of a value object. -/
def valueSize : Value → UInt32
  | .datum d => datumSize needAlign d
  | .nodeRef _ => ownSize needAlign .nodeRef []
  | .delete => ownSize needAlign .delete []
  | .array _ _ elements => elementsSize needAlign elements + ownSize needAlign .array []

mutual

/-- `AstObject::GetSize`. -/
def getSize : AstObject → UInt32
  | .leaf (.term term) => valueSize needAlign term.value + ownSize needAlign .confTerm term.name
  | .leaf (.value value) => valueSize needAlign value
  | .node node children => getSubSize children + ownSize needAlign .confNode node.name

/-- `AstObject::GetSubSize` of an object with these children. -/
def getSubSize : List AstObject → UInt32
  | [] => 0
  | child :: rest => getSize child + getSubSize rest

end

end Sizes

/-! ### Writing -/

/-- The fields of `ByteCodeGen` that change while it writes: `writeSize_`, the `hash_` of every
node and what is in the file. -/
structure Writer where
  writeSize : UInt32
  hash : ℕ → UInt32
  ofs : Bytes

section Writing

-- `needAlign_`, `dummyOutput_` and whether the node with an address is in the tree
variable (needAlign dummyOutput : Bool) (alive : ℕ → Bool)

/-- `ByteCodeGen::FsWrite`. -/
def fsWrite (data : Bytes) (w : Writer) : Writer :=
  if dummyOutput then w else { w with ofs := w.ofs ++ data }

/-- `ByteCodeGen::Write`. The size of the data is passed in 32 bits. -/
def write (data : Bytes) (w : Writer) : Writer :=
  let size := UInt32.ofNat data.length
  let w := fsWrite dummyOutput (data.take size.toNat) w
  let alignSize := align needAlign size
  let stubSize := alignSize - size
  let w := if stubSize ≠ 0 then fsWrite dummyOutput (List.replicate stubSize.toNat 0) w else w
  { w with writeSize := w.writeSize + alignSize }

/-- `ByteCodeGen::Write` of a string. -/
def writeString (data : Bytes) (w : Writer) : Writer :=
  write needAlign dummyOutput (data ++ [0]) w

/-- Writes the opcode of an object of a type. -/
def writeOpCode (type : ObjectType) (w : Writer) : Writer :=
  write needAlign dummyOutput [(toOpCode type).opCode] w

/-- The callback of `ByteCodeGen::ByteCodeWriteWalk` on a number or string object. -/
def writeDatum (d : Datum) (w : Writer) : Writer :=
  let w := writeOpCode needAlign dummyOutput d.type w
  match d with
  | .number type integerValue =>
    write needAlign dummyOutput (leBytes (toOpCode (.int type)).size integerValue.toNat) w
  | .string stringValue => writeString needAlign dummyOutput stringValue w

/-- The hash of the node that a term refers to. -/
def refHash (term : Option ConfigTerm) (w : Writer) : Option UInt32 :=
  match term.bind ConfigTerm.refNode with
  | none => none
  | some uid => if alive uid then some (w.hash uid) else none

/-- `ByteCodeGen::ByteCodeWriteWalk` on a value object, below a term or not. -/
def writeValue (term : Option ConfigTerm) (value : Value) (w : Writer) : Option Writer :=
  match value with
  | .datum d => some (writeDatum needAlign dummyOutput d w)
  | .nodeRef _ =>
    let w := writeOpCode needAlign dummyOutput .nodeRef w
    (refHash alive term w).map fun hashCode =>
      write needAlign dummyOutput (leBytes 4 hashCode.toNat) w
  | .delete => some (writeOpCode needAlign dummyOutput .delete w)
  | .array _ arraySize elements =>
    let w := writeOpCode needAlign dummyOutput .array w
    let w := write needAlign dummyOutput (leBytes 2 arraySize.toUInt16.toNat) w
    some (elements.foldl (fun w e => writeDatum needAlign dummyOutput e w) w)

mutual

/-- `ByteCodeGen::ByteCodeWriteWalk` from an object on. -/
def writeWalk : AstObject → Writer → Option Writer
  | .leaf (.term term), w =>
    let w := writeOpCode needAlign dummyOutput .confTerm w
    let w := writeString needAlign dummyOutput term.name w
    writeValue needAlign dummyOutput alive (some term) term.value w
  | .leaf (.value value), w => writeValue needAlign dummyOutput alive none value w
  | .node node children, w =>
    let w := { w with hash := Function.update w.hash node.uid w.writeSize }
    let w := writeOpCode needAlign dummyOutput .confNode w
    let w := writeString needAlign dummyOutput node.name w
    let w := write needAlign dummyOutput (leBytes 4 (getSubSize needAlign children).toNat) w
    writeWalkList children w

def writeWalkList : List AstObject → Writer → Option Writer
  | [], w => some w
  | child :: rest, w =>
    match writeWalk child w with
    | none => none
    | some w => writeWalkList rest w

end

end Writing

/-- The addresses of the nodes of a tree. -/
def nodeUids (root : AstObject) : List ℕ :=
  root.labels.filterMap fun l => match l with
    | .inl node => some node.uid
    | .inr _ => none

theorem nodeUids_node (node : ConfigNode) (children : List AstObject) :
    nodeUids (.node node children) = node.uid :: children.flatMap nodeUids := by
  rw [nodeUids, Tree.labels_node, List.filterMap_cons, List.filterMap_flatMap]
  rfl

/-- `struct HcbHeader` as it is written. -/
def hcbHeader (needAlign : Bool) (root : AstObject) : Bytes :=
  let totalSize := if needAlign then -getSize needAlign root else getSize needAlign root
  leBytes 4 hcbMagicNum ++ leBytes 4 0 ++ leBytes 4 7 ++ leBytes 4 0 ++ leBytes 4 totalSize.toNat

/-- `ByteCodeGen::ByteCodeWrite`, given the hashes that the nodes have before. -/
def byteCodeWrite (needAlign dummyOutput : Bool) (hash : ℕ → UInt32) (root : AstObject) :
    Option Writer :=
  let w := write needAlign dummyOutput (hcbHeader needAlign root)
    { writeSize := 0, hash := hash, ofs := [] }
  writeWalk needAlign dummyOutput (fun uid => decide (uid ∈ nodeUids root)) root w

/-- `ByteCodeGen::Output`, without the hex dump: the file that it leaves. The root is a
plain node. -/
def output (needAlign : Bool) (root : AstObject) : Option Bytes :=
  match convert root with
  | some (some root) =>
    match byteCodeWrite needAlign true (fun _ => 0) root with
    | none => none
    | some dummy => (byteCodeWrite needAlign false dummy.hash root).map Writer.ofs
  | _ => none

end ByteCodeGen

end Hdf.HcGen
