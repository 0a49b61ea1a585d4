import Hdf.HcsParser.Blob
import Hdf.Lib.Tree

/-!
# Loading a configuration blob

The loader goes over the records of a blob twice: once to add up the memory that
the configuration tree needs, and once to build it. The open nodes are kept on a
stack with the offsets of their ends, and the parent of a record is the topmost
one that the record does not reach beyond.

The memory holds the nodes under the nodes they were linked to as `child` and
`sibling`, with nodes that have no parent below a root of its own, so a pointer
to a node is a position. Enough memory is assumed to be there.
-/

namespace Hdf.HcsParser

/-- The name and the value are pointers into the blob. -/
structure DeviceResourceAttr where
  name : Bytes
  value : Bytes
  deriving DecidableEq, Repr

/-- The fields of a node besides its links. The list of attributes starts with `attrData`. -/
structure DeviceResourceNode where
  name : Bytes
  hashValue : UInt32
  attrData : List DeviceResourceAttr
  deriving DecidableEq, Repr

/-- The nodes of a configuration tree, below a root without fields. -/
abbrev TreeMem := Tree (Option DeviceResourceNode) Empty

/-- A pointer to a node. -/
abbrev NodePtr := Pos

structure TreeStack where
  offset : UInt32
  node : NodePtr
  deriving DecidableEq, Repr

def treeStackMax : ℕ := 64

/-- The state of a pass. Without `treeMem`, `treeLayerOrMemLen` counts the memory that is needed,
modulo 2^32; with it, it is the layer, and the stack holds the entries of the layers from it down
to 1. -/
inductive Pass where
  | size (memLen : Int32)
  | tree (treeMem : TreeMem) (treeStack : List TreeStack)

def Pass.treeLayerOrMemLen : Pass → ℤ
  | size memLen => memLen.toInt
  | tree _ treeStack => treeStack.length

/-- The size of `struct DeviceResourceNode`. -/
def nodeSize : ℕ := 48

/-- The size of `struct DeviceResourceAttr`. -/
def attrSize : ℕ := 24

/-- `GetParentNode`: the parent and the stack of the new layer. The offset behind a record is
never 0. -/
def getParentNode (offset : ℕ) (treeStack : List TreeStack) (configOffset : ℕ) :
    Option NodePtr × List TreeStack :=
  match treeStack.dropWhile fun e => e.offset < .ofNat (configOffset + offset) with
  | [] => (none, treeStack)
  | e :: below => (some e.node, e :: below)

section

variable (byteAlign : Bool)

/-- `CreateTreeNode`. The hash is the offset in the blob, with its header. -/
def createTreeNode (start : Bytes) (offset : ℕ) (parentNode : Option NodePtr) (treeMem : TreeMem) :
    NodePtr × TreeMem :=
  let parent := parentNode.getD []
  let newNode : DeviceResourceNode :=
    { name := start.drop (offset + hcsPrefixLength byteAlign)
      hashValue := .ofNat offset + .ofNat hbcHeaderLength
      attrData := [] }
  (treeMem.arity parent :: parent, treeMem.appendAt parent (.node (some newNode) []))

/-- `UpdateTreeStack`. -/
def updateTreeStack (treeStack : List TreeStack) (newNode : NodePtr) (offset : UInt32) :
    Option (List TreeStack) :=
  if treeStack.length ≥ treeStackMax - 1 then none
  else some ({ offset := offset, node := newNode } :: treeStack)

/-- `AddAttrInNode`, whose failure is no memory. -/
def addAttrInNode (start : Bytes) (parentNode : Option NodePtr) (treeMem : TreeMem) :
    Option (Option TreeMem) :=
  match parentNode with
  | none => some none
  | some parent =>
    let name := start.drop (hcsPrefixLength byteAlign)
    (hcsStringLength byteAlign name).map fun nameLength =>
      let newAttr : DeviceResourceAttr :=
        { name := name, value := start.drop (hcsPrefixLength byteAlign + nameLength) }
      some (treeMem.relabelAt parent
        (Option.map fun node => { node with attrData := newAttr :: node.attrData }) id)

/-- `ParseByteCode`. Reading the size of a node does not fail. -/
def parseByteCode (treeStart : Bytes) (offset : ℕ) (pass : Pass) : Option (ℤ × Pass) :=
  let record := treeStart.drop offset
  (hcsGetNodeOrAttrLength byteAlign record).bind fun termOffset =>
    if termOffset ≤ 0 then some (hdfFailure, pass)
    else
      (hcsGetPrefix byteAlign record).bind fun opCode =>
        if opCode = configNode then
          match pass with
          | .size memLen => some (termOffset, .size (memLen + .ofNat nodeSize))
          | .tree treeMem treeStack =>
            let parent := getParentNode offset treeStack termOffset.toNat
            let newNode := createTreeNode byteAlign treeStart offset parent.1 treeMem
            (hcsStringLength byteAlign (record.drop (hcsPrefixLength byteAlign))).bind
              fun nameLength =>
                (hcsByteCodeToUint32
                  (record.drop (nameLength + hcsPrefixLength byteAlign))).map fun size =>
                    match updateTreeStack parent.2 newNode.1
                        (size + .ofNat (offset + termOffset.toNat)) with
                    | none => (hdfFailure, .tree newNode.2 parent.2)
                    | some treeStack => (termOffset, .tree newNode.2 treeStack)
        else if opCode = configAttr then
          match pass with
          | .size memLen => some (termOffset, .size (memLen + .ofNat attrSize))
          | .tree treeMem treeStack =>
            let parent := getParentNode offset treeStack termOffset.toNat
            (addAttrInNode byteAlign record parent.1 treeMem).map fun treeMem' =>
              match treeMem' with
              | none => (hdfFailure, .tree treeMem parent.2)
              | some treeMem => (termOffset, .tree treeMem parent.2)
        else some (hdfFailure, pass)

/-- The loop of `GenerateCfgTree`. -/
def generateLoop (treeStart : Bytes) (length : ℤ) : ℕ → ℕ → Pass → Option (ℤ × Pass)
  | 0, _, _ => none
  | rounds + 1, offset, pass =>
    if offset < length then
      (parseByteCode byteAlign treeStart offset pass).bind fun r =>
        if r.1 ≤ 0 then some r else generateLoop treeStart length rounds (offset + r.1.toNat) r.2
    else some (pass.treeLayerOrMemLen, pass)

/-- `GenerateCfgTree`. Every round but the last one moves on. -/
def generateCfgTree (treeStart : Bytes) (length : ℤ) (pass : Pass) : Option (ℤ × Pass) :=
  generateLoop byteAlign treeStart length (length.toNat + 1) 0 pass

/-- The root that `GenerateCfgTree` returns, which is at the bottom of the stack. -/
def Pass.root : Pass → Option (TreeMem × NodePtr)
  | size _ => none
  | tree treeMem treeStack => treeStack.getLast?.map fun e => (treeMem, e.node)

/-- `HcsDecompile`, which returns a root when it succeeds. -/
def hcsDecompile (hcsBlob : Bytes) (offset : ℕ) : Option (Option (TreeMem × NodePtr)) :=
  let treeStart := hcsBlob.drop offset
  (hcsGetNodeLength byteAlign treeStart).bind fun nodeLength =>
    if nodeLength < 0 then some none
    else
      (generateCfgTree byteAlign treeStart nodeLength (.size 0)).bind fun treeMemLength =>
        if treeMemLength.1 ≤ 0 then some none
        else
          (generateCfgTree byteAlign treeStart nodeLength (.tree (.node none []) [])).map
            fun treeLayer => if treeLayer.1 ≤ 0 then none else treeLayer.2.root

end

end Hdf.HcsParser
