import Hdf.Core.Base
import Hdf.HcsParser.LoadedTree

/-!
# Reading a configuration tree

Drivers read the tree through functions that take a node and the name of an attribute, and that
leave a value of theirs when there is none. Numbers may be read with more bits than they are written
with, but not with less. Only the getters of 64-bit arrays stop at an element of a wrong type; the
others note it and go on.
-/

namespace Hdf.HcsParser

open Hdf.Core (HdfStatus)

section

variable {α : Type} (byteAlign : Bool)

/-- The loop of `GetAttrInNode`. -/
def attrNamed (attrName : Bytes) : List DeviceResourceAttr → Option (Option DeviceResourceAttr)
  | [] => some none
  | attr :: rest =>
    (strcmpEq attr.name attrName).bind fun same =>
      if same then some (some attr) else attrNamed attrName rest

/-- `GetAttrInNode`, whose failure is no attribute. -/
def getAttrInNode (node : DeviceResourceNode) (attrName : Bytes) :
    Option (Option DeviceResourceAttr) :=
  attrNamed attrName node.attrData

/-! ### Numbers -/

def hcsByteCodeToUint64 (start : Bytes) : Option UInt64 := (wordAt 8 start).map .ofNat

/-- `HcsSwapToUint64`. -/
def hcsSwapToUint64 (realValue : Bytes) (type : UInt32) : Option (Option UInt64) :=
  if type = configQword then (hcsByteCodeToUint64 realValue).map some
  else (hcsSwapToUint32 byteAlign realValue type).map (Option.map UInt32.toUInt64)

/-- The number at a pointer, or a value to be left when the prefix is not one of a number. -/
def swapOr (swap : Bytes → UInt32 → Option (Option α)) (wrongPrefix : HdfStatus) (default : α)
    (realValue : Bytes) : Option (HdfStatus × α) :=
  (hcsGetPrefix byteAlign realValue).bind fun type =>
    (swap (realValue.drop (hcsPrefixLength byteAlign)) type).map fun value =>
      value.elim (wrongPrefix, default) fun value => (.success, value)

/-- What the getters of numbers do. -/
def getNumber (swap : Bytes → UInt32 → Option (Option α)) (node : DeviceResourceNode)
    (attrName : Bytes) (default : α) : Option (HdfStatus × α) :=
  (getAttrInNode node attrName).bind fun attr =>
    attr.elim (some (.failure, default)) fun attr =>
      swapOr byteAlign swap .failure default attr.value

def hcsGetUint8 (node : DeviceResourceNode) (attrName : Bytes) (default : UInt8) :
    Option (HdfStatus × UInt8) :=
  getNumber byteAlign (hcsSwapToUint8 byteAlign) node attrName default

def hcsGetUint16 (node : DeviceResourceNode) (attrName : Bytes) (default : UInt16) :
    Option (HdfStatus × UInt16) :=
  getNumber byteAlign (hcsSwapToUint16 byteAlign) node attrName default

def hcsGetUint32 (node : DeviceResourceNode) (attrName : Bytes) (default : UInt32) :
    Option (HdfStatus × UInt32) :=
  getNumber byteAlign (hcsSwapToUint32 byteAlign) node attrName default

def hcsGetUint64 (node : DeviceResourceNode) (attrName : Bytes) (default : UInt64) :
    Option (HdfStatus × UInt64) :=
  getNumber byteAlign (hcsSwapToUint64 byteAlign) node attrName default

/-- `HcsGetBool`. -/
def hcsGetBool (node : DeviceResourceNode) (attrName : Bytes) : Option Bool :=
  (getAttrInNode node attrName).bind fun attr =>
    attr.elim (some false) fun attr =>
      (hcsGetPrefix byteAlign attr.value).bind fun type =>
        (hcsSwapToUint8 byteAlign (attr.value.drop (hcsPrefixLength byteAlign)) type).map
          fun value => value.elim false fun value => decide (value ≠ 0)

/-! ### Arrays -/

/-- The loop of `GetArrayElem`, with the elements still to be passed. -/
def elemLoop (start : Bytes) : ℕ → ℕ → Option (Option ℕ)
  | 0, offset => some (some offset)
  | left + 1, offset =>
    (hcsGetDataTypeOffset byteAlign (start.drop offset)).bind fun result =>
      if result < 0 then some none else elemLoop start left (offset + result.toNat)

/-- `GetArrayElem`. -/
def getArrayElem (attr : DeviceResourceAttr) (index : UInt32) : Option (Option Bytes) :=
  (hcsGetPrefix byteAlign attr.value).bind fun opCode =>
    if opCode ≠ configArray then some none
    else
      (hcsSwapToUint16 byteAlign (attr.value.drop (hcsPrefixLength byteAlign)) configWord).bind
        fun count => count.elim (some none) fun count =>
          if index ≥ count.toUInt32 then some none
          else
            (elemLoop byteAlign attr.value index.toNat
              (hcsWordLength byteAlign + hcsPrefixLength byteAlign)).map
              (Option.map fun offset => attr.value.drop offset)

/-- What the getters of elements that are numbers do. -/
def getArrayNumber (swap : Bytes → UInt32 → Option (Option α)) (wrongPrefix : HdfStatus)
    (node : DeviceResourceNode) (attrName : Bytes) (index : UInt32) (default : α) :
    Option (HdfStatus × α) :=
  (getAttrInNode node attrName).bind fun attr =>
    attr.elim (some (.failure, default)) fun attr =>
      (getArrayElem byteAlign attr index).bind fun realValue =>
        realValue.elim (some (.failure, default)) (swapOr byteAlign swap wrongPrefix default)

def hcsGetUint8ArrayElem (node : DeviceResourceNode) (attrName : Bytes) (index : UInt32)
    (default : UInt8) : Option (HdfStatus × UInt8) :=
  getArrayNumber byteAlign (hcsSwapToUint8 byteAlign) .invalidObject node attrName index default

def hcsGetUint16ArrayElem (node : DeviceResourceNode) (attrName : Bytes) (index : UInt32)
    (default : UInt16) : Option (HdfStatus × UInt16) :=
  getArrayNumber byteAlign (hcsSwapToUint16 byteAlign) .invalidObject node attrName index default

def hcsGetUint32ArrayElem (node : DeviceResourceNode) (attrName : Bytes) (index : UInt32)
    (default : UInt32) : Option (HdfStatus × UInt32) :=
  getArrayNumber byteAlign (hcsSwapToUint32 byteAlign) .invalidObject node attrName index default

/-- `HcsGetUint64ArrayElem`, which has one status for all failures. -/
def hcsGetUint64ArrayElem (node : DeviceResourceNode) (attrName : Bytes) (index : UInt32)
    (default : UInt64) : Option (HdfStatus × UInt64) :=
  getArrayNumber byteAlign (hcsSwapToUint64 byteAlign) .failure node attrName index default

/-- The loop of the getters of arrays, with the elements still to be read: the status, and the
values that are written. Elements of a wrong type are passed. -/
def arrayLoop (elem : UInt32 → Option (HdfStatus × α)) :
    ℕ → UInt32 → HdfStatus → Option (HdfStatus × List α)
  | 0, _, ret => some (ret, [])
  | left + 1, i, ret =>
    (elem i).bind fun result =>
      if result.1 = .invalidObject then
        (arrayLoop elem left (i + 1) .invalidObject).map (Prod.map id (result.2 :: ·))
      else if result.1 ≠ .success then some (result.1, [result.2])
      else (arrayLoop elem left (i + 1) ret).map (Prod.map id (result.2 :: ·))

/-- What the getters of arrays do. -/
def getArray (elem : UInt32 → Option (HdfStatus × α)) (len : UInt32) :
    Option (HdfStatus × List α) :=
  if len = 0 then some (.failure, []) else arrayLoop elem len.toNat 0 .success

def hcsGetUint8Array (node : DeviceResourceNode) (attrName : Bytes) (len : UInt32)
    (default : UInt8) : Option (HdfStatus × List UInt8) :=
  getArray (hcsGetUint8ArrayElem byteAlign node attrName · default) len

def hcsGetUint16Array (node : DeviceResourceNode) (attrName : Bytes) (len : UInt32)
    (default : UInt16) : Option (HdfStatus × List UInt16) :=
  getArray (hcsGetUint16ArrayElem byteAlign node attrName · default) len

def hcsGetUint32Array (node : DeviceResourceNode) (attrName : Bytes) (len : UInt32)
    (default : UInt32) : Option (HdfStatus × List UInt32) :=
  getArray (hcsGetUint32ArrayElem byteAlign node attrName · default) len

/-- The loop of `HcsGetUint64Array`, which stops at any failure. -/
def uint64Loop (elem : UInt32 → Option (HdfStatus × UInt64)) :
    ℕ → UInt32 → Option (HdfStatus × List UInt64)
  | 0, _ => some (.success, [])
  | left + 1, i =>
    (elem i).bind fun result =>
      if result.1 ≠ .success then some (result.1, [result.2])
      else (uint64Loop elem left (i + 1)).map (Prod.map id (result.2 :: ·))

def hcsGetUint64Array (node : DeviceResourceNode) (attrName : Bytes) (len : UInt32)
    (default : UInt64) : Option (HdfStatus × List UInt64) :=
  if len = 0 then some (.failure, [])
  else uint64Loop (hcsGetUint64ArrayElem byteAlign node attrName · default) len.toNat 0

/-! ### Strings and lengths -/

/-- `HcsGetStringArrayElem`. The value is a pointer, which the default may be without. -/
def hcsGetStringArrayElem (node : DeviceResourceNode) (attrName : Bytes) (index : UInt32)
    (default : Option Bytes) : Option (HdfStatus × Option Bytes) :=
  (getAttrInNode node attrName).bind fun attr =>
    attr.elim (some (.failure, default)) fun attr =>
      (getArrayElem byteAlign attr index).bind fun realValue =>
        realValue.elim (some (.failure, default)) fun realValue =>
          (hcsGetPrefix byteAlign realValue).map fun opCode =>
            if opCode ≠ configString then (.failure, default)
            else (.success, some (realValue.drop (hcsPrefixLength byteAlign)))

/-- `HcsGetString`. -/
def hcsGetString (node : DeviceResourceNode) (attrName : Bytes) (default : Option Bytes) :
    Option (HdfStatus × Option Bytes) :=
  (getAttrInNode node attrName).bind fun attr =>
    attr.elim (some (.failure, default)) fun attr =>
      (hcsGetPrefix byteAlign attr.value).map fun opCode =>
        if opCode ≠ configString then (.failure, default)
        else (.success, some (attr.value.drop (hcsPrefixLength byteAlign)))

/-- `HcsGetElemNum`. The swap does not fail. -/
def hcsGetElemNum (node : DeviceResourceNode) (attrName : Bytes) : Option ℤ :=
  (getAttrInNode node attrName).bind fun attr =>
    attr.elim (some hdfFailure) fun attr =>
      (hcsGetPrefix byteAlign attr.value).bind fun opCode =>
        if opCode ≠ configArray then some hdfFailure
        else
          (hcsSwapToUint16 byteAlign (attr.value.drop (hcsPrefixLength byteAlign)) configWord).bind
            fun num => num.map fun num => (num.toNat : ℤ)

/-! ### Nodes -/

/-- The loop of `HcsGetChildNode` from a child on. -/
def childLoop (nodeName : Bytes) (node : NodePtr) : ℕ → List ConfigTree → Option (Option NodePtr)
  | _, [] => some none
  | i, child :: later =>
    match child with
    | .leaf e => nomatch e
    | .node n _ =>
      (strcmpEq n.name nodeName).bind fun same =>
        if same then some (some (i :: node)) else childLoop nodeName node (i + 1) later

/-- `HcsGetChildNode`. -/
def hcsGetChildNode (tree : ConfigTree) (node : NodePtr) (nodeName : Bytes) :
    Option (Option NodePtr) :=
  childLoop nodeName node 0 (tree.childrenAt node)

/-- The loop of `HcsGetNodeByRefAttr`. -/
def refLoop (tree : ConfigTree) (attrValue : UInt32) : ℕ → Option NodePtr → Option (Option NodePtr)
  | 0, _ => none
  | _ + 1, none => some none
  | rounds + 1, some curNode =>
    (nodeAt tree curNode).bind fun node =>
      if node.hashValue = attrValue then some (some curNode)
      else refLoop tree attrValue rounds
        (if (tree.get? (0 :: curNode)).isSome then some (0 :: curNode)
          else traverseTreeNode tree curNode)

/-- `HcsGetNodeByRefAttr`, with all interfaces there. The swap does not fail. -/
def hcsGetNodeByRefAttr (tree : ConfigTree) (node : DeviceResourceNode) (attrName : Bytes) :
    Option (Option NodePtr) :=
  (getAttrInNode node attrName).bind fun attr =>
    attr.elim (some none) fun attr =>
      (hcsGetPrefix byteAlign attr.value).bind fun opCode =>
        if opCode ≠ configReference then some none
        else
          (hcsSwapToUint32 byteAlign (attr.value.drop (hcsPrefixLength byteAlign))
            configDword).bind fun attrValue => attrValue.bind fun attrValue =>
              refLoop tree attrValue (tree.labels.length + 1) (some [])

end

end Hdf.HcsParser
