import Hdf.Core.Base
import Hdf.Utils.CString

/-!
# Hosts and devices in the configuration

The device manager reads from the configuration tree which hosts there are, and for
every host its devices and their device nodes. Hosts are numbered in the order of
the tree and kept in the order of their priorities. A device node gets its device
id from the number of its host, that of its device and its own.

Enough memory is assumed to be there. A device information also carries the numbers
that its id has been made from.
-/

namespace Hdf.Core.Attribute

/-- The value of an attribute. Wider numbers, arrays and references are not told apart. -/
inductive AttrValue where
  | byte (value : UInt8)
  | word (value : UInt16)
  | string (value : CString)
  | other
  deriving DecidableEq

/-- `struct DeviceResourceAttr`. -/
structure DeviceResourceAttr where
  name : CString
  value : AttrValue
  deriving DecidableEq

/-- `struct DeviceResourceNode`, with its attributes and its children. -/
inductive DeviceResourceNode where
  | mk (attrData : List DeviceResourceAttr) (child : List DeviceResourceNode)

namespace DeviceResourceNode

def attrData : DeviceResourceNode → List DeviceResourceAttr
  | mk attrData _ => attrData

def child : DeviceResourceNode → List DeviceResourceNode
  | mk _ child => child

mutual

/-- The nodes of a tree, in the order in which `HcsGetNodeByMatchAttr` visits them. -/
def nodes : DeviceResourceNode → List DeviceResourceNode
  | mk attrData child => mk attrData child :: nodesOf child

def nodesOf : List DeviceResourceNode → List DeviceResourceNode
  | [] => []
  | node :: siblings => node.nodes ++ nodesOf siblings

end

end DeviceResourceNode

/-! ### Reading attributes -/

/-- `GetAttrInNode`. -/
def getAttrInNode (node : DeviceResourceNode) (attrName : CString) : Option DeviceResourceAttr :=
  node.attrData.find? fun attr => attr.name = attrName

/-- `HcsGetUint16`, with its status. -/
def hcsGetUint16 (node : DeviceResourceNode) (attrName : CString) (default : UInt16) :
    HdfStatus × UInt16 :=
  match getAttrInNode node attrName with
  | some ⟨_, .byte value⟩ => (.success, value.toUInt16)
  | some ⟨_, .word value⟩ => (.success, value)
  | _ => (.failure, default)

/-- `HcsGetString` without a default. -/
def hcsGetString (node : DeviceResourceNode) (attrName : CString) : Option CString :=
  match getAttrInNode node attrName with
  | some ⟨_, .string value⟩ => some value
  | _ => none

/-- `HcsGetNodeByMatchAttr`. -/
def hcsGetNodeByMatchAttr (node : DeviceResourceNode) (attrValue : CString) :
    Option DeviceResourceNode :=
  node.nodes.find? fun node =>
    node.attrData.any fun attr =>
      attr.value = .string attrValue && attr.name = .ofAscii "match_attr"

/-! ### Ordered lists -/

/-- The loop of `HdfSListAddOrder` over pairs of neighbours. -/
def addOrderLoop {α : Type*} (comparer : α → α → Bool) (link : α) : List α → List α
  | [] => [link]
  | [last] => [last, link]
  | iterator :: next :: rest =>
    if comparer iterator link && comparer link next then iterator :: link :: next :: rest
    else iterator :: addOrderLoop comparer link (next :: rest)

/-- `HdfSListAddOrder`, for an element that is not in the list. -/
def hdfSListAddOrder {α : Type*} (comparer : α → α → Bool) (link : α) (list : List α) : List α :=
  match list with
  | [] => [link]
  | root :: rest =>
    if comparer link root then link :: root :: rest else addOrderLoop comparer link (root :: rest)

/-! ### Hosts -/

/-- `struct HdfHostInfo`. -/
structure HdfHostInfo where
  hostId : UInt16
  priority : UInt16
  hostName : CString
  deriving DecidableEq

/-- `MAX_PRIORITY_NUM`. -/
def maxPriorityNum : UInt16 := 200

/-- `GetHdfManagerNode`. -/
def getHdfManagerNode (root : DeviceResourceNode) : Option DeviceResourceNode :=
  hcsGetNodeByMatchAttr root (.ofAscii "hdf_manager")

/-- `GetHostInfo`: the name and the priority of a host. -/
def getHostInfo (hostNode : DeviceResourceNode) : Option (CString × UInt16) :=
  match hcsGetString hostNode (.ofAscii "hostName") with
  | none => none
  | some hostName =>
    if hostName = .ofAscii "" then none
    else
      let (status, readNum) := hcsGetUint16 hostNode (.ofAscii "priority") 0
      if status ≠ .success ∨ readNum > maxPriorityNum then none else some (hostName, readNum)

/-- `HdfHostListCompare`. -/
def hdfHostListCompare (first second : HdfHostInfo) : Bool := first.priority ≤ second.priority

/-- The loop of `HdfAttributeManagerGetHostList`. -/
def hostListLoop : List DeviceResourceNode → UInt16 → List HdfHostInfo → List HdfHostInfo
  | [], _, hostList => hostList
  | hostNode :: siblings, hostId, hostList =>
    match getHostInfo hostNode with
    | none => hostListLoop siblings hostId hostList
    | some (hostName, priority) =>
      hostListLoop siblings (hostId + 1)
        (hdfSListAddOrder hdfHostListCompare { hostId, priority, hostName } hostList)

/-- `HdfAttributeManagerGetHostList`. -/
def hdfAttributeManagerGetHostList (root : DeviceResourceNode) : Option (List HdfHostInfo) :=
  (getHdfManagerNode root).map fun hdfManagerNode => hostListLoop hdfManagerNode.child 0 []

/-! ### Device nodes -/

/-- `struct HdfDeviceInfo`, with the numbers that the id has been made from. -/
structure HdfDeviceInfo where
  policy : UInt16
  priority : UInt16
  preload : UInt16
  permission : UInt16
  moduleName : CString
  svcName : CString
  deviceMatchAttr : Option CString
  deviceId : UInt32 := 0
  hostId : UInt16 := 0
  deviceIdx : UInt16 := 0
  deviceNodeIdx : UInt8 := 0
  deriving DecidableEq

/-- The part of a `struct DevHostServiceClnt` that the attributes go to. -/
structure DevHostServiceClnt where
  hostId : UInt16
  hostName : CString
  unloadDevInfos : List HdfDeviceInfo := []
  dynamicDevInfos : List HdfDeviceInfo := []
  deriving DecidableEq

/-- `SERVICE_POLICY_INVALID`. -/
def servicePolicyInvalid : UInt16 := 5

/-- `DEVICE_PRELOAD_DISABLE`. -/
def devicePreloadDisable : UInt16 := 2

/-- `DEVICE_PRELOAD_INVALID`. -/
def devicePreloadInvalid : UInt16 := 3

/-- `HdfDeviceListCompare`. -/
def hdfDeviceListCompare (first second : HdfDeviceInfo) : Bool := first.priority ≤ second.priority

/-- `GetHostNode`. -/
def getHostNode (root : DeviceResourceNode) (inHostName : CString) : Option DeviceResourceNode :=
  (getHdfManagerNode root).bind fun hdfManagerNode =>
    hdfManagerNode.child.find? fun hostNode =>
      hcsGetString hostNode (.ofAscii "hostName") = some inHostName

/-- `CheckDeviceInfo`. -/
def checkDeviceInfo (deviceNodeInfo : HdfDeviceInfo) : Bool :=
  if deviceNodeInfo.policy ≥ servicePolicyInvalid then false
  else if deviceNodeInfo.priority > maxPriorityNum then false
  else if deviceNodeInfo.preload ≥ devicePreloadInvalid then false
  else deviceNodeInfo.moduleName ≠ .ofAscii ""

/-- `GetDeviceNodeInfo`. -/
def getDeviceNodeInfo (deviceNode : DeviceResourceNode) : Option HdfDeviceInfo :=
  let policy := (hcsGetUint16 deviceNode (.ofAscii "policy") 0).2
  let priority := (hcsGetUint16 deviceNode (.ofAscii "priority") 100).2
  let preload := (hcsGetUint16 deviceNode (.ofAscii "preload") 0).2
  let permission := (hcsGetUint16 deviceNode (.ofAscii "permission") 0).2
  let deviceMatchAttr := hcsGetString deviceNode (.ofAscii "deviceMatchAttr")
  match hcsGetString deviceNode (.ofAscii "moduleName") with
  | none => none
  | some moduleName =>
    match hcsGetString deviceNode (.ofAscii "serviceName") with
    | none => none
    | some svcName =>
      let info : HdfDeviceInfo :=
        { policy, priority, preload, permission, moduleName, svcName, deviceMatchAttr }
      if checkDeviceInfo info then some info else none

/-- The information of a device node with its id. -/
def HdfDeviceInfo.numbered (info : HdfDeviceInfo) (hostId deviceIdx : UInt16)
    (deviceNodeIdx : UInt8) : HdfDeviceInfo :=
  { info with
    deviceId := mkDevid hostId.toUInt32 deviceIdx.toUInt32 deviceNodeIdx.toUInt32
    hostId, deviceIdx, deviceNodeIdx }

/-- The list that a device information is added to. -/
def DevHostServiceClnt.add (hostClnt : DevHostServiceClnt) (info : HdfDeviceInfo) :
    DevHostServiceClnt :=
  if info.preload ≠ devicePreloadDisable then
    { hostClnt with
      unloadDevInfos := hdfSListAddOrder hdfDeviceListCompare info hostClnt.unloadDevInfos }
  else { hostClnt with dynamicDevInfos := info :: hostClnt.dynamicDevInfos }

/-- The loop of `GetDevcieNodeList`. -/
def devcieNodeLoop (deviceIdx : UInt16) :
    List DeviceResourceNode → UInt8 → DevHostServiceClnt → UInt8 × DevHostServiceClnt
  | [], deviceNodeIdx, hostClnt => (deviceNodeIdx, hostClnt)
  | devNodeResource :: siblings, deviceNodeIdx, hostClnt =>
    match getDeviceNodeInfo devNodeResource with
    | none => devcieNodeLoop deviceIdx siblings deviceNodeIdx hostClnt
    | some info =>
      devcieNodeLoop deviceIdx siblings (deviceNodeIdx + 1)
        (hostClnt.add (info.numbered hostClnt.hostId deviceIdx deviceNodeIdx))

/-- `GetDevcieNodeList`. -/
def getDevcieNodeList (device : DeviceResourceNode) (hostClnt : DevHostServiceClnt)
    (deviceIdx : UInt16) : Bool × DevHostServiceClnt :=
  let (deviceNodeIdx, hostClnt) := devcieNodeLoop deviceIdx device.child 1 hostClnt
  (deviceNodeIdx > 1, hostClnt)

/-- The loop of `HdfAttributeManagerGetDeviceList`. -/
def deviceListLoop : List DeviceResourceNode → UInt16 → DevHostServiceClnt →
    HdfStatus × DevHostServiceClnt
  | [], _, hostClnt => (.success, hostClnt)
  | device :: siblings, deviceIdx, hostClnt =>
    let (found, hostClnt) := getDevcieNodeList device hostClnt deviceIdx
    if !found then (.noDevice, hostClnt) else deviceListLoop siblings (deviceIdx + 1) hostClnt

end Hdf.Core.Attribute
