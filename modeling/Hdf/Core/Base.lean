import Mathlib.Data.Nat.Bitwise
import Mathlib.Tactic.Linarith

/-!
# Status codes and device ids

What the device manager and the device hosts have in common: the status codes of
their functions, the policies of services and the packing of a host number, a
device number and a node number into one 32-bit device id.

The arguments of `MK_DEVID` are promoted before they are shifted; the shift of a
host number is taken modulo 2^32.

## Main results

* `toNat_hostIdOf_mkDevid`, `toNat_deviceIdOf_mkDevid`, `toNat_devnodeIdOf_mkDevid`: unpacking
* `devid_ext`: the numbers in an id determine it
-/

namespace Hdf.Core

/-- The status codes that the functions return. -/
inductive HdfStatus where
  | success | failure | invalidParam | invalidObject | mallocFail | deviceBusy | noDevice | noData
  | noMemory | noDeviceService | devInitFail | publishFail | attachDevFail | io | devOp
  deriving DecidableEq, Repr

/-- `SERVICE_POLICY_PRIVATE`. -/
def servicePolicyPrivate : UInt16 := 4

/-- `DEVICEID_MASK`. -/
def deviceIdMask : UInt32 := 0xffff

/-- `DEVNODEID_MASK`. -/
def devnodeIdMask : UInt32 := 0xff

/-- `MK_DEVID`. -/
def mkDevid (hostId deviceId devnodeId : UInt32) : UInt32 :=
  (hostId <<< 24) ||| (deviceId <<< 8) ||| devnodeId

/-- `HOSTID`. -/
def hostIdOf (devid : UInt32) : UInt32 := devid >>> 24

/-- `DEVICEID`. -/
def deviceIdOf (devid : UInt32) : UInt32 := (devid >>> 8) &&& deviceIdMask

/-- `DEVNODEID`. -/
def devnodeIdOf (devid : UInt32) : UInt32 := devid &&& devnodeIdMask

section

variable {hostId deviceId devnodeId : UInt32}

theorem toNat_mkDevid : (mkDevid hostId deviceId devnodeId).toNat =
    (hostId.toNat % 256 * 2 ^ 24) ||| (deviceId.toNat % 2 ^ 24 * 2 ^ 8) ||| devnodeId.toNat := by
  simp only [mkDevid, UInt32.toNat_or, UInt32.toNat_shiftLeft, Nat.shiftLeft_eq]
  congr 2
  · change hostId.toNat * 2 ^ 24 % 2 ^ 32 = _
    omega
  · change deviceId.toNat * 2 ^ 8 % 2 ^ 32 = _
    omega

theorem toNat_hostIdOf (devid : UInt32) : (hostIdOf devid).toNat = devid.toNat / 2 ^ 24 := by
  rw [hostIdOf, UInt32.toNat_shiftRight, Nat.shiftRight_eq_div_pow]
  rfl

theorem toNat_deviceIdOf (devid : UInt32) :
    (deviceIdOf devid).toNat = devid.toNat / 2 ^ 8 % 2 ^ 16 := by
  rw [deviceIdOf, UInt32.toNat_and, UInt32.toNat_shiftRight, Nat.shiftRight_eq_div_pow]
  exact Nat.and_two_pow_sub_one_eq_mod _ 16

theorem toNat_devnodeIdOf (devid : UInt32) : (devnodeIdOf devid).toNat = devid.toNat % 2 ^ 8 := by
  rw [devnodeIdOf, UInt32.toNat_and]
  exact Nat.and_two_pow_sub_one_eq_mod _ 8

theorem hostIdOf_lt (devid : UInt32) : (hostIdOf devid).toNat < 2 ^ 8 := by
  rw [toNat_hostIdOf]
  have bound := devid.toNat_lt
  omega

theorem deviceIdOf_lt (devid : UInt32) : (deviceIdOf devid).toNat < 2 ^ 16 := by
  rw [toNat_deviceIdOf]
  exact Nat.mod_lt _ (by decide)

/-- The three numbers of a device id determine it. -/
theorem devid_ext {a b : UInt32} (host : hostIdOf a = hostIdOf b)
    (device : deviceIdOf a = deviceIdOf b) (node : devnodeIdOf a = devnodeIdOf b) : a = b := by
  have host := congrArg UInt32.toNat host
  have device := congrArg UInt32.toNat device
  have node := congrArg UInt32.toNat node
  rw [toNat_hostIdOf, toNat_hostIdOf] at host
  rw [toNat_deviceIdOf, toNat_deviceIdOf] at device
  rw [toNat_devnodeIdOf, toNat_devnodeIdOf] at node
  apply UInt32.toNat_inj.mp
  omega

theorem toNat_hostIdOf_mkDevid : (hostIdOf (mkDevid hostId deviceId devnodeId)).toNat =
    hostId.toNat % 2 ^ 8 ||| deviceId.toNat / 2 ^ 16 % 2 ^ 8 ||| devnodeId.toNat / 2 ^ 24 := by
  rw [toNat_hostIdOf, toNat_mkDevid, Nat.or_div_two_pow, Nat.or_div_two_pow]
  congr 2 <;> omega

theorem toNat_deviceIdOf_mkDevid : (deviceIdOf (mkDevid hostId deviceId devnodeId)).toNat =
    deviceId.toNat % 2 ^ 16 ||| devnodeId.toNat / 2 ^ 8 % 2 ^ 16 := by
  rw [toNat_deviceIdOf, toNat_mkDevid, Nat.or_div_two_pow, Nat.or_div_two_pow, Nat.or_mod_two_pow,
    Nat.or_mod_two_pow]
  have host : hostId.toNat % 256 * 2 ^ 24 / 2 ^ 8 % 2 ^ 16 = 0 := by omega
  have device : deviceId.toNat % 2 ^ 24 * 2 ^ 8 / 2 ^ 8 % 2 ^ 16 = deviceId.toNat % 2 ^ 16 := by
    rw [Nat.mul_div_cancel _ (by decide), Nat.mod_mod_of_dvd _ (Nat.pow_dvd_pow 2 (by decide))]
  rw [host, device, Nat.zero_or]

theorem toNat_devnodeIdOf_mkDevid : (devnodeIdOf (mkDevid hostId deviceId devnodeId)).toNat =
    devnodeId.toNat % 2 ^ 8 := by
  rw [toNat_devnodeIdOf, toNat_mkDevid, Nat.or_mod_two_pow, Nat.or_mod_two_pow]
  have host : hostId.toNat % 256 * 2 ^ 24 % 2 ^ 8 = 0 := by omega
  have device : deviceId.toNat % 2 ^ 24 * 2 ^ 8 % 2 ^ 8 = 0 := Nat.mul_mod_left _ _
  rw [host, device, Nat.zero_or, Nat.zero_or]

end

end Hdf.Core
