import Mathlib.Data.List.Basic

/-!
# C strings and their hash keys

Services are found by a hash key of their name. The key has 31 bits, so different
names can have the same key.
-/

namespace Hdf

/-- A C string: the bytes before the terminator, none of which is zero. -/
def CString := { bytes : List UInt8 // 0 ∉ bytes }
  deriving DecidableEq

namespace CString

/-- The string with the bytes of an ASCII text. -/
def ofAscii (text : String) : CString :=
  ⟨(text.toList.map fun c => UInt8.ofNat c.toNat).filter (· ≠ 0), by simp⟩

/-- `strlen`. -/
def length (text : CString) : ℕ := text.val.length

end CString

/-- The value of a `char` that is added to a `uint32_t`. Whether `char` is signed depends
on the platform. -/
def charValue (charSigned : Bool) (c : UInt8) : UInt32 :=
  if charSigned && decide (128 ≤ c) then c.toUInt32 + 0xffffff00 else c.toUInt32

/-- The loop of `HdfStringMakeHashKey`, with `seed` 131. -/
def hashLoop (charSigned : Bool) (text : CString) : UInt32 :=
  text.val.foldl (fun hashValue c => hashValue * 131 + charValue charSigned c) 0

/-- `HdfStringMakeHashKey`. -/
def hdfStringMakeHashKey (charSigned : Bool) (text : CString) (mask : UInt32) : UInt32 :=
  (hashLoop charSigned text &&& 0x7fffffff) ||| mask

end Hdf
