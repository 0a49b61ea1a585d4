import Hdf.HcGen.Decompile
import Hdf.HcGen.Records

/-!
# Reading the fields of a byte code file

The decompiler reads each field that the generator writes back to the value it
was written from. Words come back as they are; a string comes back when it has
no zero byte and no more bytes than the decompiler takes.

## Main results

* `getNextByteCode_opField`, `readUint32_word`, `readUint16_word`: fields of fixed size
* `readString_stringField`: strings that come back
* `readable_of_readString`: only those do
* `rebuildNumberObject_word`: numbers come back modulo their width
-/

namespace Hdf.HcGen.Decompile

open ByteCodeGen

variable {isAlign : Bool} {offset : ℕ} {rest data text : Bytes}

/-- The stream at an offset, with what is left of the file. -/
abbrev stream (offset : ℕ) (rest : Bytes) : Input := { offset := offset, rest := rest }

/-! ### Fields -/

/-- The number of bytes of the padding of a field. -/
def padding (needAlign : Bool) (size : ℕ) : ℕ := if needAlign then roundUp4 size - size else 0

theorem getAlignSize_eq : getAlignSize isAlign = align isAlign := rfl

theorem toNat_align_sub {size : ℕ} (short : size + 3 < 2 ^ 32) :
    (align isAlign (.ofNat size) - .ofNat size).toNat = padding isAlign size := by
  cases isAlign with
  | false => simp [align, padding]
  | true =>
    have small : (UInt32.ofNat size).toNat = size := by
      rw [UInt32.toNat_ofNat', Nat.mod_eq_of_lt (by omega)]
    have up := le_roundUp4 size
    have lt := roundUp4_lt size
    have aligned : ((UInt32.ofNat size + 3) &&& ~~~3).toNat = roundUp4 size := by
      rw [toNat_mask4, small, Nat.mod_eq_of_lt short]
      rfl
    show (((UInt32.ofNat size + 3) &&& ~~~3) - UInt32.ofNat size).toNat = _
    rw [UInt32.toNat_sub_of_le _ _ (by rw [UInt32.le_iff_toNat_le, aligned, small]; exact up),
      aligned, small]
    rfl

theorem field_eq (short : data.length + 3 < 2 ^ 32) :
    field isAlign data = data ++ List.replicate (padding isAlign data.length) 0 := by
  have small : (UInt32.ofNat data.length).toNat = data.length := by
    rw [UInt32.toNat_ofNat', Nat.mod_eq_of_lt (by omega)]
  rw [field, small, toNat_align_sub short, List.take_length]

/-! ### Reading -/

theorem readFile_append : readFile data.length (stream offset (data ++ rest)) =
    some (data, stream (offset + data.length) rest) := by
  simp [readFile]

theorem readUint32_append (length : data.length = 4) : readUint32 (stream offset (data ++ rest)) =
    some (.ofNat (leNat data), stream (offset + data.length) rest) := by
  rw [readUint32, ← length, readFile_append]
  rfl

/-- A field of less than four bytes is read as a word when fields are padded. -/
theorem readUint32_field (short : data.length ≤ 4) (some : 0 < data.length) :
    readUint32 (stream offset (field true data ++ rest)) =
      Option.some (.ofNat (leNat data), stream (offset + (field true data).length) rest) := by
  have whole : field true data = _ := field_eq (by omega)
  have length : (field true data).length = 4 := by
    rw [whole, List.length_append, List.length_replicate, padding, roundUp4]
    simp only [if_true]
    omega
  rw [readUint32_append length, whole, leNat_append_zeros]

theorem field_false (short : data.length + 3 < 2 ^ 32) : field false data = data := by
  rw [field_eq short]
  simp [padding]

theorem readFile_field_false (short : data.length + 3 < 2 ^ 32) {n : ℕ} (length : data.length = n) :
    readFile n (stream offset (field false data ++ rest)) =
      some (data, stream (offset + (field false data).length) rest) := by
  rw [field_false short, ← length, readFile_append]

theorem getNextByteCode_opField (type : ObjectType) :
    getNextByteCode isAlign (stream offset (opField isAlign type ++ rest)) =
      some ((toOpCode type).opCode.toUInt32,
        stream (offset + (opField isAlign type).length) rest) := by
  have byte : leNat [(toOpCode type).opCode] = (toOpCode type).opCode.toNat := by simp [leNat]
  cases isAlign with
  | false =>
    rw [getNextByteCode, if_pos (by decide), readUint8, if_neg (by decide), opField,
      readFile_field_false (by simp) (List.length_singleton), Option.map_some,
        Option.map_some, byte]
    simp
  | true =>
    rw [getNextByteCode, if_neg (by decide), opField, readUint32_field (by simp) (by simp), byte]
    simp

theorem readUint32_word (n : ℕ) :
    readUint32 (stream offset (field isAlign (leBytes 4 n) ++ rest)) =
      some (.ofNat n, stream (offset + (field isAlign (leBytes 4 n)).length) rest) := by
  have value : UInt32.ofNat (leNat (leBytes 4 n)) = .ofNat n := by
    rw [leNat_leBytes]
    apply UInt32.toNat_inj.mp
    simp
  cases isAlign with
  | false =>
    rw [readUint32, readFile_field_false (by simp) (length_leBytes 4 n), Option.map_some, value]
  | true => rw [readUint32_field (by simp) (by simp), value]

theorem readUint16_word (n : ℕ) :
    readUint16 isAlign (stream offset (field isAlign (leBytes 2 n) ++ rest)) =
      some (.ofNat n, stream (offset + (field isAlign (leBytes 2 n)).length) rest) := by
  have value : leNat (leBytes 2 n) = n % 2 ^ 16 := leNat_leBytes 2 n
  cases isAlign with
  | false =>
    rw [readUint16, if_neg (by decide), readFile_field_false (by simp) (length_leBytes 2 n),
      Option.map_some, value]
    congr 2
    apply UInt16.toNat_inj.mp
    simp
  | true =>
    rw [readUint16, if_pos (by decide), readUint32_field (by simp) (by simp),
      Option.map_some, value]
    congr 2
    apply UInt16.toNat_inj.mp
    simp

theorem readUint8_word (n : ℕ) :
    readUint8 isAlign (stream offset (field isAlign (leBytes 1 n) ++ rest)) =
      some (.ofNat n, stream (offset + (field isAlign (leBytes 1 n)).length) rest) := by
  have value : leNat (leBytes 1 n) = n % 2 ^ 8 := leNat_leBytes 1 n
  cases isAlign with
  | false =>
    rw [readUint8, if_neg (by decide), readFile_field_false (by simp) (length_leBytes 1 n),
      Option.map_some, value]
    congr 2
    apply UInt8.toNat_inj.mp
    simp
  | true =>
    rw [readUint8, if_pos (by decide), readUint32_field (by simp) (by simp), Option.map_some, value]
    congr 2
    apply UInt8.toNat_inj.mp
    simp

theorem readUint64_word (n : ℕ) :
    readUint64 (stream offset (field isAlign (leBytes 8 n) ++ rest)) =
      some (.ofNat n, stream (offset + (field isAlign (leBytes 8 n)).length) rest) := by
  have whole : field isAlign (leBytes 8 n) = leBytes 8 n := by
    rw [field_eq (by simp), length_leBytes]
    cases isAlign <;> simp [padding, roundUp4]
  have read : readFile (leBytes 8 n).length (stream offset (leBytes 8 n ++ rest)) = _ :=
    readFile_append
  rw [length_leBytes] at read
  rw [whole, readUint64, read, Option.map_some, leNat_leBytes, length_leBytes]
  congr 2
  apply UInt64.toNat_inj.mp
  simp

/-- A number object comes back modulo the width of its type. -/
theorem rebuildNumberObject_word (type : IntType) (n : ℕ) :
    rebuildNumberObject isAlign type
        (stream offset (field isAlign (leBytes type.size n) ++ rest)) =
      some (.leaf (.number type (.ofNat (n % 256 ^ type.size))),
        stream (offset + (field isAlign (leBytes type.size n)).length) rest) := by
  cases type with
  | uint8 =>
    rw [rebuildNumberObject, show IntType.uint8.size = 1 from rfl, readUint8_word, Option.map_some]
    congr 4
    apply UInt64.toNat_inj.mp
    simp
    omega
  | uint16 =>
    rw [rebuildNumberObject, show IntType.uint16.size = 2 from rfl, readUint16_word,
      Option.map_some]
    congr 4
    apply UInt64.toNat_inj.mp
    simp
    omega
  | uint32 =>
    rw [rebuildNumberObject, show IntType.uint32.size = 4 from rfl, readUint32_word,
      Option.map_some]
    congr 4
    apply UInt64.toNat_inj.mp
    simp
    omega
  | uint64 =>
    rw [rebuildNumberObject, show IntType.uint64.size = 8 from rfl, readUint64_word,
      Option.map_some]
    congr 4
    apply UInt64.toNat_inj.mp
    simp

/-! ### Strings -/

/-- A string that the decompiler can read: no zero byte, and not too long. -/
def Readable (text : Bytes) : Prop := text.length ≤ stringLimit + 1 ∧ 0 ∉ text

theorem readChars_append {value : Bytes} (short : value.length + text.length ≤ stringLimit + 1)
    (noZero : 0 ∉ text) : readChars value offset (text ++ 0 :: rest) =
      some (value ++ text, stream (offset + text.length + 1) rest) := by
  induction text generalizing value offset with
  | nil => simp [readChars]
  | cons c text ih =>
    rw [List.mem_cons, not_or] at noZero
    rw [List.length_cons] at short
    rw [List.cons_append, readChars, if_neg (Ne.symm noZero.1), if_neg (by omega),
      ih (by simp; omega) noZero.2]
    simp
    omega

theorem readable_of_readChars {value result : Bytes} {i : Input}
    (h : readChars value offset rest = some (result, i)) (short : value.length ≤ stringLimit + 1)
    (noZero : 0 ∉ value) : Readable result := by
  induction rest generalizing value offset with
  | nil =>
    cases h
    exact ⟨short, noZero⟩
  | cons c rest ih =>
    rw [readChars] at h
    split at h
    case isTrue =>
      cases h
      exact ⟨short, noZero⟩
    case isFalse nonzero =>
      split at h
      case isTrue => cases h
      case isFalse room =>
        refine ih h ?_ ?_
        · rw [List.length_append, List.length_singleton]
          omega
        · simp [noZero, Ne.symm nonzero]

theorem readString_stringField (readable : Readable text) :
    readString isAlign (stream offset (stringField isAlign text ++ rest)) =
      some (text, stream (offset + (stringField isAlign text).length) rest) := by
  obtain ⟨short, noZero⟩ := readable
  have limit : stringLimit = 256 := rfl
  have length : (text ++ [0]).length = text.length + 1 := by simp
  have whole : stringField isAlign text =
      text ++ 0 :: List.replicate (padding isAlign (text.length + 1)) 0 := by
    rw [stringField, field_eq (by rw [length]; omega), length, List.append_assoc]
    rfl
  have pads : (align isAlign (.ofNat (text.length + 1)) - .ofNat (text.length + 1)).toNat = _ :=
    toNat_align_sub (by omega)
  rw [readString, if_pos rfl, whole, List.append_assoc, List.cons_append,
    readChars_append (by simpa using short) noZero, Option.bind_some, getAlignSize_eq]
  dsimp only [List.nil_append]
  split
  case isTrue =>
    rw [pads]
    have read : readFile (List.replicate (padding isAlign (text.length + 1)) (0 : UInt8)).length
      (stream (offset + text.length + 1)
        (List.replicate (padding isAlign (text.length + 1)) 0 ++ rest)) = _ :=
      readFile_append
    rw [List.length_replicate] at read
    rw [read]
    simp
    omega
  case isFalse none =>
    have zero : padding isAlign (text.length + 1) = 0 := by
      rw [← pads]
      by_contra nonzero
      exact none (UInt32.lt_iff_toNat_lt.mpr (Nat.pos_of_ne_zero nonzero))
    rw [zero]
    simp
    omega

/-- Whatever the file, a string that has been read could be read back. -/
theorem readable_of_readString {i i' : Input} {value : Bytes}
    (h : readString isAlign i = some (value, i')) : Readable value := by
  obtain ⟨⟨chars, i₁⟩, read, later⟩ := Option.bind_eq_some_iff.mp h
  have readable : Readable chars := by
    split at read
    · exact readable_of_readChars read (by simp) (by simp)
    · cases read
      exact ⟨by simp, by simp⟩
  dsimp only at later
  split at later
  · obtain ⟨_, _, same⟩ := Option.map_eq_some_iff.mp later
    cases same
    exact readable
  · cases later
    exact readable

end Hdf.HcGen.Decompile
