import Hdf.HcsParser.GenerateTree
import Hdf.HcGen.DecompileFields

/-!
# The lengths of compiled records

The loader finds the same lengths for records that the generator has written, as
long as names and strings have no zero byte and fit 32-bit sizes, and as long as
the count of an array is the number of its elements. When an array has more
elements than its 16-bit count can tell, the loader takes the first ones for the
array and finds no record behind them.

## Main results

* `hcsGetNodeOrAttrLength_node`, `hcsGetNodeOrAttrLength_term`: the lengths of records
* `hcsGetNodeOrAttrLength_datum`: elements that the count leaves out
-/

namespace Hdf.HcGen

/-- A name or string without a zero byte that fits 32-bit sizes. -/
def Text (text : Bytes) : Prop := 0 ∉ text ∧ text.length + 4 < 2 ^ 32

def Datum.Loadable : Datum → Prop
  | number _ _ => True
  | string stringValue => Text stringValue

/-- Besides, an array knows the number of its elements. -/
def Value.Loadable : Value → Prop
  | datum d => d.Loadable
  | nodeRef _ => True
  | delete => False
  | array _ arraySize elements => arraySize.toNat = elements.length ∧ ∀ e ∈ elements, e.Loadable

/-- Besides, values belong to terms. -/
def Label.Loadable : Label → Prop
  | .inl node => Text node.name
  | .inr (.term term) => Text term.name ∧ term.value.Loadable
  | .inr (.value _) => False

instance (text : Bytes) : Decidable (Text text) := inferInstanceAs (Decidable (_ ∧ _))

instance : (d : Datum) → Decidable d.Loadable
  | .number _ _ => .isTrue trivial
  | .string stringValue => inferInstanceAs (Decidable (Text stringValue))

instance : (value : Value) → Decidable value.Loadable
  | .datum d => inferInstanceAs (Decidable d.Loadable)
  | .nodeRef _ => .isTrue trivial
  | .delete => .isFalse id
  | .array _ _ _ => inferInstanceAs (Decidable (_ ∧ _))

instance : (l : Label) → Decidable (Label.Loadable l)
  | .inl node => inferInstanceAs (Decidable (Text node.name))
  | .inr (.term _) => inferInstanceAs (Decidable (_ ∧ _))
  | .inr (.value _) => .isFalse id

end Hdf.HcGen

namespace Hdf.HcsParser

open HcGen HcGen.ByteCodeGen HcGen.Decompile

section

variable {needAlign : Bool} {hash : ℕ → UInt32} {text rest data : Bytes}

/-! ### Fields -/

theorem strlen_append (noZero : 0 ∉ text) : strlen (text ++ 0 :: rest) = some text.length := by
  induction text with
  | nil => rfl
  | cons c text ih =>
    have nonzero : c ≠ 0 := fun zero => noZero (zero ▸ List.mem_cons_self)
    rw [List.cons_append, strlen, if_neg nonzero,
      ih fun member => noZero (List.mem_cons_of_mem c member)]
    rfl

theorem length_field (short : data.length + 3 < 2 ^ 32) :
    (field needAlign data).length = if needAlign then roundUp4 data.length else data.length := by
  rw [field_eq short, List.length_append, List.length_replicate, padding]
  have up := le_roundUp4 data.length
  split
  · omega
  · rfl

theorem hcsStringLength_field (whole : Text text) :
    hcsStringLength needAlign (stringField needAlign text ++ rest) =
      some (stringField needAlign text).length := by
  obtain ⟨noZero, short⟩ := whole
  have size : (text ++ [0]).length = text.length + 1 := by simp
  rw [hcsStringLength, stringField, length_field (by omega), field_eq (by omega), size,
    List.append_assoc, List.append_assoc, List.singleton_append, strlen_append noZero]
  rfl

theorem length_opField (type : ObjectType) :
    (opField needAlign type).length = hcsPrefixLength needAlign := by
  rw [opField, length_field (by simp), List.length_singleton]
  cases needAlign <;> rfl

theorem drop_opField (type : ObjectType) :
    (opField needAlign type ++ rest).drop (hcsPrefixLength needAlign) = rest :=
  List.drop_left' (length_opField type)

theorem wordAt_append {width : ℕ} (length : data.length = width) :
    wordAt width (data ++ rest) = some (leNat data) := by
  rw [wordAt, if_pos (by rw [List.length_append]; omega), List.take_left' length]

theorem hcsByteCodeToUint32_field (some : 0 < data.length) (short : data.length ≤ 4) :
    hcsByteCodeToUint32 (field true data ++ rest) = Option.some (.ofNat (leNat data)) := by
  have length : (field true data).length = 4 := by
    rw [length_field (by omega), if_pos rfl, roundUp4]
    omega
  rw [hcsByteCodeToUint32, wordAt_append length, field_eq (by omega), leNat_append_zeros]
  rfl

theorem hcsByteCodeToUint32_word (n : UInt32) :
    hcsByteCodeToUint32 (field needAlign (leBytes 4 n.toNat) ++ rest) = some n := by
  have word : leNat (leBytes 4 n.toNat) = n.toNat := leNat_leBytes_of_lt n.toNat_lt
  cases needAlign with
  | true =>
    rw [hcsByteCodeToUint32_field (by simp) (by simp), word]
    simp
  | false =>
    rw [field_false (by simp), hcsByteCodeToUint32, wordAt_append (by simp), word]
    simp

theorem hcsGetPrefix_opField (type : ObjectType) :
    hcsGetPrefix needAlign (opField needAlign type ++ rest) =
      some (toOpCode type).opCode.toUInt32 := by
  have byte : leNat [(toOpCode type).opCode] = (toOpCode type).opCode.toNat := by simp [leNat]
  cases needAlign with
  | true =>
    rw [hcsGetPrefix, if_pos rfl, opField, hcsByteCodeToUint32_field (by simp) (by simp), byte]
    simp
  | false =>
    rw [hcsGetPrefix, if_neg (by simp), opField, field_false (by simp), hcsByteCodeToUint8,
      wordAt_append (List.length_singleton), byte]
    simp

/-! ### Values -/

/-- The length that the loader takes for numbers of a type. -/
def numberLength (needAlign : Bool) : IntType → ℕ
  | .uint8 => hcsByteLength needAlign
  | .uint16 => hcsWordLength needAlign
  | .uint32 => hcsDwordLength
  | .uint64 => hcsQwordLength

theorem length_number (type : IntType) (n : ℕ) :
    (field needAlign (leBytes type.size n)).length = numberLength needAlign type := by
  have short : (leBytes type.size n).length + 3 < 2 ^ 32 := by
    rw [length_leBytes]
    cases type <;> decide
  rw [length_field short, length_leBytes]
  cases type <;> cases needAlign <;> rfl

theorem hcsGetDataTypeOffset_datum {d : Datum} (loadable : d.Loadable) :
    hcsGetDataTypeOffset needAlign (encodeDatum needAlign d ++ rest) =
      some ((encodeDatum needAlign d).length : ℤ) := by
  cases d with
  | number type integerValue =>
    rw [encodeDatum, List.append_assoc, hcsGetDataTypeOffset, hcsGetPrefix_opField,
      Option.bind_some, List.length_append, length_opField, length_number, Nat.add_comm]
    cases type with
    | uint8 => exact if_pos rfl
    | uint16 => exact (if_neg (by decide)).trans (if_pos rfl)
    | uint32 => exact ((if_neg (by decide)).trans (if_neg (by decide))).trans (if_pos (.inl rfl))
    | uint64 =>
      exact (((if_neg (by decide)).trans (if_neg (by decide))).trans (if_neg (by decide))).trans
        (if_pos rfl)
  | string stringValue =>
    rw [encodeDatum, List.append_assoc, hcsGetDataTypeOffset, hcsGetPrefix_opField,
      Option.bind_some, drop_opField, hcsStringLength_field loadable, List.length_append,
        length_opField, Nat.add_comm]
    rfl

theorem hcsGetDataTypeOffset_nodeRef {n : ℕ} :
    hcsGetDataTypeOffset needAlign
        (opField needAlign .nodeRef ++ (field needAlign (leBytes 4 n) ++ rest)) =
      some ((opField needAlign .nodeRef ++ field needAlign (leBytes 4 n)).length : ℤ) := by
  have length : (field needAlign (leBytes 4 n)).length = hcsDwordLength := length_number .uint32 n
  rw [hcsGetDataTypeOffset, hcsGetPrefix_opField, Option.bind_some, List.length_append,
    length_opField, length, Nat.add_comm]
  rfl

/-! ### Arrays -/

theorem hcsSwapToUint16_word (n : UInt16) :
    hcsSwapToUint16 needAlign (field needAlign (leBytes 2 n.toNat) ++ rest) configWord =
      some (some n) := by
  have word : leNat (leBytes 2 n.toNat) = n.toNat := leNat_leBytes_of_lt n.toNat_lt
  rw [hcsSwapToUint16, if_pos rfl]
  cases needAlign with
  | true =>
    rw [if_pos rfl, hcsByteCodeToUint32_field (by simp) (by simp), word]
    simp
  | false =>
    rw [if_neg (by simp), field_false (by simp), hcsByteCodeToUint16, wordAt_append (by simp), word]
    simp

theorem arrayLengthLoop_elements {start : Bytes} (elements : List Datum) {arrayLen : ℕ}
    (here : start.drop arrayLen = elements.flatMap (encodeDatum needAlign) ++ rest)
    (loadable : ∀ e ∈ elements, e.Loadable) :
    arrayLengthLoop needAlign start elements.length arrayLen =
      some ((arrayLen + (elements.flatMap (encodeDatum needAlign)).length : ℕ) : ℤ) := by
  induction elements generalizing arrayLen with
  | nil => rfl
  | cons e elements ih =>
    rw [List.flatMap_cons, List.append_assoc] at here
    rw [List.length_cons, arrayLengthLoop, here,
      hcsGetDataTypeOffset_datum (loadable e List.mem_cons_self), Option.bind_some,
      if_neg (not_lt.mpr (Int.natCast_nonneg _)), Int.toNat_natCast, List.flatMap_cons,
      List.length_append, ← Nat.add_assoc]
    apply ih
    · rw [← List.drop_drop, here, List.drop_left]
    · exact fun d member => loadable d (List.mem_cons_of_mem e member)

/-- The loader takes as many elements as the count tells. -/
theorem hcsGetArrayLength_array (elements : List Datum) {count : UInt16}
    (enough : count.toNat ≤ elements.length) (loadable : ∀ e ∈ elements, e.Loadable) :
    hcsGetArrayLength needAlign (opField needAlign .array ++
        (field needAlign (leBytes 2 count.toNat) ++
          (elements.flatMap (encodeDatum needAlign) ++ rest))) =
      some ((opField needAlign .array ++ (field needAlign (leBytes 2 count.toNat) ++
        (elements.take count.toNat).flatMap (encodeDatum needAlign))).length : ℤ) := by
  have word : (field needAlign (leBytes 2 count.toNat)).length = hcsWordLength needAlign :=
    length_number .uint16 count.toNat
  have taken : (elements.take count.toNat).length = count.toNat := by
    rw [List.length_take, Nat.min_eq_left enough]
  have here : (opField needAlign .array ++ (field needAlign (leBytes 2 count.toNat) ++
        (elements.flatMap (encodeDatum needAlign) ++ rest))).drop
          (hcsPrefixLength needAlign + hcsWordLength needAlign) =
      (elements.take count.toNat).flatMap (encodeDatum needAlign) ++
        ((elements.drop count.toNat).flatMap (encodeDatum needAlign) ++ rest) := by
    rw [← List.drop_drop, drop_opField, List.drop_left' word, ← List.append_assoc,
      ← List.flatMap_append, List.take_append_drop]
  have loop :=
    arrayLengthLoop_elements _ here fun d member => loadable d (List.mem_of_mem_take member)
  rw [taken] at loop
  rw [hcsGetArrayLength, drop_opField, hcsSwapToUint16_word, Option.bind_some]
  dsimp only
  rw [loop, List.length_append, List.length_append, length_opField, word, Nat.add_assoc]

/-! ### Records -/

/-- The part of a value that the loader takes for it. -/
def measured : Value → Value
  | .array type arraySize elements =>
    .array type arraySize (elements.take arraySize.toUInt16.toNat)
  | value => value

/-- The opcodes whose data `HcsGetDataTypeOffset` measures in an attribute. -/
def IsData (opCode : UInt32) : Prop :=
  opCode = configByte ∨ opCode = configWord ∨ opCode = configDword ∨ opCode = configQword ∨
    opCode = configString ∨ opCode = configReference

instance (opCode : UInt32) : Decidable (IsData opCode) :=
  inferInstanceAs (Decidable (_ ∨ _))

theorem hcsGetAttrLength_eq {name payload : Bytes} {type : ObjectType} (whole : Text name) :
    hcsGetAttrLength needAlign (termHeader needAlign name ++ (opField needAlign type ++ payload)) =
      (if IsData (toOpCode type).opCode.toUInt32 then
          hcsGetDataTypeOffset needAlign (opField needAlign type ++ payload)
        else if (toOpCode type).opCode.toUInt32 = configArray then
          hcsGetArrayLength needAlign (opField needAlign type ++ payload)
        else some hdfFailure).map fun dataLen =>
          if dataLen < 0 then hdfFailure else dataLen + (termHeader needAlign name).length := by
  have length : (termHeader needAlign name).length =
      hcsPrefixLength needAlign + (stringField needAlign name).length := by
    rw [termHeader, List.length_append, length_opField]
  have behind : (termHeader needAlign name ++ (opField needAlign type ++ payload)).drop
      (hcsPrefixLength needAlign + (stringField needAlign name).length) =
        opField needAlign type ++ payload := by
    rw [← length, List.drop_left]
  have string : hcsStringLength needAlign
      ((termHeader needAlign name ++ (opField needAlign type ++ payload)).drop
        (hcsPrefixLength needAlign)) = some (stringField needAlign name).length := by
    rw [termHeader, List.append_assoc, drop_opField, hcsStringLength_field whole]
  rw [hcsGetAttrLength, string, Option.bind_some]
  dsimp only
  rw [behind, hcsGetPrefix_opField, length]
  rfl

theorem hcsGetAttrLength_data {name payload : Bytes} {type : ObjectType} {n : ℕ}
    (whole : Text name) (data : IsData (toOpCode type).opCode.toUInt32)
    (length : hcsGetDataTypeOffset needAlign (opField needAlign type ++ payload) = some (n : ℤ)) :
    hcsGetAttrLength needAlign (termHeader needAlign name ++ (opField needAlign type ++ payload)) =
      some (((termHeader needAlign name).length + n : ℕ) : ℤ) := by
  rw [hcsGetAttrLength_eq whole, if_pos data, length, Option.map_some,
    if_neg (not_lt.mpr (Int.natCast_nonneg n)), Nat.cast_add, add_comm]

theorem hcsGetAttrLength_term {term : ConfigTerm} (name : Text term.name)
    (loadable : term.value.Loadable) :
    hcsGetAttrLength needAlign (encode needAlign hash (.leaf (.term term)) ++ rest) =
      some (((termHeader needAlign term.name).length +
        (encodeValue needAlign hash (some term) (measured term.value)).length : ℕ) : ℤ) := by
  rw [encode, List.append_assoc]
  cases value : term.value with
  | datum d =>
    rw [value] at loadable
    have length : hcsGetDataTypeOffset needAlign (encodeDatum needAlign d ++ rest) = _ :=
      hcsGetDataTypeOffset_datum loadable
    rw [show measured (.datum d) = .datum d from rfl, encodeValue]
    cases d with
    | number type integerValue =>
      rw [encodeDatum, List.append_assoc] at length ⊢
      exact hcsGetAttrLength_data name (by cases type <;> decide) length
    | string stringValue =>
      rw [encodeDatum, List.append_assoc] at length ⊢
      exact hcsGetAttrLength_data name (by decide) length
  | nodeRef path =>
    rw [show measured (.nodeRef path) = .nodeRef path from rfl, encodeValue, List.append_assoc]
    exact hcsGetAttrLength_data name (by decide) hcsGetDataTypeOffset_nodeRef
  | delete =>
    rw [value] at loadable
    exact loadable.elim
  | array type arraySize elements =>
    rw [value] at loadable
    obtain ⟨counted, each⟩ := loadable
    have enough : arraySize.toUInt16.toNat ≤ elements.length := by
      rw [← counted, UInt32.toNat_toUInt16]
      exact Nat.mod_le _ _
    rw [measured, encodeValue, encodeValue, List.append_assoc, List.append_assoc,
      hcsGetAttrLength_eq name, if_neg (by decide),
      if_pos (show (toOpCode .array).opCode.toUInt32 = configArray from rfl),
      hcsGetArrayLength_array elements enough each, Option.map_some,
      if_neg (not_lt.mpr (Int.natCast_nonneg _)), Nat.cast_add, add_comm]

/-- The length that the loader takes for a term. -/
def termLength (needAlign : Bool) (hash : ℕ → UInt32) (term : ConfigTerm) : ℕ :=
  (termHeader needAlign term.name).length +
    (encodeValue needAlign hash (some term) (measured term.value)).length

theorem hcsGetNodeOrAttrLength_term {term : ConfigTerm} (name : Text term.name)
    (loadable : term.value.Loadable) :
    hcsGetNodeOrAttrLength needAlign (encode needAlign hash (.leaf (.term term)) ++ rest) =
      some (termLength needAlign hash term : ℤ) := by
  have attr : hcsGetAttrLength needAlign (encode needAlign hash (.leaf (.term term)) ++ rest) = _ :=
    hcsGetAttrLength_term name loadable
  rw [hcsGetNodeOrAttrLength, termLength, ← attr, encode, termHeader, List.append_assoc,
    List.append_assoc, hcsGetPrefix_opField, Option.bind_some]
  exact (if_neg (by decide)).trans (if_pos rfl)

/-- The elements that a count leaves out are no records. -/
theorem hcsGetNodeOrAttrLength_datum (d : Datum) :
    hcsGetNodeOrAttrLength needAlign (encodeDatum needAlign d ++ rest) = some hdfFailure := by
  cases d with
  | number type integerValue =>
    rw [encodeDatum, List.append_assoc, hcsGetNodeOrAttrLength, hcsGetPrefix_opField,
      Option.bind_some]
    cases type <;> exact (if_neg (by decide)).trans (if_neg (by decide))
  | string stringValue =>
    rw [encodeDatum, List.append_assoc, hcsGetNodeOrAttrLength, hcsGetPrefix_opField,
      Option.bind_some]
    exact (if_neg (by decide)).trans (if_neg (by decide))

theorem hcsGetNodeOrAttrLength_node {name : HcGen.Bytes} {size : UInt32} (text : Text name) :
    hcsGetNodeOrAttrLength needAlign (nodeHeader needAlign name size ++ rest) =
      some ((nodeHeader needAlign name size).length : ℤ) := by
  have word : (field needAlign (leBytes 4 size.toNat)).length = hcsDwordLength :=
    length_number .uint32 size.toNat
  rw [nodeHeader, List.append_assoc, hcsGetNodeOrAttrLength, hcsGetPrefix_opField, Option.bind_some,
    drop_opField, List.append_assoc, hcsStringLength_field text, List.length_append,
    List.length_append, length_opField, word]
  refine (if_pos rfl).trans (congrArg (fun n : ℕ => some (n : ℤ)) ?_)
  omega

end

end Hdf.HcsParser
