import Hdf.HcsParser.TreeAccess

/-!
# Reading back what was compiled

The getters on the tree that is loaded of a compiled configuration give what the source says: for
every node and every name, the value of the last term of that name, as far as it has the type that
is asked for.

## Main definitions

* `lastTerm`, `objectAt`: the terms and the nodes of the source
* `ReadsAs`, `ReadsArrayAs`: the getters agree with a value of the source

## Main results

* `attrNamed_of_terms`: the attribute that is found is that of the last term
* `reads_as`, `reads_array_as`: all getters agree with the source
-/

namespace Hdf.HcGen

/-- A number, when it is read with some bytes. -/
def Datum.asNumber (width : ℕ) : Datum → Option ℕ
  | number type integerValue =>
    if type.size ≤ width then some (integerValue.toNat % 256 ^ type.size) else none
  | string _ => none

def Value.asNumber (width : ℕ) : Value → Option ℕ
  | datum d => d.asNumber width
  | _ => none

def Datum.asString : Datum → Option Bytes
  | number _ _ => none
  | string stringValue => some stringValue

def Value.asString : Value → Option Bytes
  | datum d => d.asString
  | _ => none

/-- The elements of an array. -/
def Value.elements : Value → Option (List Datum)
  | array _ _ elements => some elements
  | _ => none

end Hdf.HcGen

namespace Hdf.HcsParser

open Hdf.Core (HdfStatus)
open HcGen HcGen.ByteCodeGen HcGen.Decompile

/-- The last term of a name. -/
def lastTerm (attrName : Bytes) (children : List AstObject) : Option ConfigTerm :=
  (termsOf children).reverse.find? fun term => term.name = attrName

/-- What a getter of a number leaves. -/
def answer {α : Type} (failed : HdfStatus) (default : α) (of : ℕ → α) : Option ℕ → HdfStatus × α
  | none => (failed, default)
  | some n => (.success, of n)

section

variable {needAlign : Bool} {hash : ℕ → UInt32} {rest start : Bytes} {attrName : Bytes} {α : Type}

/-! ### Names -/

theorem strcmpEq_of_begins {text name : Bytes} (begins : Begins start text) (noZero : 0 ∉ text)
    (noZero' : 0 ∉ name) : strcmpEq start name = some (decide (text = name)) := by
  obtain ⟨rest, rfl⟩ := begins
  induction text generalizing name with
  | nil =>
    cases name with
    | nil => rfl
    | cons d name =>
      have other : (0 : UInt8) ≠ d := fun same => noZero' (same ▸ List.mem_cons_self)
      rw [List.nil_append, strcmpEq, if_neg other]
      rfl
  | cons c text ih =>
    rw [List.mem_cons, not_or] at noZero
    cases name with
    | nil =>
      rw [List.cons_append, strcmpEq]
      simp [Ne.symm noZero.1]
    | cons d name =>
      rw [List.mem_cons, not_or] at noZero'
      rw [List.cons_append, strcmpEq, ih noZero.2 noZero'.2]
      by_cases same : c = d
      · simp [same]
      · simp [same]

/-- The attribute that is found is that of the first term of the name, in the order of the
attributes. -/
theorem attrNamed_of_terms {attrs : List DeviceResourceAttr} {terms : List ConfigTerm}
    (each : List.Forall₂ (AttrOf needAlign hash) attrs terms)
    (noZero : ∀ term ∈ terms, 0 ∉ term.name) (plain : 0 ∉ attrName) :
    ∃ found, attrNamed attrName attrs = some found ∧
      Option.Rel (AttrOf needAlign hash) found (terms.find? fun term => term.name = attrName) := by
  induction each with
  | nil => exact ⟨none, rfl, .none⟩
  | @cons attr term attrs terms first later ih =>
    rw [List.forall_mem_cons] at noZero
    rw [attrNamed, strcmpEq_of_begins first.name noZero.1 plain, Option.bind_some]
    by_cases same : term.name = attrName
    · rw [List.find?_cons_of_pos (by simpa using same)]
      exact ⟨some attr, by simp [same], .some first⟩
    · rw [List.find?_cons_of_neg (by simpa using same)]
      obtain ⟨found, eq, rel⟩ := ih noZero.2
      exact ⟨found, by simpa [same] using eq, rel⟩

/-! ### Numbers -/

/-- A swap reads numbers that are not wider than its own. -/
structure SwapSpec (needAlign : Bool) (swap : Bytes → UInt32 → Option (Option α)) (width : ℕ)
    (of : ℕ → α) : Prop where
  number : ∀ (type : IntType) (n : ℕ) (rest : Bytes),
    swap (field needAlign (leBytes type.size n) ++ rest) (toOpCode (.int type)).opCode.toUInt32 =
      some (if type.size ≤ width then some (of (n % 256 ^ type.size)) else none)
  other : ∀ start opCode, (∀ type, opCode ≠ (toOpCode (.int type)).opCode.toUInt32) →
    swap start opCode = some none

theorem wordAt_field {data : Bytes} (short : data.length + 3 < 2 ^ 32) :
    wordAt data.length (field needAlign data ++ rest) = some (leNat data) := by
  rw [field_eq short, List.append_assoc]
  exact wordAt_append rfl

theorem wordAt_number {width : ℕ} (small : width ≤ 8) (n : ℕ) :
    wordAt width (field needAlign (leBytes width n) ++ rest) = some (n % 256 ^ width) := by
  have read : wordAt (leBytes width n).length (field needAlign (leBytes width n) ++ rest) = _ :=
    wordAt_field (by rw [length_leBytes]; omega)
  rwa [length_leBytes, leNat_leBytes] at read

theorem word_padded {width : ℕ} (some : 0 < width) (small : width ≤ 4) (n : ℕ) :
    hcsByteCodeToUint32 (field true (leBytes width n) ++ rest) =
      Option.some (.ofNat (n % 256 ^ width)) := by
  rw [hcsByteCodeToUint32_field (by simpa using some) (by simpa using small), leNat_leBytes]

theorem swapSpec_uint8 : SwapSpec needAlign (hcsSwapToUint8 needAlign) 1 UInt8.ofNat where
  number type n rest := by
    cases type with
    | uint8 =>
      change hcsSwapToUint8 needAlign (field needAlign (leBytes 1 n) ++ rest) configByte =
        some (some (.ofNat (n % 256 ^ 1)))
      rw [hcsSwapToUint8, if_pos rfl]
      cases needAlign with
      | true => rw [if_pos rfl, word_padded (by decide) (by decide)]; simp
      | false => rw [if_neg (by decide), hcsByteCodeToUint8, wordAt_number (by decide)]; rfl
    | uint16 | uint32 | uint64 => exact if_neg (by decide)
  other start opCode none := if_neg (none .uint8)

/-- Different types have different opcodes. -/
theorem opCode_inj {type type' : ObjectType}
    (same : (toOpCode type).opCode.toUInt32 = (toOpCode type').opCode.toUInt32) :
    type = type' := by
  rcases type with (_ | _ | _ | _) | _ | _ | _ | _ | _ | _ <;>
    rcases type' with (_ | _ | _ | _) | _ | _ | _ | _ | _ | _ <;>
    first | rfl | exact absurd same (by decide)

/-- A swap that reads one more type itself, and leaves the others to the next smaller one. -/
theorem SwapSpec.widen {β : Type} {swap : Bytes → UInt32 → Option (Option α)}
    {swap' : Bytes → UInt32 → Option (Option β)} {width : ℕ} {of : ℕ → α} {of' : ℕ → β}
    (spec : SwapSpec needAlign swap width of) (own : IntType) (cast : α → β)
    (next : ∀ type, type ≠ own → (type.size ≤ own.size ↔ type.size ≤ width))
    (same : ∀ n < 256 ^ width, cast (of n) = of' n)
    (here : ∀ n rest, swap' (field needAlign (leBytes own.size n) ++ rest)
      (toOpCode (.int own)).opCode.toUInt32 = some (some (of' (n % 256 ^ own.size))))
    (there : ∀ start opCode, opCode ≠ (toOpCode (.int own)).opCode.toUInt32 →
      swap' start opCode = (swap start opCode).map (Option.map cast)) :
    SwapSpec needAlign swap' own.size of' where
  number type n rest := by
    by_cases eq : type = own
    · subst eq
      rw [here, if_pos le_rfl]
    · rw [there _ _ fun same => eq (ObjectType.int.inj (opCode_inj same)), spec.number,
        Option.map_some]
      by_cases fits : type.size ≤ width
      · have small : n % 256 ^ type.size < 256 ^ width :=
          (Nat.mod_lt _ (by positivity)).trans_le (Nat.pow_le_pow_right (by decide) fits)
        rw [if_pos fits, if_pos ((next type eq).mpr fits), Option.map_some, same _ small]
      · rw [if_neg fits, if_neg (fun le => fits ((next type eq).mp le)), Option.map_none]
  other start opCode unlike := by
    rw [there start opCode (unlike own), spec.other start opCode unlike]
    rfl

theorem swapSpec_uint16 : SwapSpec needAlign (hcsSwapToUint16 needAlign) 2 UInt16.ofNat := by
  refine swapSpec_uint8.widen .uint16 UInt8.toUInt16 ?_ ?_ ?_ fun _ _ unlike => if_neg unlike
  · intro type other
    cases type <;> first | decide | exact absurd rfl other
  · intro n small
    apply UInt16.toNat_inj.mp
    rw [UInt8.toNat_toUInt16, UInt8.toNat_ofNat', UInt16.toNat_ofNat']
    omega
  · intro n rest
    change hcsSwapToUint16 needAlign (field needAlign (leBytes 2 n) ++ rest) configWord =
      some (some (.ofNat (n % 256 ^ 2)))
    rw [hcsSwapToUint16, if_pos rfl]
    cases needAlign with
    | true => rw [if_pos rfl, word_padded (by decide) (by decide)]; simp
    | false => rw [if_neg (by decide), hcsByteCodeToUint16, wordAt_number (by decide)]; rfl

theorem swapSpec_uint32 : SwapSpec needAlign (hcsSwapToUint32 needAlign) 4 UInt32.ofNat := by
  refine swapSpec_uint16.widen .uint32 UInt16.toUInt32 ?_ ?_ ?_ fun _ _ unlike => if_neg unlike
  · intro type other
    cases type <;> first | decide | exact absurd rfl other
  · intro n small
    apply UInt32.toNat_inj.mp
    rw [UInt16.toNat_toUInt32, UInt16.toNat_ofNat', UInt32.toNat_ofNat']
    omega
  · intro n rest
    change hcsSwapToUint32 needAlign (field needAlign (leBytes 4 n) ++ rest) configDword =
      some (some (.ofNat (n % 256 ^ 4)))
    rw [hcsSwapToUint32, if_pos rfl, hcsByteCodeToUint32, wordAt_number (by decide)]
    rfl

theorem swapSpec_uint64 : SwapSpec needAlign (hcsSwapToUint64 needAlign) 8 UInt64.ofNat := by
  refine swapSpec_uint32.widen .uint64 UInt32.toUInt64 ?_ ?_ ?_ fun _ _ unlike => if_neg unlike
  · intro type other
    cases type <;> first | decide | exact absurd rfl other
  · intro n small
    apply UInt64.toNat_inj.mp
    rw [UInt32.toNat_toUInt64, UInt32.toNat_ofNat', UInt64.toNat_ofNat']
    omega
  · intro n rest
    change hcsSwapToUint64 needAlign (field needAlign (leBytes 8 n) ++ rest) configQword =
      some (some (.ofNat (n % 256 ^ 8)))
    rw [hcsSwapToUint64, if_pos rfl, hcsByteCodeToUint64, wordAt_number (by decide)]
    rfl

section

variable {swap : Bytes → UInt32 → Option (Option α)} {width : ℕ} {of : ℕ → α}

theorem swapOr_of_opField (spec : SwapSpec needAlign swap width of) {type : ObjectType}
    (other : ∀ own, type ≠ .int own) (wrongPrefix : HdfStatus) (default : α) (rest : Bytes) :
    swapOr needAlign swap wrongPrefix default (opField needAlign type ++ rest) =
      some (wrongPrefix, default) := by
  rw [swapOr, hcsGetPrefix_opField, Option.bind_some, drop_opField,
    spec.other _ _ fun own same => other own (opCode_inj same)]
  rfl

theorem swapOr_datum (spec : SwapSpec needAlign swap width of) (wrongPrefix : HdfStatus)
    (default : α) (d : Datum) (rest : Bytes) :
    swapOr needAlign swap wrongPrefix default (encodeDatum needAlign d ++ rest) =
      some (answer wrongPrefix default of (d.asNumber width)) := by
  cases d with
  | string stringValue =>
    rw [encodeDatum, List.append_assoc, swapOr_of_opField spec (fun own => by simp)]
    rfl
  | number type integerValue =>
    rw [encodeDatum, List.append_assoc, swapOr, hcsGetPrefix_opField, Option.bind_some,
      drop_opField, spec.number, Datum.asNumber]
    split <;> rfl

theorem swapOr_value (spec : SwapSpec needAlign swap width of) (wrongPrefix : HdfStatus)
    (default : α) (term : ConfigTerm) (rest : Bytes) :
    swapOr needAlign swap wrongPrefix default
        (encodeValue needAlign hash (some term) term.value ++ rest) =
      some (answer wrongPrefix default of (term.value.asNumber width)) := by
  cases term.value with
  | datum d => exact swapOr_datum spec wrongPrefix default d rest
  | nodeRef path =>
    rw [encodeValue, List.append_assoc]
    exact swapOr_of_opField spec (fun own => by simp) wrongPrefix default _
  | delete =>
    rw [encodeValue]
    exact swapOr_of_opField spec (fun own => by simp) wrongPrefix default _
  | array arrayType arraySize elements =>
    rw [encodeValue, List.append_assoc]
    exact swapOr_of_opField spec (fun own => by simp) wrongPrefix default _

theorem getNumber_eq (spec : SwapSpec needAlign swap width of) {node : DeviceResourceNode}
    {found : Option DeviceResourceAttr} {term : Option ConfigTerm}
    (searched : getAttrInNode node attrName = some found)
    (rel : Option.Rel (AttrOf needAlign hash) found term) (default : α) :
    getNumber needAlign swap node attrName default = some (answer .failure default of
      (term.bind fun term => term.value.asNumber width)) := by
  rw [getNumber, searched, Option.bind_some]
  cases rel with
  | none => rfl
  | @some attr term attrOf =>
    obtain ⟨rest, value⟩ := attrOf.value
    rw [Option.elim_some, ← value]
    exact swapOr_value spec .failure default term rest

end

theorem asNumber_lt {value : Value} {width n : ℕ} (number : value.asNumber width = some n) :
    n < 256 ^ width := by
  cases value with
  | datum d =>
    cases d with
    | string stringValue => cases number
    | number type integerValue =>
      rw [Value.asNumber, Datum.asNumber, Option.ite_none_right_eq_some] at number
      obtain ⟨fits, eq⟩ := number
      obtain rfl := Option.some.inj eq
      exact (Nat.mod_lt _ (by positivity)).trans_le (Nat.pow_le_pow_right (by decide) fits)
  | _ => cases number

/-- A flag is set when its term is a byte that is not zero. -/
theorem hcsGetBool_eq {node : DeviceResourceNode} {found : Option DeviceResourceAttr}
    {term : Option ConfigTerm} (searched : getAttrInNode node attrName = some found)
    (rel : Option.Rel (AttrOf needAlign hash) found term) :
    hcsGetBool needAlign node attrName =
      some ((term.bind fun term => term.value.asNumber 1).elim false fun n => decide (n ≠ 0)) := by
  have number := getNumber_eq swapSpec_uint8 searched rel 0
  rw [getNumber, searched, Option.bind_some] at number
  rw [hcsGetBool, searched, Option.bind_some]
  cases rel with
  | none => rfl
  | @some attr term attrOf =>
    rw [Option.elim_some, swapOr, Option.bind_eq_some_iff] at number
    obtain ⟨type, opCode, number⟩ := number
    obtain ⟨value, read, number⟩ := Option.map_eq_some_iff.mp number
    rw [Option.elim_some, opCode, Option.bind_some, read, Option.map_some]
    rw [Option.bind_some] at number ⊢
    cases eq : term.value.asNumber 1 with
    | none =>
      rw [eq] at number
      cases value with
      | none => rfl
      | some value => cases number
    | some n =>
      rw [eq] at number
      cases value with
      | none => cases number
      | some value =>
        obtain rfl : value = .ofNat n := (Prod.mk.inj number).2
        have small : n < 256 := asNumber_lt eq
        have zero : UInt8.ofNat n = 0 ↔ n = 0 := by
          rw [← UInt8.toNat_inj, UInt8.toNat_ofNat', Nat.mod_eq_of_lt small]
          rfl
        exact congrArg some (decide_eq_decide.mpr (not_congr zero))

/-! ### Strings and lengths -/

/-- What a getter of a string leaves. -/
def StringAnswer (default : Option Bytes) : Option Bytes → HdfStatus × Option Bytes → Prop
  | none, got => got = (.failure, default)
  | some text, got => ∃ start, got = (.success, some start) ∧ Begins start text

/-- The string at a pointer. -/
def stringOr (needAlign : Bool) (default : Option Bytes) (start : Bytes) :
    Option (HdfStatus × Option Bytes) :=
  (hcsGetPrefix needAlign start).map fun opCode =>
    if opCode ≠ configString then (.failure, default)
    else (.success, some (start.drop (hcsPrefixLength needAlign)))

theorem stringOr_of_opField {type : ObjectType} (other : type ≠ .string)
    (default : Option Bytes) (rest : Bytes) :
    stringOr needAlign default (opField needAlign type ++ rest) = some (.failure, default) := by
  have unlike : (toOpCode type).opCode.toUInt32 ≠ configString := fun same =>
    other (opCode_inj same)
  rw [stringOr, hcsGetPrefix_opField, Option.map_some, if_pos unlike]

theorem stringOr_datum {d : Datum} (loadable : d.Loadable) (default : Option Bytes)
    (rest : Bytes) : ∃ got,
      stringOr needAlign default (encodeDatum needAlign d ++ rest) = some got ∧
        StringAnswer default d.asString got := by
  cases d with
  | number type integerValue =>
    refine ⟨_, ?_, rfl⟩
    rw [encodeDatum, List.append_assoc]
    exact stringOr_of_opField (by simp) default _
  | string stringValue =>
    have own : ¬ (toOpCode .string).opCode.toUInt32 ≠ configString := not_not.mpr rfl
    rw [encodeDatum, List.append_assoc, stringOr, hcsGetPrefix_opField, Option.map_some,
      if_neg own, drop_opField]
    exact ⟨_, rfl, _, rfl, begins_stringField loadable rest⟩

theorem hcsGetString_eq {node : DeviceResourceNode} {found : Option DeviceResourceAttr}
    {term : Option ConfigTerm} (searched : getAttrInNode node attrName = some found)
    (rel : Option.Rel (AttrOf needAlign hash) found term)
    (loadable : ∀ t ∈ term, t.value.Loadable) (default : Option Bytes) :
    ∃ got, hcsGetString needAlign node attrName default = some got ∧
      StringAnswer default (term.bind fun term => term.value.asString) got := by
  rw [hcsGetString, searched, Option.bind_some]
  cases rel with
  | none => exact ⟨_, rfl, rfl⟩
  | @some attr term attrOf =>
    have loadable := loadable term rfl
    obtain ⟨rest, value⟩ := attrOf.value
    rw [Option.elim_some, Option.bind_some, ← value]
    change ∃ got, stringOr needAlign default _ = some got ∧ _
    cases eq : term.value with
    | datum d =>
      rw [eq] at loadable
      exact stringOr_datum loadable default rest
    | nodeRef path =>
      rw [encodeValue, List.append_assoc]
      exact ⟨_, stringOr_of_opField (by simp) default _, rfl⟩
    | delete =>
      rw [encodeValue]
      exact ⟨_, stringOr_of_opField (by simp) default _, rfl⟩
    | array arrayType arraySize elements =>
      rw [encodeValue, List.append_assoc]
      exact ⟨_, stringOr_of_opField (by simp) default _, rfl⟩

/-- A value begins with the prefix of its type. -/
theorem hcsGetPrefix_value (term : ConfigTerm) (rest : Bytes) :
    hcsGetPrefix needAlign (encodeValue needAlign hash (some term) term.value ++ rest) =
      some (toOpCode term.value.type).opCode.toUInt32 := by
  cases term.value with
  | datum d =>
    cases d with
    | number type integerValue =>
      rw [encodeValue, encodeDatum, List.append_assoc, hcsGetPrefix_opField]
      rfl
    | string stringValue =>
      rw [encodeValue, encodeDatum, List.append_assoc, hcsGetPrefix_opField]
      rfl
  | nodeRef path => rw [encodeValue, List.append_assoc, hcsGetPrefix_opField]; rfl
  | delete => rw [encodeValue, hcsGetPrefix_opField]; rfl
  | array arrayType arraySize elements =>
    rw [encodeValue, List.append_assoc, hcsGetPrefix_opField]
    rfl

theorem opCode_ne_array {value : Value} (none : value.elements = none) :
    (toOpCode value.type).opCode.toUInt32 ≠ configArray := by
  intro same
  have type : value.type = .array := opCode_inj same
  cases value with
  | array arrayType arraySize elements => cases none
  | datum d => cases d <;> cases type
  | _ => cases type

/-- An array begins with its prefix, the number of its elements and the elements. -/
theorem encodeValue_array {term : ConfigTerm} {elements : List Datum}
    (array : term.value.elements = some elements) (loadable : term.value.Loadable)
    (counted : Label.Counted (.inr (.term term))) : ∃ count : UInt16,
      count.toNat = elements.length ∧
      encodeValue needAlign hash (some term) term.value =
        opField needAlign .array ++ (field needAlign (leBytes 2 count.toNat) ++
          elements.flatMap (encodeDatum needAlign)) ∧
      ∀ e ∈ elements, e.Loadable := by
  obtain ⟨name, refNode, value⟩ := term
  cases value with
  | array arrayType arraySize elements' =>
    obtain rfl : elements' = elements := Option.some.inj array
    obtain ⟨size, each⟩ := loadable
    have few : elements'.length < 2 ^ 16 := counted
    refine ⟨arraySize.toUInt16, ?_, rfl, each⟩
    rw [UInt32.toNat_toUInt16, size, Nat.mod_eq_of_lt few]
  | _ => cases array

theorem hcsGetElemNum_eq {node : DeviceResourceNode} {found : Option DeviceResourceAttr}
    {term : Option ConfigTerm} (searched : getAttrInNode node attrName = some found)
    (rel : Option.Rel (AttrOf needAlign hash) found term)
    (loadable : ∀ t ∈ term, t.value.Loadable)
    (counted : ∀ t ∈ term, Label.Counted (.inr (.term t))) :
    hcsGetElemNum needAlign node attrName =
      some ((term.bind fun term => term.value.elements).elim hdfFailure fun elements =>
        (elements.length : ℤ)) := by
  rw [hcsGetElemNum, searched, Option.bind_some]
  cases rel with
  | none => rfl
  | @some attr term attrOf =>
    obtain ⟨rest, value⟩ := attrOf.value
    rw [Option.elim_some, Option.bind_some, ← value]
    cases eq : term.value.elements with
    | none =>
      rw [hcsGetPrefix_value, Option.bind_some, if_pos (opCode_ne_array eq)]
      rfl
    | some elements =>
      obtain ⟨count, length, encoded, -⟩ :=
        encodeValue_array eq (loadable term rfl) (counted term rfl)
      have own : ¬ (toOpCode .array).opCode.toUInt32 ≠ configArray := not_not.mpr rfl
      rw [encoded, List.append_assoc, hcsGetPrefix_opField, Option.bind_some, if_neg own,
        drop_opField, List.append_assoc, hcsSwapToUint16_word,
        Option.bind_some, Option.map_some, length]
      rfl

/-! ### Elements of arrays -/

theorem elemLoop_elements {elements : List Datum} {offset k : ℕ}
    (here : start.drop offset = elements.flatMap (encodeDatum needAlign) ++ rest)
    (loadable : ∀ e ∈ elements, e.Loadable) (few : k ≤ elements.length) :
    ∃ offset', elemLoop needAlign start k offset = some (some offset') ∧
      start.drop offset' = (elements.drop k).flatMap (encodeDatum needAlign) ++ rest := by
  induction k generalizing elements offset with
  | zero => exact ⟨offset, rfl, here⟩
  | succ k ih =>
    cases elements with
    | nil => exact absurd few (Nat.not_succ_le_zero k)
    | cons e elements =>
      rw [List.forall_mem_cons] at loadable
      rw [List.flatMap_cons, List.append_assoc] at here
      rw [elemLoop, here, hcsGetDataTypeOffset_datum loadable.1, Option.bind_some,
        if_neg (not_lt.mpr (Int.natCast_nonneg _)), Int.toNat_natCast, List.drop_succ_cons]
      exact ih (by rw [← List.drop_drop, here, List.drop_left]) loadable.2
        (Nat.le_of_succ_le_succ few)

/-- The elements of the array that a term holds. -/
def elementsOf (term : Option ConfigTerm) : List Datum :=
  (term.bind fun term => term.value.elements).getD []

theorem getArrayElem_eq {attr : DeviceResourceAttr} {term : ConfigTerm}
    (attrOf : AttrOf needAlign hash attr term) (loadable : term.value.Loadable)
    (counted : Label.Counted (.inr (.term term))) (index : UInt32) :
    ∃ found, getArrayElem needAlign attr index = some found ∧
      Option.Rel (fun start e => encodeDatum needAlign e <+: start ∧ e.Loadable) found
        (elementsOf term)[index.toNat]? := by
  obtain ⟨rest, value⟩ := attrOf.value
  rw [getArrayElem, elementsOf, Option.bind_some, ← value]
  cases eq : term.value.elements with
  | none =>
    rw [hcsGetPrefix_value, Option.bind_some, if_pos (opCode_ne_array eq)]
    exact ⟨none, rfl, .none⟩
  | some elements =>
    obtain ⟨count, length, encoded, each⟩ := encodeValue_array eq loadable counted
    have own : ¬ (toOpCode .array).opCode.toUInt32 ≠ configArray := not_not.mpr rfl
    have begin_ : (encodeValue needAlign hash (some term) term.value ++ rest).drop
        (hcsWordLength needAlign + hcsPrefixLength needAlign) =
          elements.flatMap (encodeDatum needAlign) ++ rest := by
      have word : (field needAlign (leBytes 2 count.toNat)).length = hcsWordLength needAlign :=
        length_number .uint16 _
      rw [encoded, Nat.add_comm, ← List.drop_drop, List.append_assoc, drop_opField,
        List.append_assoc, List.drop_left' word]
    rw [Option.getD_some]
    rw [encoded, List.append_assoc] at begin_ ⊢
    rw [hcsGetPrefix_opField, Option.bind_some, if_neg own, drop_opField, List.append_assoc,
      hcsSwapToUint16_word, Option.bind_some, Option.elim_some]
    rw [List.append_assoc] at begin_
    by_cases beyond : index ≥ count.toUInt32
    · rw [if_pos beyond]
      rw [ge_iff_le, UInt32.le_iff_toNat_le, UInt16.toNat_toUInt32, length] at beyond
      rw [List.getElem?_eq_none beyond]
      exact ⟨none, rfl, .none⟩
    · rw [if_neg beyond]
      rw [ge_iff_le, UInt32.le_iff_toNat_le, UInt16.toNat_toUInt32, length, not_le] at beyond
      obtain ⟨offset, passed, there⟩ := elemLoop_elements begin_ each beyond.le
      rw [passed, List.getElem?_eq_getElem beyond]
      refine ⟨_, rfl, .some ⟨?_, each _ (List.getElem_mem beyond)⟩⟩
      dsimp only
      rw [there, List.drop_eq_getElem_cons beyond, List.flatMap_cons, List.append_assoc]
      exact List.prefix_append _ _

theorem getArrayNumber_eq {swap : Bytes → UInt32 → Option (Option α)} {width : ℕ} {of : ℕ → α}
    (spec : SwapSpec needAlign swap width of) {node : DeviceResourceNode}
    {found : Option DeviceResourceAttr} {term : Option ConfigTerm}
    (searched : getAttrInNode node attrName = some found)
    (rel : Option.Rel (AttrOf needAlign hash) found term)
    (loadable : ∀ t ∈ term, t.value.Loadable)
    (counted : ∀ t ∈ term, Label.Counted (.inr (.term t))) (wrongPrefix : HdfStatus)
    (index : UInt32) (default : α) :
    getArrayNumber needAlign swap wrongPrefix node attrName index default =
      some ((elementsOf term)[index.toNat]?.elim (.failure, default) fun e =>
        answer wrongPrefix default of (e.asNumber width)) := by
  rw [getArrayNumber, searched, Option.bind_some]
  cases rel with
  | none => rfl
  | @some attr term attrOf =>
    obtain ⟨elem, read, rel⟩ :=
      getArrayElem_eq attrOf (loadable term rfl) (counted term rfl) index
    rw [Option.elim_some, read, Option.bind_some]
    generalize (elementsOf (some term))[index.toNat]? = e at rel
    cases rel with
    | none => rfl
    | @some start e there =>
      obtain ⟨⟨rest, rfl⟩, -⟩ := there
      exact swapOr_datum spec wrongPrefix default e rest

theorem hcsGetStringArrayElem_eq {node : DeviceResourceNode} {found : Option DeviceResourceAttr}
    {term : Option ConfigTerm} (searched : getAttrInNode node attrName = some found)
    (rel : Option.Rel (AttrOf needAlign hash) found term)
    (loadable : ∀ t ∈ term, t.value.Loadable)
    (counted : ∀ t ∈ term, Label.Counted (.inr (.term t))) (index : UInt32)
    (default : Option Bytes) :
    ∃ got, hcsGetStringArrayElem needAlign node attrName index default = some got ∧
      StringAnswer default ((elementsOf term)[index.toNat]?.bind fun e => e.asString) got := by
  rw [hcsGetStringArrayElem, searched, Option.bind_some]
  cases rel with
  | none => exact ⟨_, rfl, rfl⟩
  | @some attr term attrOf =>
    obtain ⟨elem, read, rel⟩ :=
      getArrayElem_eq attrOf (loadable term rfl) (counted term rfl) index
    rw [Option.elim_some, read, Option.bind_some]
    generalize (elementsOf (some term))[index.toNat]? = e at rel
    cases rel with
    | none => exact ⟨_, rfl, rfl⟩
    | @some start e there =>
      obtain ⟨⟨rest, rfl⟩, own⟩ := there
      exact stringOr_datum own default rest

/-! ### Whole arrays -/

/-- What the getters of arrays leave, given the elements as numbers. Elements of a wrong type are
noted, and the getter fails behind the last element. -/
def arrayAnswer (default : α) (of : ℕ → α) (ret : HdfStatus) (numbers : List (Option ℕ))
    (len : ℕ) : HdfStatus × List α :=
  if numbers.length < len then
    (.failure, numbers.map (fun n => n.elim default of) ++ [default])
  else
    (if (numbers.take len).any Option.isNone then .invalidObject else ret,
      (numbers.take len).map fun n => n.elim default of)

/-- What `HcsGetUint64Array` leaves. It stops at elements of a wrong type. -/
def uint64Answer (default : UInt64) (numbers : List (Option ℕ)) (len : ℕ) :
    HdfStatus × List UInt64 :=
  let read := (numbers.take len).takeWhile Option.isSome
  if read.length < len then (.failure, read.map (fun n => n.elim default .ofNat) ++ [default])
  else (.success, read.map fun n => n.elim default .ofNat)

theorem arrayAnswer_cons (default : α) (of : ℕ → α) (ret : HdfStatus) (n : Option ℕ)
    (numbers : List (Option ℕ)) (len : ℕ) :
    arrayAnswer default of ret (n :: numbers) (len + 1) =
      Prod.map id (n.elim default of :: ·)
        (arrayAnswer default of (if n = none then .invalidObject else ret) numbers len) := by
  rw [arrayAnswer, arrayAnswer, List.length_cons, List.take_succ_cons]
  by_cases short : numbers.length < len
  · rw [if_pos short, if_pos (Nat.succ_lt_succ short)]
    rfl
  · rw [if_neg short, if_neg (fun less => short (Nat.lt_of_succ_lt_succ less))]
    cases n <;> simp

theorem arrayLoop_eq {elem : UInt32 → Option (HdfStatus × α)} {default : α} {of : ℕ → α}
    {numbers : List (Option ℕ)}
    (each : ∀ k < 2 ^ 32, elem (.ofNat k) =
      some (numbers[k]?.elim (.failure, default) (answer .invalidObject default of)))
    (left k : ℕ) (few : k + left < 2 ^ 32) (ret : HdfStatus) :
    arrayLoop elem left (.ofNat k) ret =
      some (arrayAnswer default of ret (numbers.drop k) left) := by
  induction left generalizing k ret with
  | zero => simp [arrayLoop, arrayAnswer]
  | succ left ih =>
    have next : UInt32.ofNat k + 1 = .ofNat (k + 1) := (UInt32.ofNat_add k 1).symm
    rw [arrayLoop, each k (by omega), Option.bind_some, next, ih (k + 1) (by omega),
      ih (k + 1) (by omega)]
    by_cases within : k < numbers.length
    · rw [List.getElem?_eq_getElem within, List.drop_eq_getElem_cons within, arrayAnswer_cons]
      cases numbers[k] with
      | none | some n => rfl
    · rw [List.getElem?_eq_none (not_lt.mp within), List.drop_eq_nil_of_le (not_lt.mp within)]
      rfl

theorem uint64Answer_cons (default : UInt64) (n : ℕ) (numbers : List (Option ℕ)) (len : ℕ) :
    uint64Answer default (some n :: numbers) (len + 1) =
      Prod.map id (.ofNat n :: ·) (uint64Answer default numbers len) := by
  rw [uint64Answer, uint64Answer, List.take_succ_cons, List.takeWhile_cons_of_pos rfl,
    List.length_cons]
  by_cases short : ((numbers.take len).takeWhile Option.isSome).length < len
  · rw [if_pos short, if_pos (Nat.succ_lt_succ short)]
    rfl
  · rw [if_neg short, if_neg (fun less => short (Nat.lt_of_succ_lt_succ less))]
    rfl

theorem uint64Loop_eq {elem : UInt32 → Option (HdfStatus × UInt64)} {default : UInt64}
    {numbers : List (Option ℕ)}
    (each : ∀ k < 2 ^ 32, elem (.ofNat k) =
      some (numbers[k]?.elim (.failure, default) (answer .failure default .ofNat)))
    (left k : ℕ) (few : k + left < 2 ^ 32) :
    uint64Loop elem left (.ofNat k) = some (uint64Answer default (numbers.drop k) left) := by
  induction left generalizing k with
  | zero => simp [uint64Loop, uint64Answer]
  | succ left ih =>
    have next : UInt32.ofNat k + 1 = .ofNat (k + 1) := (UInt32.ofNat_add k 1).symm
    rw [uint64Loop, each k (by omega), Option.bind_some, next, ih (k + 1) (by omega)]
    by_cases within : k < numbers.length
    · rw [List.getElem?_eq_getElem within, List.drop_eq_getElem_cons within]
      cases numbers[k] with
      | none => rfl
      | some n =>
        rw [uint64Answer_cons]
        rfl
    · rw [List.getElem?_eq_none (not_lt.mp within), List.drop_eq_nil_of_le (not_lt.mp within)]
      rfl

end

/-! ### All getters -/

/-- The getters on a node and a name agree with a term of the source. -/
structure ReadsAs (needAlign : Bool) (node : DeviceResourceNode) (attrName : Bytes)
    (term : Option ConfigTerm) : Prop where
  uint8 : ∀ default, hcsGetUint8 needAlign node attrName default =
    some (answer .failure default .ofNat (term.bind fun term => term.value.asNumber 1))
  uint16 : ∀ default, hcsGetUint16 needAlign node attrName default =
    some (answer .failure default .ofNat (term.bind fun term => term.value.asNumber 2))
  uint32 : ∀ default, hcsGetUint32 needAlign node attrName default =
    some (answer .failure default .ofNat (term.bind fun term => term.value.asNumber 4))
  uint64 : ∀ default, hcsGetUint64 needAlign node attrName default =
    some (answer .failure default .ofNat (term.bind fun term => term.value.asNumber 8))
  bool : hcsGetBool needAlign node attrName =
    some ((term.bind fun term => term.value.asNumber 1).elim false fun n => decide (n ≠ 0))
  string : ∀ default, ∃ got, hcsGetString needAlign node attrName default = some got ∧
    StringAnswer default (term.bind fun term => term.value.asString) got
  elemNum : hcsGetElemNum needAlign node attrName =
    some ((term.bind fun term => term.value.elements).elim hdfFailure fun elements =>
      (elements.length : ℤ))

/-- The getters of elements and of arrays on a node and a name agree with elements of the source. -/
structure ReadsArrayAs (needAlign : Bool) (node : DeviceResourceNode) (attrName : Bytes)
    (elements : List Datum) : Prop where
  uint8ArrayElem : ∀ index default, hcsGetUint8ArrayElem needAlign node attrName index default =
    some (elements[index.toNat]?.elim (.failure, default) fun e =>
      answer .invalidObject default .ofNat (e.asNumber 1))
  uint16ArrayElem : ∀ index default, hcsGetUint16ArrayElem needAlign node attrName index default =
    some (elements[index.toNat]?.elim (.failure, default) fun e =>
      answer .invalidObject default .ofNat (e.asNumber 2))
  uint32ArrayElem : ∀ index default, hcsGetUint32ArrayElem needAlign node attrName index default =
    some (elements[index.toNat]?.elim (.failure, default) fun e =>
      answer .invalidObject default .ofNat (e.asNumber 4))
  uint64ArrayElem : ∀ index default, hcsGetUint64ArrayElem needAlign node attrName index default =
    some (elements[index.toNat]?.elim (.failure, default) fun e =>
      answer .failure default .ofNat (e.asNumber 8))
  stringArrayElem : ∀ index default, ∃ got,
    hcsGetStringArrayElem needAlign node attrName index default = some got ∧
      StringAnswer default (elements[index.toNat]?.bind fun e => e.asString) got
  uint8Array : ∀ len default, len ≠ 0 → hcsGetUint8Array needAlign node attrName len default =
    some (arrayAnswer default .ofNat .success (elements.map (·.asNumber 1)) len.toNat)
  uint16Array : ∀ len default, len ≠ 0 → hcsGetUint16Array needAlign node attrName len default =
    some (arrayAnswer default .ofNat .success (elements.map (·.asNumber 2)) len.toNat)
  uint32Array : ∀ len default, len ≠ 0 → hcsGetUint32Array needAlign node attrName len default =
    some (arrayAnswer default .ofNat .success (elements.map (·.asNumber 4)) len.toNat)
  uint64Array : ∀ len default, len ≠ 0 → hcsGetUint64Array needAlign node attrName len default =
    some (uint64Answer default (elements.map (·.asNumber 8)) len.toNat)

section

variable {needAlign : Bool} {hash : ℕ → UInt32} {attrName : Bytes} {node : DeviceResourceNode}
  {found : Option DeviceResourceAttr} {term : Option ConfigTerm}

theorem readsAs_of_attrOf (searched : getAttrInNode node attrName = some found)
    (rel : Option.Rel (AttrOf needAlign hash) found term)
    (loadable : ∀ t ∈ term, t.value.Loadable)
    (counted : ∀ t ∈ term, Label.Counted (.inr (.term t))) :
    ReadsAs needAlign node attrName term where
  uint8 := getNumber_eq swapSpec_uint8 searched rel
  uint16 := getNumber_eq swapSpec_uint16 searched rel
  uint32 := getNumber_eq swapSpec_uint32 searched rel
  uint64 := getNumber_eq swapSpec_uint64 searched rel
  bool := hcsGetBool_eq searched rel
  string := hcsGetString_eq searched rel loadable
  elemNum := hcsGetElemNum_eq searched rel loadable counted

theorem getArray_eq {α : Type} {elem : UInt32 → Option (HdfStatus × α)} {default : α} {of : ℕ → α}
    {elements : List Datum} {width : ℕ}
    (each : ∀ index : UInt32, elem index = some (elements[index.toNat]?.elim (.failure, default)
      fun e => answer .invalidObject default of (e.asNumber width))) {len : UInt32}
    (some : len ≠ 0) :
    getArray elem len = Option.some
      (arrayAnswer default of .success (elements.map (·.asNumber width)) len.toNat) := by
  rw [getArray, if_neg some]
  refine arrayLoop_eq (fun k small => ?_) len.toNat 0 (by rw [Nat.zero_add]; exact len.toNat_lt)
    .success
  rw [each, UInt32.toNat_ofNat', Nat.mod_eq_of_lt small, List.getElem?_map, Option.elim_map]
  rfl

theorem readsArrayAs_of_attrOf (searched : getAttrInNode node attrName = some found)
    (rel : Option.Rel (AttrOf needAlign hash) found term)
    (loadable : ∀ t ∈ term, t.value.Loadable)
    (counted : ∀ t ∈ term, Label.Counted (.inr (.term t))) :
    ReadsArrayAs needAlign node attrName (elementsOf term) where
  uint8ArrayElem := getArrayNumber_eq swapSpec_uint8 searched rel loadable counted .invalidObject
  uint16ArrayElem := getArrayNumber_eq swapSpec_uint16 searched rel loadable counted .invalidObject
  uint32ArrayElem := getArrayNumber_eq swapSpec_uint32 searched rel loadable counted .invalidObject
  uint64ArrayElem := getArrayNumber_eq swapSpec_uint64 searched rel loadable counted .failure
  stringArrayElem := hcsGetStringArrayElem_eq searched rel loadable counted
  uint8Array _ default some := getArray_eq (fun index => getArrayNumber_eq swapSpec_uint8 searched
    rel loadable counted .invalidObject index default) some
  uint16Array _ default some := getArray_eq (fun index => getArrayNumber_eq swapSpec_uint16 searched
    rel loadable counted .invalidObject index default) some
  uint32Array _ default some := getArray_eq (fun index => getArrayNumber_eq swapSpec_uint32 searched
    rel loadable counted .invalidObject index default) some
  uint64Array len default some := by
    rw [hcsGetUint64Array, if_neg some]
    refine uint64Loop_eq (fun k small => ?_) len.toNat 0
      (by rw [Nat.zero_add]; exact len.toNat_lt)
    rw [hcsGetUint64ArrayElem, getArrayNumber_eq swapSpec_uint64 searched rel loadable counted,
      UInt32.toNat_ofNat', Nat.mod_eq_of_lt small, List.getElem?_map, Option.elim_map]
    rfl

end

/-! ### The nodes of the source -/

/-- The nodes among the children of a node. -/
def nodesOf : List AstObject → List AstObject
  | [] => []
  | .leaf _ :: rest => nodesOf rest
  | .node node children :: rest => .node node children :: nodesOf rest

/-- The node of the source at a position of the tree without terms. -/
def objectAt (tree : AstObject) : NodePtr → Option AstObject
  | [] => some tree
  | i :: p => (objectAt tree p).bind fun object => (nodesOf object.children)[i]?

def hasName (nodeName : Bytes) : AstObject → Bool
  | .leaf _ => false
  | .node node _ => decide (node.name = nodeName)

section

variable {needAlign : Bool} {hash : ℕ → UInt32} {tree object : AstObject} {config : ConfigTree}
  {children : List AstObject} {p : NodePtr}

theorem mem_nodesOf_iff : object ∈ nodesOf children ↔
    object ∈ children ∧ ∃ node below, object = .node node below := by
  induction children with
  | nil => simp [nodesOf]
  | cons child children ih =>
    cases child with
    | leaf leaf =>
      rw [nodesOf, ih, List.mem_cons]
      constructor
      · exact fun ⟨member, is⟩ => ⟨.inr member, is⟩
      · rintro ⟨rfl | member, is⟩
        · obtain ⟨node, below, eq⟩ := is
          cases eq
        · exact ⟨member, is⟩
    | node node below =>
      rw [nodesOf, List.mem_cons, ih, List.mem_cons]
      constructor
      · rintro (rfl | ⟨member, is⟩)
        · exact ⟨.inl rfl, node, below, rfl⟩
        · exact ⟨.inr member, is⟩
      · rintro ⟨rfl | member, is⟩
        · exact .inl rfl
        · exact .inr ⟨member, is⟩

theorem depictsList_iff {trees : List ConfigTree} : DepictsList needAlign hash children trees ↔
    List.Forall₂ (Depicts needAlign hash) (nodesOf children) trees := by
  induction children generalizing trees with
  | nil =>
    rw [nodesOf, List.forall₂_nil_left_iff]
    rfl
  | cons child children ih =>
    cases child with
    | leaf leaf => exact ih
    | node node below =>
      rw [nodesOf, List.forall₂_cons_left_iff]
      constructor
      · rintro ⟨tree, later, rfl, depicts, rest⟩
        exact ⟨tree, later, depicts, ih.mp rest, rfl⟩
      · rintro ⟨tree, later, depicts, rest, rfl⟩
        exact ⟨tree, later, rfl, depicts, ih.mpr rest⟩

/-- A loaded node and the node of the source have the same positions below them. -/
theorem depicts_at (depicts : Depicts needAlign hash tree config) (p : NodePtr) :
    Option.Rel (Depicts needAlign hash) (objectAt tree p) (config.get? p) := by
  induction p with
  | nil => exact .some depicts
  | cons i p ih =>
    rw [objectAt, Tree.get?_cons]
    generalize objectAt tree p = object, config.get? p = there at ih
    cases ih with
    | none => exact .none
    | @some object there depicts =>
      cases object with
      | leaf leaf => exact depicts.elim
      | node node children =>
        cases there with
        | leaf e => exact e.elim
        | node n trees =>
          obtain ⟨-, -, -, below⟩ := depicts
          have all := depictsList_iff.mp below
          rw [Option.bind_some, Option.bind_some, Tree.children_node, Tree.children_node]
          by_cases within : i < trees.length
          · have within' : i < (nodesOf children).length := by rwa [all.length_eq]
            rw [List.getElem?_eq_getElem within, List.getElem?_eq_getElem within']
            exact .some (all.get within' within)
          · have beyond : ¬ i < (nodesOf children).length := by rwa [all.length_eq]
            rw [List.getElem?_eq_none (not_lt.mp within), List.getElem?_eq_none (not_lt.mp beyond)]
            exact .none

theorem mem_labels_of_objectAt (here : objectAt tree p = some object) :
    ∀ l ∈ object.labels, l ∈ tree.labels := by
  induction p generalizing object with
  | nil =>
    obtain rfl := Option.some.inj here
    exact fun l member => member
  | cons i p ih =>
    obtain ⟨parent, there, child⟩ := Option.bind_eq_some_iff.mp here
    cases parent with
    | leaf leaf => simp [nodesOf] at child
    | node node children =>
      intro l member
      have among : object ∈ children :=
        (mem_nodesOf_iff.mp (List.mem_of_getElem? child)).1
      apply ih there
      rw [Tree.labels_node]
      exact List.mem_cons_of_mem _ (List.mem_flatMap.mpr ⟨object, among, member⟩)

theorem mem_labels_of_termsOf {node : ConfigNode} {term : ConfigTerm}
    (member : term ∈ termsOf children) :
    (.inr (.term term) : Label) ∈ (Tree.node node children : AstObject).labels := by
  obtain ⟨child, among, eq⟩ := List.mem_filterMap.mp member
  split at eq
  case h_1 term' =>
    obtain rfl := Option.some.inj eq
    rw [Tree.labels_node]
    exact List.mem_cons_of_mem _ (List.mem_flatMap.mpr ⟨_, among, by simp⟩)
  case h_2 => cases eq

theorem mem_termsOf_of_lastTerm {attrName : Bytes} {term : ConfigTerm}
    (last : lastTerm attrName children = some term) : term ∈ termsOf children :=
  List.mem_reverse.mp (List.mem_of_find?_eq_some last)

end

section

variable {fs : FileSystem} {main : HcGen.Bytes} {tree : AstObject} {needAlign stale : Bool}
  {file : Bytes} {length : UInt32} {hash : ℕ → UInt32} {config : ConfigTree} {p : NodePtr}
  {node : ConfigNode} {children : List AstObject} {attrName : Bytes}

/-- The attribute that is found on a loaded node is that of the last term of the name. -/
theorem getAttrInNode_of_depicts (depicts : Depicts needAlign hash tree config)
    (loadable : ∀ l ∈ tree.labels, Label.Loadable l)
    (here : objectAt tree p = some (.node node children)) (plain : 0 ∉ attrName) :
    ∃ n found, nodeAt config p = some n ∧ getAttrInNode n attrName = some found ∧
      Option.Rel (AttrOf needAlign hash) found (lastTerm attrName children) := by
  have rel := depicts_at depicts p
  rw [here] at rel
  generalize eq : config.get? p = there at rel
  cases rel with
  | @some _ there depicts =>
    cases there with
    | leaf e => exact e.elim
    | node n trees =>
      obtain ⟨-, -, attrs, -⟩ := depicts
      have noZero : ∀ term ∈ (termsOf children).reverse, 0 ∉ term.name := by
        intro term member
        exact (loadable _ (mem_labels_of_objectAt here _
          (mem_labels_of_termsOf (List.mem_reverse.mp member)))).1.1
      obtain ⟨found, searched, rel⟩ := attrNamed_of_terms attrs noZero plain
      exact ⟨n, found, by rw [nodeAt, Tree.label?, eq]; rfl, searched, rel⟩

theorem Deployed.lastTerm_loadable (deployed : Deployed fs main tree needAlign stale file length)
    (here : objectAt tree p = some (.node node children)) :
    ∀ t ∈ lastTerm attrName children, t.value.Loadable := fun _ last =>
  (deployed.loadable _ (mem_labels_of_objectAt here _
    (mem_labels_of_termsOf (mem_termsOf_of_lastTerm last)))).2

theorem Deployed.lastTerm_counted (deployed : Deployed fs main tree needAlign stale file length)
    (here : objectAt tree p = some (.node node children)) :
    ∀ t ∈ lastTerm attrName children, Label.Counted (.inr (.term t)) := fun _ last =>
  deployed.counted _ (mem_labels_of_objectAt here _
    (mem_labels_of_termsOf (mem_termsOf_of_lastTerm last)))

/-- What is compiled, loaded and read is what the source says: on every node the getters give the
last term of a name, as far as it has the type that is asked for. -/
theorem compiled_reads_back (deployed : Deployed fs main tree needAlign stale file length) :
    ∃ config, LoadsAs stale file length needAlign config ∧
      ∀ p node children attrName, objectAt tree p = some (.node node children) → 0 ∉ attrName →
        ∃ n, nodeAt config p = some n ∧
          ReadsAs needAlign n attrName (lastTerm attrName children) := by
  obtain ⟨config, loads, depicts⟩ := deployed.loads
  refine ⟨config, loads, fun p node children attrName here plain => ?_⟩
  obtain ⟨n, found, there, searched, rel⟩ :=
    getAttrInNode_of_depicts depicts deployed.loadable here plain
  exact ⟨n, there, readsAs_of_attrOf searched rel (deployed.lastTerm_loadable here)
    (deployed.lastTerm_counted here)⟩

/-- So are the elements of arrays, one by one and all together. -/
theorem compiled_arrays_read_back (deployed : Deployed fs main tree needAlign stale file length) :
    ∃ config, LoadsAs stale file length needAlign config ∧
      ∀ p node children attrName, objectAt tree p = some (.node node children) → 0 ∉ attrName →
        ∃ n, nodeAt config p = some n ∧
          ReadsArrayAs needAlign n attrName (elementsOf (lastTerm attrName children)) := by
  obtain ⟨config, loads, depicts⟩ := deployed.loads
  refine ⟨config, loads, fun p node children attrName here plain => ?_⟩
  obtain ⟨n, found, there, searched, rel⟩ :=
    getAttrInNode_of_depicts depicts deployed.loadable here plain
  exact ⟨n, there, readsArrayAs_of_attrOf searched rel (deployed.lastTerm_loadable here)
    (deployed.lastTerm_counted here)⟩

end

/-! ### Examples -/

/-- The first node of the tree has a reference. -/
def refersFirst (tree : AstObject) : Bool :=
  match objectAt tree [0] with
  | some (.node _ children) =>
    (lastTerm (ascii "to") children).any fun term => decide (term.value.type = .nodeRef)
  | _ => false

theorem refersFirst_sound {tree : AstObject} (refers : refersFirst tree = true) :
    ∃ node children term, objectAt tree [0] = some (.node node children) ∧
      lastTerm (ascii "to") children = some term ∧ term.value.type = .nodeRef := by
  unfold refersFirst at refers
  split at refers
  case h_1 node children here =>
    cases last : lastTerm (ascii "to") children with
    | none =>
      rw [last] at refers
      cases refers
    | some term =>
      rw [last] at refers
      exact ⟨node, children, term, here, last, of_decide_eq_true refers⟩
  case h_2 => cases refers

theorem exists_linked : ∃ tree file length,
    Deployed linkedSource (ascii "/main") tree true true file length ∧ refersFirst tree = true := by
  have evaluated : expansionPasses linkedSource (ascii "/main") (fun _ => true)
      (fun root => withinLimits true root && refersFirst root) 150 = true := by
    rw [linkedSource]
    iterate 2 rw [ascii_ofList]
    decide +kernel
  exact exists_deployed evaluated

theorem linked_reads_back : ∃ tree file length config, LoadsAs true file length true config ∧
    ∃ node children n, objectAt tree [0] = some (.node node children) ∧
      nodeAt config [0] = some n ∧ ReadsAs true n (ascii "v") (lastTerm (ascii "v") children) := by
  obtain ⟨tree, file, length, deployed, refers⟩ := exists_linked
  obtain ⟨node, children, -, here, -, -⟩ := refersFirst_sound refers
  obtain ⟨config, loads, reads⟩ := compiled_reads_back deployed
  obtain ⟨n, there, all⟩ := reads [0] node children (ascii "v") here (by decide)
  exact ⟨tree, file, length, config, loads, node, children, n, here, there, all⟩

theorem linked_arrays_read_back : ∃ tree file length config,
    LoadsAs true file length true config ∧
    ∃ node children n, objectAt tree [0] = some (.node node children) ∧
      nodeAt config [0] = some n ∧
      ReadsArrayAs true n (ascii "v") (elementsOf (lastTerm (ascii "v") children)) := by
  obtain ⟨tree, file, length, deployed, refers⟩ := exists_linked
  obtain ⟨node, children, -, here, -, -⟩ := refersFirst_sound refers
  obtain ⟨config, loads, reads⟩ := compiled_arrays_read_back deployed
  obtain ⟨n, there, all⟩ := reads [0] node children (ascii "v") here (by decide)
  exact ⟨tree, file, length, config, loads, node, children, n, here, there, all⟩

end Hdf.HcsParser
