import Hdf.HcsParser.Blob

/-!
# Records that are whole

A record counts as whole when the fields are there from which the loader knows
its length, which are not all of its bytes, or when the loader finds an opcode in
it that it does not know and gives up.

## Main results

* `hcsGetNodeOrAttrLength_eq_some_iff`: the loader finds these lengths
-/

namespace Hdf.HcsParser

section

variable (byteAlign : Bool)

/-- A string with its zero byte is there. -/
def Terminated (start : Bytes) (length : ℕ) : Prop :=
  ∃ text rest, start = text ++ 0 :: rest ∧ 0 ∉ text ∧
    length = if byteAlign then roundUp4 (text.length + 1) else text.length + 1

/-- The fields of a value are there that tell its length. Without a length, its opcode is none of
a value. -/
inductive Data (start : Bytes) : Option ℕ → Prop
  | byte (opCode : hcsGetPrefix byteAlign start = some configByte) :
    Data start (some (hcsByteLength byteAlign + hcsPrefixLength byteAlign))
  | word (opCode : hcsGetPrefix byteAlign start = some configWord) :
    Data start (some (hcsWordLength byteAlign + hcsPrefixLength byteAlign))
  | dword {op : UInt32} (opCode : hcsGetPrefix byteAlign start = some op)
      (dword : op = configDword ∨ op = configReference) :
    Data start (some (hcsDwordLength + hcsPrefixLength byteAlign))
  | qword (opCode : hcsGetPrefix byteAlign start = some configQword) :
    Data start (some (hcsQwordLength + hcsPrefixLength byteAlign))
  | string {n : ℕ} (opCode : hcsGetPrefix byteAlign start = some configString)
      (text : Terminated byteAlign (start.drop (hcsPrefixLength byteAlign)) n) :
    Data start (some (n + hcsPrefixLength byteAlign))
  | unknown {op : UInt32} (opCode : hcsGetPrefix byteAlign start = some op)
      (unknown : op ∉ [configByte, configWord, configDword, configReference, configQword,
        configString]) :
    Data start none

/-- Elements of an array, one after the other. -/
inductive Elements : Bytes → ℕ → Option ℕ → Prop
  | none (start : Bytes) : Elements start 0 (some 0)
  | next {start : Bytes} {left n : ℕ} {behind : Option ℕ} (here : Data byteAlign start (some n))
      (there : Elements (start.drop n) left behind) :
    Elements start (left + 1) (behind.map (n + ·))
  | unknown {start : Bytes} (left : ℕ) (here : Data byteAlign start Option.none) :
    Elements start (left + 1) Option.none

/-- The value of an attribute. -/
inductive Payload (start : Bytes) : Option ℕ → Prop
  | data {op : UInt32} {r : Option ℕ} (opCode : hcsGetPrefix byteAlign start = some op)
      (known : op ≠ configArray) (data : Data byteAlign start r) :
    Payload start r
  | array {count : UInt16} {r : Option ℕ} (opCode : hcsGetPrefix byteAlign start = some configArray)
      (counted : hcsSwapToUint16 byteAlign (start.drop (hcsPrefixLength byteAlign)) configWord =
        some (some count))
      (elements : Elements byteAlign
        (start.drop (hcsPrefixLength byteAlign + hcsWordLength byteAlign)) count.toNat r) :
    Payload start (r.map (hcsPrefixLength byteAlign + hcsWordLength byteAlign + ·))

/-- The fields of a record are there that tell its length. A node counts without the records in
it. -/
inductive Record (start : Bytes) : Option ℕ → Prop
  | node {n : ℕ} (opCode : hcsGetPrefix byteAlign start = some configNode)
      (name : Terminated byteAlign (start.drop (hcsPrefixLength byteAlign)) n) :
    Record start (some (n + hcsPrefixLength byteAlign + hcsDwordLength))
  | attr {n : ℕ} {r : Option ℕ} (opCode : hcsGetPrefix byteAlign start = some configAttr)
      (name : Terminated byteAlign (start.drop (hcsPrefixLength byteAlign)) n)
      (value : Payload byteAlign (start.drop (hcsPrefixLength byteAlign + n)) r) :
    Record start (r.map (hcsPrefixLength byteAlign + n + ·))
  | unknown {op : UInt32} (opCode : hcsGetPrefix byteAlign start = some op)
      (node : op ≠ configNode) (attr : op ≠ configAttr) :
    Record start none

/-- The length that the loader takes for something whole. -/
def foundLength : Option ℕ → ℤ
  | some n => n
  | none => hdfFailure

end

section

variable {byteAlign : Bool} {start : Bytes}

/-! ### The loader finds the lengths -/

theorem strlen_eq_some_iff {n : ℕ} :
    strlen start = some n ↔ ∃ text rest, start = text ++ 0 :: rest ∧ 0 ∉ text ∧
      n = text.length := by
  induction start generalizing n with
  | nil => simp [strlen]
  | cons c start ih =>
    rw [strlen]
    by_cases zero : c = 0
    · rw [if_pos zero, Option.some.injEq]
      constructor
      · rintro rfl
        exact ⟨[], start, by rw [zero]; rfl, List.not_mem_nil, rfl⟩
      · rintro ⟨text, rest, eq, noZero, rfl⟩
        cases text with
        | nil => rfl
        | cons d text =>
          obtain ⟨rfl, -⟩ := List.cons.inj eq
          exact absurd (zero ▸ List.mem_cons_self) noZero
    · rw [if_neg zero, Option.map_eq_some_iff]
      constructor
      · rintro ⟨m, there, rfl⟩
        obtain ⟨text, rest, rfl, noZero, rfl⟩ := ih.mp there
        exact ⟨c :: text, rest, rfl, by simp [noZero, Ne.symm zero], rfl⟩
      · rintro ⟨text, rest, eq, noZero, rfl⟩
        cases text with
        | nil => exact absurd (List.cons.inj eq).1 zero
        | cons d text =>
          obtain ⟨rfl, same⟩ := List.cons.inj eq
          exact ⟨text.length, ih.mpr ⟨text, rest, same, fun member =>
            noZero (List.mem_cons_of_mem c member), rfl⟩, rfl⟩

theorem hcsStringLength_eq_some_iff {n : ℕ} :
    hcsStringLength byteAlign start = some n ↔ Terminated byteAlign start n := by
  rw [hcsStringLength, Option.map_eq_some_iff, Terminated]
  simp only [strlen_eq_some_iff]
  constructor
  · rintro ⟨m, ⟨text, rest, eq, noZero, rfl⟩, rfl⟩
    exact ⟨text, rest, eq, noZero, rfl⟩
  · rintro ⟨text, rest, eq, noZero, rfl⟩
    exact ⟨text.length, ⟨text, rest, eq, noZero, rfl⟩, rfl⟩

theorem foundLength_injective : Function.Injective foundLength := by
  rintro (none | n) (none | m) eq
  · rfl
  · simp only [foundLength, hdfFailure] at eq
    omega
  · simp only [foundLength, hdfFailure] at eq
    omega
  · exact congrArg some (Int.ofNat.inj eq)

theorem foundLength_map (r : Option ℕ) (n : ℕ) :
    foundLength (r.map (n + ·)) = if foundLength r < 0 then hdfFailure else foundLength r + n := by
  cases r with
  | none => rfl
  | some m =>
    rw [Option.map_some, foundLength, foundLength, if_neg (not_lt.mpr (Int.natCast_nonneg m)),
      Nat.cast_add, add_comm]

/-- `Data` is what `HcsGetDataTypeOffset` goes by. -/
theorem hcsGetDataTypeOffset_eq_some_iff {z : ℤ} :
    hcsGetDataTypeOffset byteAlign start = some z ↔ ∃ r, Data byteAlign start r ∧
      foundLength r = z := by
  constructor
  · intro found
    obtain ⟨op, opCode, found⟩ := Option.bind_eq_some_iff.mp found
    by_cases byte : op = configByte
    · rw [if_pos byte, Option.some.injEq] at found
      exact ⟨_, .byte (byte ▸ opCode), found⟩
    rw [if_neg byte] at found
    by_cases word : op = configWord
    · rw [if_pos word, Option.some.injEq] at found
      exact ⟨_, .word (word ▸ opCode), found⟩
    rw [if_neg word] at found
    by_cases dword : op = configDword ∨ op = configReference
    · rw [if_pos dword, Option.some.injEq] at found
      exact ⟨_, .dword opCode dword, found⟩
    rw [if_neg dword] at found
    by_cases qword : op = configQword
    · rw [if_pos qword, Option.some.injEq] at found
      exact ⟨_, .qword (qword ▸ opCode), found⟩
    rw [if_neg qword] at found
    by_cases string : op = configString
    · rw [if_pos string, Option.map_eq_some_iff] at found
      obtain ⟨n, text, found⟩ := found
      rw [hcsStringLength_eq_some_iff] at text
      exact ⟨_, .string (string ▸ opCode) text, found⟩
    · rw [if_neg string, Option.some.injEq] at found
      exact ⟨none, .unknown opCode (by simp_all), found⟩
  · rintro ⟨r, data, rfl⟩
    cases data with
    | byte opCode | word opCode => rw [hcsGetDataTypeOffset, opCode]; rfl
    | dword opCode dword =>
      rw [hcsGetDataTypeOffset, opCode, Option.bind_some]
      obtain rfl | rfl := dword <;> rfl
    | qword opCode => rw [hcsGetDataTypeOffset, opCode]; rfl
    | string opCode text =>
      rw [← hcsStringLength_eq_some_iff] at text
      rw [hcsGetDataTypeOffset, opCode, Option.bind_some, text]
      rfl
    | unknown opCode unknown =>
      rw [hcsGetDataTypeOffset, opCode, Option.bind_some]
      simp only [List.mem_cons, List.not_mem_nil, or_false, not_or] at unknown
      obtain ⟨byte, word, dword, reference, qword, string⟩ := unknown
      rw [if_neg byte, if_neg word, if_neg (not_or.mpr ⟨dword, reference⟩), if_neg qword,
        if_neg string]
      rfl

/-- `Elements` is what the loop of `HcsGetArrayLength` goes by. -/
theorem arrayLengthLoop_eq_some_iff {left arrayLen : ℕ} {z : ℤ} :
    arrayLengthLoop byteAlign start left arrayLen = some z ↔
      ∃ r, Elements byteAlign (start.drop arrayLen) left r ∧
        foundLength (r.map (arrayLen + ·)) = z := by
  induction left generalizing arrayLen z with
  | zero =>
    rw [arrayLengthLoop, Option.some.injEq]
    constructor
    · rintro rfl
      exact ⟨_, .none _, rfl⟩
    · rintro ⟨r, elements, rfl⟩
      cases elements
      rfl
  | succ left ih =>
    rw [arrayLengthLoop, Option.bind_eq_some_iff]
    constructor
    · rintro ⟨len, first, found⟩
      rw [hcsGetDataTypeOffset_eq_some_iff] at first
      obtain ⟨r, data, rfl⟩ := first
      cases r with
      | none => exact ⟨none, .unknown left data, Option.some.inj found⟩
      | some n =>
        rw [foundLength, if_neg (not_lt.mpr (Int.natCast_nonneg n)), Int.toNat_natCast] at found
        obtain ⟨behind, elements, rfl⟩ := ih.mp found
        rw [← List.drop_drop] at elements
        exact ⟨_, .next data elements, by simp [Function.comp_def, Nat.add_assoc]⟩
    · rintro ⟨r, elements, rfl⟩
      cases elements with
      | @next _ _ n behind here there =>
        refine ⟨foundLength (some n), ?_, ?_⟩
        · rw [hcsGetDataTypeOffset_eq_some_iff]
          exact ⟨_, here, rfl⟩
        rw [foundLength, if_neg (not_lt.mpr (Int.natCast_nonneg n)), Int.toNat_natCast, ih]
        exact ⟨behind, by rwa [← List.drop_drop], by simp [Function.comp_def, Nat.add_assoc]⟩
      | unknown _ here =>
        refine ⟨foundLength none, ?_, rfl⟩
        rw [hcsGetDataTypeOffset_eq_some_iff]
        exact ⟨_, here, rfl⟩

theorem hcsGetArrayLength_eq_some_iff {z : ℤ} :
    hcsGetArrayLength byteAlign start = some z ↔ ∃ count : UInt16, ∃ r,
      hcsSwapToUint16 byteAlign (start.drop (hcsPrefixLength byteAlign)) configWord =
        some (some count) ∧
      Elements byteAlign (start.drop (hcsPrefixLength byteAlign + hcsWordLength byteAlign))
        count.toNat r ∧
      foundLength (r.map (hcsPrefixLength byteAlign + hcsWordLength byteAlign + ·)) = z := by
  have word {count : Option UInt16} (counted : hcsSwapToUint16 byteAlign
      (start.drop (hcsPrefixLength byteAlign)) configWord = some count) : count.isSome := by
    rw [hcsSwapToUint16, if_pos rfl, Option.map_eq_some_iff] at counted
    obtain ⟨n, -, rfl⟩ := counted
    rfl
  rw [hcsGetArrayLength, Option.bind_eq_some_iff]
  constructor
  · rintro ⟨count, counted, found⟩
    obtain ⟨count, rfl⟩ := Option.isSome_iff_exists.mp (word counted)
    simp only [arrayLengthLoop_eq_some_iff] at found
    obtain ⟨r, elements, rfl⟩ := found
    exact ⟨count, r, counted, elements, rfl⟩
  · rintro ⟨count, r, counted, elements, rfl⟩
    refine ⟨some count, counted, ?_⟩
    simp only [arrayLengthLoop_eq_some_iff]
    exact ⟨r, elements, rfl⟩

/-- `Payload` is what the choice in `HcsGetAttrLength` goes by. -/
theorem payload_iff {z : ℤ} :
    ((hcsGetPrefix byteAlign start).bind fun opCode =>
      if opCode = configByte ∨ opCode = configWord ∨ opCode = configDword ∨
          opCode = configQword ∨ opCode = configString ∨ opCode = configReference then
        hcsGetDataTypeOffset byteAlign start
      else if opCode = configArray then hcsGetArrayLength byteAlign start
      else some hdfFailure) = some z ↔ ∃ r, Payload byteAlign start r ∧ foundLength r = z := by
  rw [Option.bind_eq_some_iff]
  constructor
  · rintro ⟨op, opCode, found⟩
    by_cases data : op = configByte ∨ op = configWord ∨ op = configDword ∨ op = configQword ∨
        op = configString ∨ op = configReference
    · rw [if_pos data, hcsGetDataTypeOffset_eq_some_iff] at found
      obtain ⟨r, data', rfl⟩ := found
      refine ⟨r, .data opCode ?_ data', rfl⟩
      obtain rfl | rfl | rfl | rfl | rfl | rfl := data <;> decide
    rw [if_neg data] at found
    by_cases array : op = configArray
    · rw [if_pos array, hcsGetArrayLength_eq_some_iff] at found
      obtain ⟨count, r, counted, elements, rfl⟩ := found
      exact ⟨_, .array (array ▸ opCode) counted elements, rfl⟩
    · rw [if_neg array, Option.some.injEq] at found
      exact ⟨none, .data opCode array (.unknown opCode (by simp_all)), found⟩
  · rintro ⟨r, payload, rfl⟩
    cases payload with
    | @data op _ opCode known data =>
      refine ⟨op, opCode, ?_⟩
      by_cases value : op = configByte ∨ op = configWord ∨ op = configDword ∨ op = configQword ∨
          op = configString ∨ op = configReference
      · rw [if_pos value, hcsGetDataTypeOffset_eq_some_iff]
        exact ⟨r, data, rfl⟩
      · rw [if_neg value, if_neg known]
        -- only an opcode of a value has a length
        cases data with
        | byte opCode' | word opCode' | dword opCode' dword | qword opCode' | string opCode' text =>
          simp_all
        | unknown opCode' unknown => rfl
    | array opCode counted elements =>
      refine ⟨configArray, opCode, ?_⟩
      rw [if_neg (by decide), if_pos rfl, hcsGetArrayLength_eq_some_iff]
      exact ⟨_, _, counted, elements, rfl⟩

theorem hcsGetAttrLength_eq_some_iff {z : ℤ} :
    hcsGetAttrLength byteAlign start = some z ↔ ∃ n r,
      Terminated byteAlign (start.drop (hcsPrefixLength byteAlign)) n ∧
      Payload byteAlign (start.drop (hcsPrefixLength byteAlign + n)) r ∧
      foundLength (r.map (hcsPrefixLength byteAlign + n + ·)) = z := by
  rw [hcsGetAttrLength, Option.bind_eq_some_iff]
  refine exists_congr fun n => ?_
  rw [hcsStringLength_eq_some_iff, exists_and_left, and_congr_right_iff]
  intro name
  rw [Option.bind_eq_some_iff]
  constructor
  · rintro ⟨op, opCode, found⟩
    obtain ⟨len, chosen, rfl⟩ := Option.map_eq_some_iff.mp found
    obtain ⟨r, payload, rfl⟩ := Iff.mp payload_iff (Option.bind_eq_some_iff.mpr
      ⟨op, opCode, chosen⟩)
    exact ⟨r, payload, foundLength_map r _⟩
  · rintro ⟨r, payload, rfl⟩
    obtain ⟨op, opCode, found⟩ := Option.bind_eq_some_iff.mp (Iff.mpr payload_iff
      ⟨r, payload, rfl⟩)
    exact ⟨op, opCode, Option.map_eq_some_iff.mpr ⟨_, found, (foundLength_map r _).symm⟩⟩

/-- The loader finds the length of every record that is whole, and of no other. -/
theorem hcsGetNodeOrAttrLength_eq_some_iff {z : ℤ} :
    hcsGetNodeOrAttrLength byteAlign start = some z ↔
      ∃ r, Record byteAlign start r ∧ foundLength r = z := by
  rw [hcsGetNodeOrAttrLength, Option.bind_eq_some_iff]
  constructor
  · rintro ⟨op, opCode, found⟩
    by_cases node : op = configNode
    · rw [if_pos node, Option.map_eq_some_iff] at found
      obtain ⟨n, name, rfl⟩ := found
      rw [hcsStringLength_eq_some_iff] at name
      exact ⟨_, .node (node ▸ opCode) name, rfl⟩
    rw [if_neg node] at found
    by_cases attr : op = configAttr
    · rw [if_pos attr, hcsGetAttrLength_eq_some_iff] at found
      obtain ⟨n, r, name, value, rfl⟩ := found
      exact ⟨_, .attr (attr ▸ opCode) name value, rfl⟩
    · rw [if_neg attr, Option.some.injEq] at found
      exact ⟨none, .unknown opCode node attr, found⟩
  · rintro ⟨r, record, rfl⟩
    cases record with
    | node opCode name =>
      rw [← hcsStringLength_eq_some_iff] at name
      exact ⟨_, opCode, by rw [if_pos rfl, name]; rfl⟩
    | attr opCode name value =>
      refine ⟨_, opCode, ?_⟩
      rw [if_neg (by decide), if_pos rfl, hcsGetAttrLength_eq_some_iff]
      exact ⟨_, _, name, value, rfl⟩
    | unknown opCode node attr =>
      exact ⟨_, opCode, by rw [if_neg node, if_neg attr]; rfl⟩

theorem Record.unique {r r' : Option ℕ} (record : Record byteAlign start r)
    (record' : Record byteAlign start r') : r = r' := by
  have found := hcsGetNodeOrAttrLength_eq_some_iff.mpr ⟨r, record, rfl⟩
  rw [hcsGetNodeOrAttrLength_eq_some_iff.mpr ⟨r', record', rfl⟩, Option.some.injEq] at found
  exact foundLength_injective found.symm

theorem hcsPrefixLength_pos (byteAlign : Bool) : 0 < hcsPrefixLength byteAlign := by
  cases byteAlign <;> decide

/-- What has a length is a node or an attribute. -/
theorem Record.cases {n : ℕ} (record : Record byteAlign start (some n)) :
    (hcsGetPrefix byteAlign start = some configNode ∧ ∃ name,
      Terminated byteAlign (start.drop (hcsPrefixLength byteAlign)) name ∧
      n = name + hcsPrefixLength byteAlign + hcsDwordLength) ∨
    (hcsGetPrefix byteAlign start = some configAttr ∧ ∃ name more,
      Terminated byteAlign (start.drop (hcsPrefixLength byteAlign)) name ∧
      n = hcsPrefixLength byteAlign + name + more) := by
  generalize known : some n = r at record
  cases record with
  | node opCode name => exact .inl ⟨opCode, _, name, Option.some.inj known⟩
  | attr opCode name value =>
    obtain ⟨more, -, rfl⟩ := Option.map_eq_some_iff.mp known.symm
    exact .inr ⟨opCode, _, more, name, rfl⟩
  | unknown => cases known

theorem Record.pos {n : ℕ} (record : Record byteAlign start (some n)) : 0 < n := by
  have some := hcsPrefixLength_pos byteAlign
  obtain ⟨-, name, -, rfl⟩ | ⟨-, name, more, -, rfl⟩ := record.cases <;> omega

end

end Hdf.HcsParser
