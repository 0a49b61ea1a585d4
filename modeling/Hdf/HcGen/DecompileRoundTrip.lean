import Hdf.HcGen.DecompileFields

/-!
# What the decompiler rebuilds

The decompiler turns the records of an object back into the object, as long as
it can read every string, every count is the number of elements that follow,
every number fits its type, and the offsets of the children of each node, taken
as signed words, lie before the end of the node. If any of this fails, it
rebuilds something else or nothing.

## Main results

* `comes_object`: the records of an object come back exactly under these conditions
* `ordered_of_short`: offsets are in order in files that are not too long
-/

namespace Hdf.HcGen.Decompile

open ByteCodeGen
open Hdf.Tree hiding node leaf

/-! ### Images -/

/-- A number or string object as it should come back. -/
def datumImage : Datum → Rebuilt
  | .number type integerValue => .leaf (.number type integerValue)
  | .string stringValue => .leaf (.string stringValue)

/-- A value object as it should come back. No `delete` is ever written. -/
def valueImage (hash : ℕ → UInt32) (term : Option ConfigTerm) : Value → Rebuilt
  | .datum d => datumImage d
  | .nodeRef _ => .leaf (.nodeRef (refWord hash term))
  | .delete => .node .array []
  | .array _ _ elements => .node .array (elements.map datumImage)

section Image

variable (needAlign : Bool) (hash : ℕ → UInt32)

mutual

/-- An object as it should come back from records at an offset: the hash of a node is its
offset, and a reference holds the hash of the node it leads to. -/
def image (start : UInt32) : AstObject → Rebuilt
  | .leaf (.term term) =>
    .node (.confTerm term.name) [valueImage hash (some term) term.value]
  | .leaf (.value value) => valueImage hash none value
  | .node node children =>
    .node (.confNode node.name (getSubSize needAlign children) start)
      (imageList (start + ownSize needAlign .confNode node.name) children)

def imageList (start : UInt32) : List AstObject → List Rebuilt
  | [] => []
  | child :: rest => image start child :: imageList (start + getSize needAlign child) rest

end

/-! ### Conditions -/

mutual

/-- As signed words, the offsets of the children of a node are before the end of the node. -/
def Ordered (start : UInt32) : AstObject → Prop
  | .leaf _ => True
  | .node node children =>
    let first := start + ownSize needAlign .confNode node.name
    OrderedList (first + getSubSize needAlign children) first children

def OrderedList (nodeEnd start : UInt32) : List AstObject → Prop
  | [] => True
  | child :: rest =>
    start.toInt32 < nodeEnd.toInt32 ∧ Ordered start child ∧
      OrderedList nodeEnd (start + getSize needAlign child) rest

end

end Image

end Decompile

open Decompile

/-- A number fits its type, a string can be read. -/
def Datum.Decodable : Datum → Prop
  | number type integerValue => integerValue.toNat < 256 ^ type.size
  | string stringValue => Readable stringValue

/-- Besides, the count of an array is the number of its elements. -/
def Value.Decodable : Value → Prop
  | datum d => d.Decodable
  | nodeRef _ => True
  | delete => False
  | array _ arraySize elements =>
    arraySize.toUInt16.toNat = elements.length ∧ ∀ e ∈ elements, e.Decodable

/-- Besides, names can be read. -/
def Label.Decodable : Label → Prop
  | .inl node => Readable node.name
  | .inr (.term term) => Readable term.name ∧ term.value.Decodable
  | .inr (.value value) => value.Decodable

namespace Decompile

open ByteCodeGen

section

variable {needAlign : Bool} {hash : ℕ → UInt32} {offset calls : ℕ} {rest bytes : Bytes}
  {object : UInt8 → Input → Option (Rebuilt × Input)}

/-! ### Single records -/

theorem rebuildNext_op (type : ObjectType) :
    rebuildNext needAlign object (stream offset (opField needAlign type ++ rest)) =
      object (toOpCode type).opCode (stream (offset + (opField needAlign type).length) rest) := by
  rw [rebuildNext, getNextByteCode_opField, Option.bind_some]
  simp

/-- Bytes at an offset are rebuilt to an object when a condition holds, and otherwise not. -/
structure Comes (needAlign : Bool) (bytes : Bytes) (start : UInt32) (result : Rebuilt)
    (condition : Prop) : Prop where
  forth : ∀ offset rest calls, UInt32.ofNat offset = start → bytes.length ≤ calls → condition →
    rebuildNext needAlign (rebuildObject needAlign calls) (stream offset (bytes ++ rest)) =
      some (result, stream (offset + bytes.length) rest)
  back : ∀ offset rest calls i, UInt32.ofNat offset = start →
    rebuildNext needAlign (rebuildObject needAlign calls) (stream offset (bytes ++ rest)) =
      some (result, i) → condition ∧ i = stream (offset + bytes.length) rest

theorem opField_pos (needAlign : Bool) (type : ObjectType) :
    0 < (opField needAlign type).length := by
  rw [opField, field_eq (by simp)]
  simp

/-- The rule for records of one opcode: what is rebuilt after it is known. -/
theorem comes_of_op {type : ObjectType} {payload : Bytes} {start : UInt32} {result : Rebuilt}
    {condition : Prop}
    (forth : ∀ offset rest calls, UInt32.ofNat offset = start + align needAlign 1 →
      payload.length ≤ calls → condition →
      rebuildObject needAlign (calls + 1) (toOpCode type).opCode (stream offset (payload ++ rest)) =
        some (result, stream (offset + payload.length) rest))
    (back : ∀ offset rest calls i, UInt32.ofNat offset = start + align needAlign 1 →
      rebuildObject needAlign (calls + 1) (toOpCode type).opCode (stream offset (payload ++ rest)) =
        some (result, i) → condition ∧ i = stream (offset + payload.length) rest) :
    Comes needAlign (opField needAlign type ++ payload) start result condition := by
  have after {offset : ℕ} (here : UInt32.ofNat offset = start) :
      UInt32.ofNat (offset + (opField needAlign type).length) = start + align needAlign 1 := by
    rw [UInt32.ofNat_add, here, ofNat_length_opField]
  constructor
  · intro offset rest calls here enough holds
    have op := opField_pos needAlign type
    rw [List.length_append] at enough
    obtain ⟨calls, rfl⟩ := Nat.exists_eq_add_of_le' (show 1 ≤ calls by omega)
    rw [List.append_assoc, rebuildNext_op, forth _ _ _ (after here) (by omega) holds,
      List.length_append, Nat.add_assoc]
  · intro offset rest calls i here h
    rw [List.append_assoc, rebuildNext_op] at h
    cases calls with
    | zero => cases h
    | succ calls =>
      rw [List.length_append, ← Nat.add_assoc]
      exact back _ _ _ _ (after here) h

theorem comes_datum (d : Datum) (start : UInt32) :
    Comes needAlign (encodeDatum needAlign d) start (datumImage d) d.Decodable := by
  cases d with
  | number type integerValue =>
    have rebuilds (offset : ℕ) (rest : Bytes) (calls : ℕ) :
        rebuildObject needAlign (calls + 1) (toOpCode (.int type)).opCode
            (stream offset (field needAlign (leBytes type.size integerValue.toNat) ++ rest)) =
          some (.leaf (.number type (.ofNat (integerValue.toNat % 256 ^ type.size))), stream
            (offset + (field needAlign (leBytes type.size integerValue.toNat)).length) rest) := by
      rw [← rebuildNumberObject_word, rebuildObject, toOpCode, OpCodeType.ofCode_code]
      cases type <;> rfl
    refine comes_of_op (fun offset rest calls _ _ fits => ?_) fun offset rest calls i _ h => ?_
    · rw [rebuilds, Nat.mod_eq_of_lt fits, UInt64.ofNat_toNat]
      rfl
    · rw [rebuilds] at h
      obtain ⟨same, rfl⟩ := Prod.mk.inj (Option.some.inj h)
      refine ⟨?_, rfl⟩
      injection same with same
      injection same with _ value
      have back := congrArg UInt64.toNat value
      rw [UInt64.toNat_ofNat', Nat.mod_eq_of_lt] at back
      · rw [Datum.Decodable, ← back]
        exact Nat.mod_lt _ (by positivity)
      · exact (Nat.mod_le _ _).trans_lt integerValue.toNat_lt
  | string stringValue =>
    refine comes_of_op (fun offset rest calls _ _ readable => ?_)
      fun offset rest calls i _ h => ?_
    · rw [rebuildObject, toOpCode, OpCodeType.ofCode_code]
      show (readString _ _).map _ = _
      rw [readString_stringField readable]
      rfl
    · rw [rebuildObject, toOpCode, OpCodeType.ofCode_code] at h
      obtain ⟨⟨value, i'⟩, read, same⟩ := Option.map_eq_some_iff.mp h
      cases same
      have readable := readable_of_readString read
      rw [readString_stringField readable] at read
      cases read
      exact ⟨readable, rfl⟩

/-! ### Arrays -/

theorem rebuildElements_length {left : ℕ} {elements result : List Rebuilt} {i i' : Input}
    (h : rebuildElements needAlign object left elements i = some (result, i')) :
    ∃ more, result = elements ++ more ∧ more.length = left := by
  induction left generalizing elements i with
  | zero =>
    cases h
    exact ⟨[], (List.append_nil _).symm, rfl⟩
  | succ left ih =>
    obtain ⟨e, _, h⟩ := Option.bind_eq_some_iff.mp h
    obtain ⟨more, rfl, length⟩ := ih h
    exact ⟨e.1 :: more, by simp, by simp [length]⟩

theorem rebuildElements_forth (elements : List Datum) {before : List Rebuilt}
    (enough : (elements.flatMap (encodeDatum needAlign)).length ≤ calls)
    (decodable : ∀ e ∈ elements, e.Decodable) :
    rebuildElements needAlign (rebuildObject needAlign calls) elements.length before
        (stream offset (elements.flatMap (encodeDatum needAlign) ++ rest)) =
      some (before ++ elements.map datumImage,
        stream (offset + (elements.flatMap (encodeDatum needAlign)).length) rest) := by
  induction elements generalizing before offset with
  | nil => simp [rebuildElements]
  | cons e elements ih =>
    rw [List.flatMap_cons, List.length_append] at enough
    have comes : Comes needAlign _ _ _ _ := comes_datum e (.ofNat offset)
    have first := comes.forth offset (elements.flatMap (encodeDatum needAlign) ++ rest) calls rfl
      (by omega) (decodable e List.mem_cons_self)
    rw [List.flatMap_cons, List.length_cons, rebuildElements, List.append_assoc, first,
      Option.bind_some, ih (by omega) fun e member => decodable e (List.mem_cons_of_mem _ member)]
    simp [Nat.add_assoc]

theorem rebuildElements_back (elements : List Datum) {left : ℕ} {before : List Rebuilt} {i : Input}
    (h : rebuildElements needAlign (rebuildObject needAlign calls) left before
        (stream offset (elements.flatMap (encodeDatum needAlign) ++ rest)) =
      some (before ++ elements.map datumImage, i)) :
    left = elements.length ∧ (∀ e ∈ elements, e.Decodable) ∧
      i = stream (offset + (elements.flatMap (encodeDatum needAlign)).length) rest := by
  obtain ⟨more, whole, length⟩ := rebuildElements_length h
  obtain rfl : more = elements.map datumImage := (List.append_cancel_left whole).symm
  rw [List.length_map] at length
  subst length
  clear whole
  induction elements generalizing before offset with
  | nil =>
    obtain ⟨-, rfl⟩ := Prod.mk.inj (Option.some.inj h)
    exact ⟨rfl, by simp, by simp⟩
  | cons e elements ih =>
    rw [List.flatMap_cons, List.length_cons, rebuildElements, List.append_assoc] at h
    obtain ⟨⟨first, i₁⟩, read, h⟩ := Option.bind_eq_some_iff.mp h
    -- what has been rebuilt first is the image of the first element
    obtain ⟨more, whole', _⟩ := rebuildElements_length h
    rw [List.append_assoc, List.map_cons] at whole'
    obtain ⟨rfl, rfl⟩ := List.cons.inj (List.append_cancel_left whole')
    obtain ⟨decodable, rfl⟩ := (comes_datum e (.ofNat offset)).back offset _ calls i₁ rfl read
    rw [List.map_cons, List.append_cons before (datumImage e) (elements.map datumImage)] at h
    obtain ⟨-, rest_decodable, rfl⟩ := ih h
    refine ⟨rfl, ?_, ?_⟩
    · intro e' member
      rcases List.mem_cons.mp member with rfl | later
      · exact decodable
      · exact rest_decodable e' later
    · rw [List.flatMap_cons, List.length_append, Nat.add_assoc]

theorem comes_value (term : Option ConfigTerm) (value : Value) (start : UInt32) :
    Comes needAlign (encodeValue needAlign hash term value) start (valueImage hash term value)
      value.Decodable := by
  cases value with
  | datum d => exact comes_datum d start
  | nodeRef path =>
    refine comes_of_op (fun offset rest calls _ _ _ => ?_) fun offset rest calls i _ h => ?_
    · rw [rebuildObject, toOpCode, OpCodeType.ofCode_code]
      show (readUint32 _).map _ = _
      rw [readUint32_word, UInt32.ofNat_toNat]
      rfl
    · rw [rebuildObject, toOpCode, OpCodeType.ofCode_code] at h
      obtain ⟨r, read, same⟩ := Option.map_eq_some_iff.mp h
      rw [readUint32_word] at read
      obtain rfl := Option.some.inj read
      exact ⟨trivial, (Prod.mk.inj same).2.symm⟩
  | delete =>
    have nothing : Comes needAlign (opField needAlign .delete ++ []) start
        (valueImage hash term .delete) (Value.Decodable .delete) :=
      comes_of_op (fun _ _ _ _ _ absurd => absurd.elim) fun offset rest calls i _ h => by cases h
    rwa [List.append_nil] at nothing
  | array arrayType arraySize elements =>
    refine comes_of_op (fun offset rest calls _ enough decodable => ?_)
      fun offset rest calls i _ h => ?_
    · rw [List.length_append] at enough
      rw [rebuildObject, toOpCode, OpCodeType.ofCode_code]
      show (readUint16 _ _).bind _ = _
      rw [List.append_assoc, readUint16_word, Option.bind_some, UInt16.ofNat_toNat, decodable.1,
        rebuildElements_forth elements (by omega) decodable.2, List.length_append, Nat.add_assoc]
      rfl
    · rw [rebuildObject, toOpCode, OpCodeType.ofCode_code] at h
      obtain ⟨⟨count, i₁⟩, read, h⟩ := Option.bind_eq_some_iff.mp h
      rw [List.append_assoc, readUint16_word, UInt16.ofNat_toNat] at read
      cases read
      obtain ⟨⟨result, i₂⟩, rebuilt, same⟩ := Option.map_eq_some_iff.mp h
      obtain ⟨objects, inputs⟩ := Prod.mk.inj same
      obtain rfl : i₂ = i := inputs
      obtain rfl : result = elements.map datumImage := (Tree.node.inj objects).2
      rw [← List.nil_append (elements.map datumImage)] at rebuilt
      obtain ⟨count, decodable, rfl⟩ := rebuildElements_back elements rebuilt
      exact ⟨⟨count, decodable⟩, by rw [List.length_append, Nat.add_assoc]⟩

/-! ### Nodes -/

theorem rebuildChildren_prefix {nodeEnd : Int32} {rounds : ℕ} {children result : List Rebuilt}
    {i i' : Input}
    (h : rebuildChildren needAlign object nodeEnd rounds children i = some (result, i')) :
    ∃ more, result = children ++ more := by
  induction rounds generalizing children i with
  | zero => cases h
  | succ rounds ih =>
    rw [rebuildChildren] at h
    split at h
    case isTrue =>
      obtain ⟨child, _, h⟩ := Option.bind_eq_some_iff.mp h
      obtain ⟨more, rfl⟩ := ih h
      exact ⟨child.1 :: more, by simp⟩
    case isFalse =>
      cases h
      exact ⟨[], (List.append_nil _).symm⟩

/-- The condition under which an object comes back from records at an offset. -/
def Intact (needAlign : Bool) (start : UInt32) (object : AstObject) : Prop :=
  (∀ l ∈ object.labels, Label.Decodable l) ∧ Ordered needAlign start object

/-- The same for the children of a node. -/
def IntactList (needAlign : Bool) (nodeEnd start : UInt32) (children : List AstObject) : Prop :=
  (∀ l ∈ children.flatMap Tree.labels, Label.Decodable l) ∧
    OrderedList needAlign nodeEnd start children

theorem intactList_cons {nodeEnd start : UInt32} {child : AstObject} {children : List AstObject} :
    IntactList needAlign nodeEnd start (child :: children) ↔
      start.toInt32 < nodeEnd.toInt32 ∧ Intact needAlign start child ∧
        IntactList needAlign nodeEnd (start + getSize needAlign child) children := by
  simp only [IntactList, Intact, OrderedList, List.flatMap_cons, List.mem_append]
  constructor
  · rintro ⟨all, before, ordered, later⟩
    exact ⟨before, ⟨fun l member => all l (.inl member), ordered⟩,
      fun l member => all l (.inr member), later⟩
  · rintro ⟨before, ⟨first, ordered⟩, rest, later⟩
    exact ⟨fun l member => member.elim (first l) (rest l), before, ordered, later⟩

variable {children : List AstObject}

/-- Each child comes back from its records, wherever they are. -/
def EachComes (needAlign : Bool) (hash : ℕ → UInt32) (children : List AstObject) : Prop :=
  ∀ child ∈ children, ∀ start, Comes needAlign (encode needAlign hash child) start
    (image needAlign hash start child) (Intact needAlign start child)

theorem tellg_stream : (stream offset rest).tellg = .ofNat offset := rfl

theorem ofNat_after (child : AstObject) {start : UInt32} (here : UInt32.ofNat offset = start) :
    UInt32.ofNat (offset + (encode needAlign hash child).length) =
      start + getSize needAlign child := by
  rw [UInt32.ofNat_add, here, getSize_eq]

theorem rebuildChildren_forth (each : EachComes needAlign hash children) {nodeEnd start : UInt32}
    {rounds : ℕ} {before : List Rebuilt} (here : UInt32.ofNat offset = start)
    (ends : start + getSubSize needAlign children = nodeEnd) (more : children.length < rounds)
    (enough : (encodeList needAlign hash children).length ≤ calls)
    (intact : IntactList needAlign nodeEnd start children) :
    rebuildChildren needAlign (rebuildObject needAlign calls) nodeEnd.toInt32 rounds before
        (stream offset (encodeList needAlign hash children ++ rest)) =
      some (before ++ imageList needAlign hash start children,
        stream (offset + (encodeList needAlign hash children).length) rest) := by
  induction children generalizing offset start rounds before with
  | nil =>
    obtain ⟨rounds, rfl⟩ := Nat.exists_eq_add_of_le' (show 1 ≤ rounds by omega)
    rw [getSubSize, UInt32.add_zero] at ends
    rw [rebuildChildren, tellg_stream, here, ends, if_neg Int32.lt_irrefl]
    simp [imageList, encodeList]
  | cons child children ih =>
    obtain ⟨rounds, rfl⟩ := Nat.exists_eq_add_of_le' (show 1 ≤ rounds by omega)
    obtain ⟨first, inside, later⟩ := intactList_cons.mp intact
    rw [encodeList, List.length_append] at enough
    rw [List.length_cons] at more
    have comes := (each child List.mem_cons_self start).forth offset
      (encodeList needAlign hash children ++ rest) calls here (by omega) inside
    rw [rebuildChildren, tellg_stream, here, if_pos first, encodeList, List.append_assoc, comes,
      Option.bind_some, ih (fun c member => each c (List.mem_cons_of_mem _ member))
        (ofNat_after child here) ?_ (by omega) (by omega) later, imageList]
    · simp [Nat.add_assoc]
    · rw [← ends, getSubSize, UInt32.add_assoc]

theorem rebuildChildren_back (each : EachComes needAlign hash children) {nodeEnd start : UInt32}
    {rounds : ℕ} {before : List Rebuilt} {i : Input} (here : UInt32.ofNat offset = start)
    (ends : start + getSubSize needAlign children = nodeEnd)
    (h : rebuildChildren needAlign (rebuildObject needAlign calls) nodeEnd.toInt32 rounds before
        (stream offset (encodeList needAlign hash children ++ rest)) =
      some (before ++ imageList needAlign hash start children, i)) :
    IntactList needAlign nodeEnd start children ∧
      i = stream (offset + (encodeList needAlign hash children).length) rest := by
  induction children generalizing offset start rounds before with
  | nil =>
    rw [getSubSize, UInt32.add_zero] at ends
    cases rounds with
    | zero => cases h
    | succ rounds =>
      rw [rebuildChildren, tellg_stream, here, ends, if_neg Int32.lt_irrefl] at h
      obtain ⟨-, rfl⟩ := Prod.mk.inj (Option.some.inj h)
      exact ⟨⟨by simp, trivial⟩, by simp [encodeList]⟩
  | cons child children ih =>
    cases rounds with
    | zero => cases h
    | succ rounds =>
      rw [rebuildChildren, tellg_stream, here, encodeList, List.append_assoc, imageList] at h
      split at h
      case isFalse =>
        -- the loop would end too early
        obtain ⟨short, -⟩ := Prod.mk.inj (Option.some.inj h)
        simp at short
      case isTrue first =>
        obtain ⟨⟨rebuilt, i₁⟩, read, h⟩ := Option.bind_eq_some_iff.mp h
        obtain ⟨more, whole⟩ := rebuildChildren_prefix h
        rw [List.append_assoc] at whole
        obtain ⟨rfl, -⟩ := List.cons.inj (List.append_cancel_left whole)
        obtain ⟨inside, rfl⟩ :=
          (each child List.mem_cons_self start).back offset _ calls i₁ here read
        rw [List.append_cons before (image needAlign hash start child) (imageList ..)] at h
        obtain ⟨later, rfl⟩ := ih (fun c member => each c (List.mem_cons_of_mem _ member))
          (ofNat_after child here) (by rw [← ends, getSubSize, UInt32.add_assoc]) h
        exact ⟨intactList_cons.mpr ⟨first, inside, later⟩,
          by rw [encodeList, List.length_append, Nat.add_assoc]⟩

theorem one_le_length_encodeDatum (d : Datum) : 1 ≤ (encodeDatum needAlign d).length := by
  cases d with
  | number type integerValue =>
    have op := opField_pos needAlign (.int type)
    rw [encodeDatum, List.length_append]
    omega
  | string stringValue =>
    have op := opField_pos needAlign .string
    rw [encodeDatum, List.length_append]
    omega

/-- Every record has an opcode. -/
theorem one_le_length_encode (needAlign : Bool) (hash : ℕ → UInt32) (object : AstObject) :
    1 ≤ (encode needAlign hash object).length := by
  cases object with
  | leaf leaf =>
    cases leaf with
    | term term =>
      have op := opField_pos needAlign .confTerm
      rw [encode, termHeader, List.append_assoc, List.length_append]
      omega
    | value value =>
      cases value with
      | datum d => exact one_le_length_encodeDatum d
      | nodeRef path =>
        have op := opField_pos needAlign .nodeRef
        rw [encode, encodeValue, List.length_append]
        omega
      | delete => exact opField_pos _ _
      | array _ _ _ =>
        have op := opField_pos needAlign .array
        rw [encode, encodeValue, List.length_append]
        omega
  | node node children =>
    have op := opField_pos needAlign .confNode
    rw [encode, nodeHeader, List.append_assoc, List.length_append]
    omega

theorem length_le_encodeList (needAlign : Bool) (hash : ℕ → UInt32) (children : List AstObject) :
    children.length ≤ (encodeList needAlign hash children).length := by
  induction children with
  | nil => simp
  | cons child children ih =>
    have one := one_le_length_encode needAlign hash child
    rw [encodeList, List.length_append, List.length_cons]
    omega

theorem intact_term {term : ConfigTerm} {start : UInt32} :
    Intact needAlign start (.leaf (.term term)) ↔ Readable term.name ∧ term.value.Decodable := by
  simp [Intact, Ordered, Label.Decodable]

theorem intact_value {value : Value} {start : UInt32} :
    Intact needAlign start (.leaf (.value value)) ↔ value.Decodable := by
  simp [Intact, Ordered, Label.Decodable]

theorem intact_node {node : ConfigNode} {start : UInt32} :
    Intact needAlign start (.node node children) ↔ Readable node.name ∧
      IntactList needAlign (start + ownSize needAlign .confNode node.name +
        getSubSize needAlign children)
          (start + ownSize needAlign .confNode node.name) children := by
  simp only [Intact, IntactList, Ordered, Tree.labels_node, List.mem_cons]
  constructor
  · rintro ⟨all, ordered⟩
    exact ⟨all _ (.inl rfl), fun l member => all l (.inr member), ordered⟩
  · rintro ⟨readable, all, ordered⟩
    exact ⟨fun l member => member.elim (fun same => same ▸ readable) (all l), ordered⟩

/-- The records of an object come back exactly when it is intact. -/
theorem comes_object (needAlign : Bool) (hash : ℕ → UInt32) (object : AstObject) (start : UInt32) :
    Comes needAlign (encode needAlign hash object) start (image needAlign hash start object)
      (Intact needAlign start object) := by
  induction object using Tree.induct generalizing start with
  | leaf leaf =>
    cases leaf with
    | term term =>
      rw [encode, termHeader, image, List.append_assoc, intact_term]
      refine comes_of_op (fun offset rest calls _ enough intact => ?_)
        fun offset rest calls i _ h => ?_
      · obtain ⟨readable, decodable⟩ := intact
        rw [List.length_append] at enough
        rw [rebuildObject, toOpCode, OpCodeType.ofCode_code]
        show (readString _ _).bind _ = _
        rw [List.append_assoc, readString_stringField readable, Option.bind_some]
        rw [(comes_value (some term) term.value _).forth _ rest calls rfl (by omega) decodable,
          Option.map_some,
          List.length_append, Nat.add_assoc]
      · rw [rebuildObject, toOpCode, OpCodeType.ofCode_code] at h
        obtain ⟨⟨name, i₁⟩, read, h⟩ := Option.bind_eq_some_iff.mp h
        obtain ⟨⟨value, i₂⟩, rebuilt, same⟩ := Option.map_eq_some_iff.mp h
        obtain ⟨objects, inputs⟩ := Prod.mk.inj same
        obtain rfl : i₂ = i := inputs
        obtain ⟨label, values⟩ := Tree.node.inj objects
        obtain rfl : name = term.name := RebuiltNode.confTerm.inj label
        obtain rfl : value = valueImage hash (some term) term.value := List.singleton_inj.mp values
        have readable := readable_of_readString read
        rw [List.append_assoc, readString_stringField readable] at read
        cases read
        obtain ⟨decodable, rfl⟩ :=
          (comes_value (some term) term.value _).back _ rest calls _ rfl rebuilt
        exact ⟨⟨readable, decodable⟩, by rw [List.length_append, Nat.add_assoc]⟩
    | value value =>
      rw [encode, image, intact_value]
      exact comes_value none value start
  | node node children ih =>
    have each : EachComes needAlign hash children := ih
    rw [encode, nodeHeader, image, List.append_assoc, List.append_assoc, intact_node]
    have subSize : UInt32.ofNat (getSubSize needAlign children).toNat =
        getSubSize needAlign children := UInt32.ofNat_toNat
    -- the offsets of the opcode and of the first child
    have hash_eq {offset : ℕ} (here : UInt32.ofNat offset = start + align needAlign 1) :
        UInt32.ofNat offset - getAlignSize needAlign 1 = start := by
      rw [here, getAlignSize_eq, UInt32.add_sub_cancel]
    have first_eq {offset : ℕ} (here : UInt32.ofNat offset = start + align needAlign 1) :
        UInt32.ofNat (offset + (stringField needAlign node.name).length +
          (field needAlign (leBytes 4 (getSubSize needAlign children).toNat)).length) =
        start + ownSize needAlign .confNode node.name := by
      rw [UInt32.ofNat_add, UInt32.ofNat_add, here,
        nodeHeader_size node.name (getSubSize needAlign children), nodeHeader,
        ofNat_length_append, ofNat_length_append, ofNat_length_opField]
      simp only [UInt32.add_assoc]
    refine comes_of_op (fun offset rest calls here enough intact => ?_)
      fun offset rest calls i here h => ?_
    · obtain ⟨readable, intact⟩ := intact
      have fewer := length_le_encodeList needAlign hash children
      have word :
          4 ≤ (field needAlign (leBytes 4 (getSubSize needAlign children).toNat)).length := by
        rw [field_eq (by simp), List.length_append, length_leBytes]
        omega
      rw [List.length_append, List.length_append] at enough
      rw [rebuildObject, toOpCode, OpCodeType.ofCode_code]
      show rebuildNode needAlign (rebuildObject needAlign calls) calls _ = _
      rw [rebuildNode, List.append_assoc, List.append_assoc, readString_stringField readable,
        Option.bind_some, readUint32_word, Option.bind_some, subSize, tellg_stream, tellg_stream]
      dsimp only
      rw [first_eq here, hash_eq here,
        rebuildChildren_forth each (first_eq here) rfl (by omega) (by omega) intact]
      simp [Nat.add_assoc]
    · rw [rebuildObject, toOpCode, OpCodeType.ofCode_code] at h
      change rebuildNode needAlign (rebuildObject needAlign calls) calls _ = _ at h
      obtain ⟨⟨name, i₁⟩, read, h⟩ := Option.bind_eq_some_iff.mp h
      obtain ⟨⟨nodeSize, i₂⟩, size, h⟩ := Option.bind_eq_some_iff.mp h
      obtain ⟨⟨rebuilt, i₃⟩, below, same⟩ := Option.map_eq_some_iff.mp h
      obtain ⟨objects, inputs⟩ := Prod.mk.inj same
      obtain rfl : i₃ = i := inputs
      obtain ⟨label, values⟩ := Tree.node.inj objects
      obtain rfl : name = node.name := (RebuiltNode.confNode.inj label).1
      obtain rfl : rebuilt = imageList .. := values
      have readable := readable_of_readString read
      rw [List.append_assoc, List.append_assoc, readString_stringField readable] at read
      cases read
      rw [readUint32_word, subSize] at size
      cases size
      rw [tellg_stream, first_eq here, ← List.nil_append (imageList ..)] at below
      obtain ⟨intact, rfl⟩ := rebuildChildren_back each (first_eq here) rfl below
      exact ⟨⟨readable, intact⟩, by simp [Nat.add_assoc]⟩

end

end Decompile

end Hdf.HcGen
