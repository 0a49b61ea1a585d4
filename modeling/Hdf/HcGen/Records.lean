import Hdf.HcGen.ByteCode

/-!
# The records of a byte code file

`ByteCodeGen` writes with counters of 32 bits and with hashes that it updates on
the way. Here is what the file holds in the end: a header and one record for
every object, in document order, where each reference holds the hash of a node
and each hash is an offset in the file, modulo 2^32.

## Main results

* `getSize_eq`: sizes are numbers of bytes, modulo 2^32
* `writeWalk_spec`: what a walk of the generator does
* `output_spec`: what is in the file
-/

namespace Hdf.HcGen.ByteCodeGen

section Records

variable (needAlign : Bool)

/-- Data with its padding. The size of the data is passed in 32 bits. -/
def field (data : Bytes) : Bytes :=
  let size := UInt32.ofNat data.length
  data.take size.toNat ++ List.replicate (align needAlign size - size).toNat 0

/-- The field of an opcode. -/
def opField (type : ObjectType) : Bytes := field needAlign [(toOpCode type).opCode]

/-- The field of a string. -/
def stringField (text : Bytes) : Bytes := field needAlign (text ++ [0])

/-- The record of a number or a string. -/
def encodeDatum : Datum → Bytes
  | .number type integerValue =>
    opField needAlign (.int type) ++ field needAlign (leBytes type.size integerValue.toNat)
  | .string stringValue => opField needAlign .string ++ stringField needAlign stringValue

variable (hash : ℕ → UInt32)

/-- The hash that the reference of a term holds. -/
def refWord (term : Option ConfigTerm) : UInt32 := (term.bind ConfigTerm.refNode).elim 0 hash

/-- The records of a value object. -/
def encodeValue (term : Option ConfigTerm) : Value → Bytes
  | .datum d => encodeDatum needAlign d
  | .nodeRef _ =>
    opField needAlign .nodeRef ++ field needAlign (leBytes 4 (refWord hash term).toNat)
  | .delete => opField needAlign .delete
  | .array _ arraySize elements =>
    opField needAlign .array ++ (field needAlign (leBytes 2 arraySize.toUInt16.toNat) ++
      elements.flatMap (encodeDatum needAlign))

/-- The record of a node, less those of its children. -/
def nodeHeader (name : Bytes) (subSize : UInt32) : Bytes :=
  opField needAlign .confNode ++ (stringField needAlign name ++
    field needAlign (leBytes 4 subSize.toNat))

/-- The record of a term, less that of its value. -/
def termHeader (name : Bytes) : Bytes := opField needAlign .confTerm ++ stringField needAlign name

mutual

/-- The records of an object and of what is below it. -/
def encode : AstObject → Bytes
  | .leaf (.term term) =>
    termHeader needAlign term.name ++ encodeValue needAlign hash (some term) term.value
  | .leaf (.value value) => encodeValue needAlign hash none value
  | .node node children =>
    nodeHeader needAlign node.name (getSubSize needAlign children) ++ encodeList children

def encodeList : List AstObject → Bytes
  | [] => []
  | child :: rest => encode child ++ encodeList rest

end

mutual

/-- The hashes of the nodes of an object whose record is at an offset. -/
def marks (at_ : UInt32) : AstObject → List (ℕ × UInt32)
  | .leaf _ => []
  | .node node children =>
    (node.uid, at_) :: marksList (at_ + ownSize needAlign .confNode node.name) children

def marksList (at_ : UInt32) : List AstObject → List (ℕ × UInt32)
  | [] => []
  | child :: rest => marks at_ child ++ marksList (at_ + getSize needAlign child) rest

end

end Records

/-- Sets the hashes of nodes. -/
def applyMarks (ms : List (ℕ × UInt32)) (hash : ℕ → UInt32) : ℕ → UInt32 :=
  ms.foldl (fun hash m => Function.update hash m.1 m.2) hash

/-- A reference belongs to a term and leads to a node of the tree. -/
def Resolved (alive : ℕ → Bool) : Label → Prop
  | .inr (.term { name := _, refNode := refNode, value := .nodeRef _ }) =>
    ∃ uid, refNode = some uid ∧ alive uid = true
  | .inr (.value (.nodeRef _)) => False
  | _ => True

section

variable {needAlign dummyOutput : Bool} {alive : ℕ → Bool} {hash : ℕ → UInt32} {w w' : Writer}

/-! ### Sizes -/

theorem ofNat_length_append (a b : Bytes) :
    UInt32.ofNat (a ++ b).length = UInt32.ofNat a.length + UInt32.ofNat b.length := by
  rw [List.length_append, UInt32.ofNat_add]

theorem toNat_ofNat_length_le (data : Bytes) : (UInt32.ofNat data.length).toNat ≤ data.length := by
  rw [UInt32.toNat_ofNat']
  exact Nat.mod_le _ _

theorem ofNat_length_field (data : Bytes) :
    UInt32.ofNat (field needAlign data).length = align needAlign (.ofNat data.length) := by
  rw [field, ofNat_length_append, List.length_take, List.length_replicate,
    Nat.min_eq_left (toNat_ofNat_length_le data), UInt32.ofNat_toNat, UInt32.ofNat_toNat,
    UInt32.add_comm, UInt32.sub_add_cancel]

theorem ofNat_length_opField (type : ObjectType) :
    UInt32.ofNat (opField needAlign type).length = align needAlign 1 := ofNat_length_field _

theorem ofNat_length_stringField (text : Bytes) :
    UInt32.ofNat (stringField needAlign text).length =
      align needAlign (.ofNat (text.length + 1)) := by
  rw [stringField, ofNat_length_field, List.length_append]
  rfl

theorem ofNat_length_word (width n : ℕ) :
    UInt32.ofNat (field needAlign (leBytes width n)).length = align needAlign (.ofNat width) := by
  rw [ofNat_length_field, length_leBytes]

theorem align_zero : align needAlign 0 = 0 := by
  cases needAlign <;> rfl

theorem datumSize_eq (d : Datum) :
    datumSize needAlign d = UInt32.ofNat (encodeDatum needAlign d).length := by
  cases d with
  | number type integerValue =>
    rw [encodeDatum, ofNat_length_append, ofNat_length_opField, ofNat_length_word]
    rfl
  | string stringValue =>
    rw [encodeDatum, ofNat_length_append, ofNat_length_opField, ofNat_length_stringField, datumSize,
      ownSize]
    show align needAlign 1 + align needAlign 0 + _ = _
    rw [align_zero, UInt32.add_zero]

theorem elementsSize_eq (elements : List Datum) :
    elementsSize needAlign elements =
      UInt32.ofNat (elements.flatMap (encodeDatum needAlign)).length := by
  induction elements with
  | nil => rfl
  | cons e rest ih =>
    rw [elementsSize, List.flatMap_cons, ofNat_length_append, ih, datumSize_eq]

theorem valueSize_eq (term : Option ConfigTerm) (value : Value) :
    valueSize needAlign value = UInt32.ofNat (encodeValue needAlign hash term value).length := by
  cases value with
  | datum d => exact datumSize_eq d
  | nodeRef path =>
    rw [encodeValue, ofNat_length_append, ofNat_length_opField, ofNat_length_word]
    rfl
  | delete =>
    rw [encodeValue, ofNat_length_opField]
    show align needAlign 1 + align needAlign 0 = _
    rw [align_zero, UInt32.add_zero]
  | array arrayType arraySize elements =>
    rw [encodeValue, ofNat_length_append, ofNat_length_append, ofNat_length_opField,
      ofNat_length_word, valueSize, elementsSize_eq, ← UInt32.add_assoc, UInt32.add_comm]
    rfl

theorem termHeader_size (name : Bytes) :
    ownSize needAlign .confTerm name = UInt32.ofNat (termHeader needAlign name).length := by
  rw [termHeader, ofNat_length_append, ofNat_length_opField, ofNat_length_stringField, ownSize]
  show align needAlign 1 + align needAlign 0 + _ = _
  rw [align_zero, UInt32.add_zero]

theorem nodeHeader_size (name : Bytes) (subSize : UInt32) :
    ownSize needAlign .confNode name = UInt32.ofNat (nodeHeader needAlign name subSize).length := by
  rw [nodeHeader, ofNat_length_append, ofNat_length_append, ofNat_length_opField,
    ofNat_length_stringField, ofNat_length_word, ownSize]
  show align needAlign 1 + align needAlign 4 + _ = _ + (_ + align needAlign 4)
  rw [UInt32.add_assoc, UInt32.add_comm (align needAlign 4)]

/-- The size of an object is the number of bytes of its records, modulo 2^32. -/
theorem getSize_eq (object : AstObject) :
    getSize needAlign object = UInt32.ofNat (encode needAlign hash object).length := by
  induction object using Tree.induct with
  | leaf leaf =>
    cases leaf with
    | term term =>
      rw [getSize, encode, ofNat_length_append, ← termHeader_size, ← valueSize_eq, UInt32.add_comm]
    | value value => rw [getSize, encode, ← valueSize_eq]
  | node node children ih =>
    have below : getSubSize needAlign children =
        UInt32.ofNat (encodeList needAlign hash children).length := by
      induction children with
      | nil => rfl
      | cons child rest rest_ih =>
        rw [getSubSize, encodeList, ofNat_length_append, ih child List.mem_cons_self,
          rest_ih fun c member => ih c (List.mem_cons_of_mem _ member)]
    rw [getSize, encode, ofNat_length_append, ← nodeHeader_size, below, UInt32.add_comm]

theorem getSubSize_eq (children : List AstObject) :
    getSubSize needAlign children = UInt32.ofNat (encodeList needAlign hash children).length := by
  induction children with
  | nil => rfl
  | cons child rest ih => rw [getSubSize, encodeList, ofNat_length_append, ih, ← getSize_eq]

/-! ### Writing -/

/-- Writes bytes as they are. -/
def emit (dummyOutput : Bool) (data : Bytes) (w : Writer) : Writer where
  writeSize := w.writeSize + .ofNat data.length
  hash := w.hash
  ofs := if dummyOutput then w.ofs else w.ofs ++ data

theorem emit_emit (a b : Bytes) :
    emit dummyOutput b (emit dummyOutput a w) = emit dummyOutput (a ++ b) w := by
  rw [emit, emit, emit, ofNat_length_append, UInt32.add_assoc]
  cases dummyOutput <;> simp

theorem write_eq (data : Bytes) :
    write needAlign dummyOutput data w = emit dummyOutput (field needAlign data) w := by
  rw [emit, ofNat_length_field, write, field]
  cases dummyOutput with
  | true => simp [fsWrite]
  | false =>
    by_cases stub : align needAlign (.ofNat data.length) - .ofNat data.length = 0
    · simp [fsWrite, stub]
    · simp [fsWrite, stub]

theorem writeOpCode_eq (type : ObjectType) :
    writeOpCode needAlign dummyOutput type w = emit dummyOutput (opField needAlign type) w :=
  write_eq _

theorem writeString_eq (text : Bytes) :
    writeString needAlign dummyOutput text w = emit dummyOutput (stringField needAlign text) w :=
  write_eq _

theorem writeDatum_eq (d : Datum) :
    writeDatum needAlign dummyOutput d w = emit dummyOutput (encodeDatum needAlign d) w := by
  cases d with
  | number type integerValue =>
    rw [writeDatum, writeOpCode_eq, write_eq, emit_emit]
    rfl
  | string stringValue =>
    rw [writeDatum, writeOpCode_eq, writeString_eq, emit_emit]
    rfl

theorem foldl_writeDatum (elements : List Datum) :
    elements.foldl (fun w e => writeDatum needAlign dummyOutput e w) w =
      emit dummyOutput (elements.flatMap (encodeDatum needAlign)) w := by
  induction elements generalizing w with
  | nil => simp [emit]
  | cons e rest ih => rw [List.foldl_cons, ih, writeDatum_eq, emit_emit, List.flatMap_cons]

theorem writeValue_spec {term : Option ConfigTerm} {value : Value}
    (h : writeValue needAlign dummyOutput alive term value w = some w') :
    w' = emit dummyOutput (encodeValue needAlign w.hash term value) w ∧
      ∀ path, value = .nodeRef path →
        ∃ uid, term.bind ConfigTerm.refNode = some uid ∧ alive uid = true := by
  cases value with
  | datum d =>
    cases h
    exact ⟨writeDatum_eq d, by simp⟩
  | nodeRef path =>
    obtain ⟨hashCode, found, rfl⟩ := Option.map_eq_some_iff.mp h
    rw [writeOpCode_eq, refHash] at found
    split at found
    case h_1 => cases found
    case h_2 uid refers =>
      split at found
      case isTrue there =>
        cases found
        refine ⟨?_, fun _ _ => ⟨uid, refers, there⟩⟩
        rw [writeOpCode_eq, write_eq, emit_emit, encodeValue, refWord, refers]
        rfl
      case isFalse => cases found
  | delete =>
    cases h
    exact ⟨writeOpCode_eq _, by simp⟩
  | array arrayType arraySize elements =>
    cases h
    refine ⟨?_, by simp⟩
    rw [foldl_writeDatum, write_eq, writeOpCode_eq, emit_emit, emit_emit, encodeValue]

/-! ### Walking -/

theorem applyMarks_append (a b : List (ℕ × UInt32)) :
    applyMarks (a ++ b) hash = applyMarks b (applyMarks a hash) := List.foldl_append

/-- Setting hashes to what they are. -/
theorem applyMarks_of_set {ms : List (ℕ × UInt32)} (set : ∀ m ∈ ms, hash m.1 = m.2) :
    applyMarks ms hash = hash := by
  induction ms with
  | nil => rfl
  | cons m ms ih =>
    have same : Function.update hash m.1 m.2 = hash := by
      rw [← set m List.mem_cons_self, Function.update_eq_self]
    rw [applyMarks, List.foldl_cons, same]
    exact ih fun m' member => set m' (List.mem_cons_of_mem _ member)

/-- The state after a walk over objects of some size, with the hashes it sets and the bytes it
writes when these hashes are set already. -/
structure Walked (dummyOutput : Bool) (ms : List (ℕ × UInt32)) (size : UInt32)
    (bytes : (ℕ → UInt32) → Bytes) (w w' : Writer) : Prop where
  writeSize : w'.writeSize = w.writeSize + size
  hash : w'.hash = applyMarks ms w.hash
  ofs : (∀ m ∈ ms, w.hash m.1 = m.2) →
    w'.ofs = if dummyOutput then w.ofs else w.ofs ++ bytes w.hash

theorem walked_mark (uid : ℕ) :
    Walked dummyOutput [(uid, w.writeSize)] 0 (fun _ => []) w
      { w with hash := Function.update w.hash uid w.writeSize } := by
  refine ⟨(UInt32.add_zero _).symm, rfl, fun _ => ?_⟩
  cases dummyOutput <;> simp

theorem walked_emit {size : UInt32} {bytes : (ℕ → UInt32) → Bytes}
    (length : size = .ofNat (bytes w.hash).length) :
    Walked dummyOutput [] size bytes w (emit dummyOutput (bytes w.hash) w) := by
  subst length
  exact ⟨rfl, rfl, fun _ => rfl⟩

theorem Walked.trans {ms ms' : List (ℕ × UInt32)} {size size' : UInt32}
    {bytes bytes' : (ℕ → UInt32) → Bytes} {w'' : Writer}
    (h : Walked dummyOutput ms size bytes w w') (h' : Walked dummyOutput ms' size' bytes' w' w'') :
    Walked dummyOutput (ms ++ ms') (size + size') (fun hash => bytes hash ++ bytes' hash)
      w w'' := by
  refine ⟨?_, ?_, fun set => ?_⟩
  · rw [h'.writeSize, h.writeSize, UInt32.add_assoc]
  · rw [h'.hash, h.hash, applyMarks_append]
  · have set₁ : ∀ m ∈ ms, w.hash m.1 = m.2 := fun m member => set m (List.mem_append_left _ member)
    have same : w'.hash = w.hash := by rw [h.hash, applyMarks_of_set set₁]
    have set₂ : ∀ m ∈ ms', w'.hash m.1 = m.2 := by
      rw [same]
      exact fun m member => set m (List.mem_append_right _ member)
    rw [h'.ofs set₂, h.ofs set₁, same]
    cases dummyOutput <;> simp

/-- A walk over an object goes through, and every reference on the way leads somewhere. -/
def WalkSpec (needAlign dummyOutput : Bool) (alive : ℕ → Bool) (object : AstObject) : Prop :=
  ∀ w w', writeWalk needAlign dummyOutput alive object w = some w' →
    Walked dummyOutput (marks needAlign w.writeSize object) (getSize needAlign object)
        (fun hash => encode needAlign hash object) w w' ∧
      ∀ l ∈ object.labels, Resolved alive l

theorem writeWalkList_spec {children : List AstObject}
    (each : ∀ child ∈ children, WalkSpec needAlign dummyOutput alive child)
    (h : writeWalkList needAlign dummyOutput alive children w = some w') :
    Walked dummyOutput (marksList needAlign w.writeSize children) (getSubSize needAlign children)
        (fun hash => encodeList needAlign hash children) w w' ∧
      ∀ l ∈ children.flatMap Tree.labels, Resolved alive l := by
  induction children generalizing w with
  | nil =>
    cases h
    refine ⟨⟨(UInt32.add_zero _).symm, rfl, fun _ => ?_⟩, by simp⟩
    cases dummyOutput <;> simp [encodeList]
  | cons child rest ih =>
    rw [writeWalkList] at h
    split at h
    case h_1 => cases h
    case h_2 w₁ walks =>
      obtain ⟨first, resolved⟩ := each child List.mem_cons_self w w₁ walks
      obtain ⟨later, resolved'⟩ := ih (fun c member => each c (List.mem_cons_of_mem _ member)) h
      rw [first.writeSize] at later
      refine ⟨?_, ?_⟩
      · have whole := first.trans later
        rw [marksList, getSubSize]
        simpa only [encodeList] using whole
      · intro l member
        rw [List.flatMap_cons, List.mem_append] at member
        exact member.elim (resolved l) (resolved' l)

theorem writeWalk_spec (object : AstObject) : WalkSpec needAlign dummyOutput alive object := by
  induction object using Tree.induct with
  | leaf leaf =>
    intro w w' h
    cases leaf with
    | term term =>
      rw [writeWalk, writeOpCode_eq, writeString_eq, emit_emit] at h
      obtain ⟨rfl, resolved⟩ := writeValue_spec h
      rw [emit_emit]
      refine ⟨walked_emit (getSize_eq _), ?_⟩
      intro l member
      rw [Tree.labels_leaf, List.mem_singleton] at member
      subst member
      obtain ⟨name, refNode, value⟩ := term
      cases value with
      | nodeRef path => exact resolved path rfl
      | datum d | delete | array _ _ _ => trivial
    | value value =>
      rw [writeWalk] at h
      obtain ⟨rfl, resolved⟩ := writeValue_spec h
      refine ⟨walked_emit (getSize_eq _), ?_⟩
      intro l member
      rw [Tree.labels_leaf, List.mem_singleton] at member
      subst member
      cases value with
      | nodeRef path =>
        obtain ⟨_, none, _⟩ := resolved path rfl
        cases none
      | datum d | delete | array _ _ _ => trivial
  | node node children ih =>
    intro w w' h
    rw [writeWalk, writeOpCode_eq, writeString_eq, write_eq, emit_emit, emit_emit] at h
    obtain ⟨below, resolved⟩ := writeWalkList_spec ih h
    -- the mark, the header and the children come one after the other
    let marked : Writer := { w with hash := Function.update w.hash node.uid w.writeSize }
    let bytes := nodeHeader needAlign node.name (getSubSize needAlign children)
    have header : Walked dummyOutput [] (ownSize needAlign .confNode node.name) (fun _ => bytes)
        marked (emit dummyOutput bytes marked) := walked_emit (nodeHeader_size _ _)
    have start : (emit dummyOutput bytes marked).writeSize =
        w.writeSize + ownSize needAlign .confNode node.name := header.writeSize
    change Walked dummyOutput
      (marksList needAlign (emit dummyOutput bytes marked).writeSize children)
      _ _ (emit dummyOutput bytes marked) w' at below
    rw [start] at below
    have whole := (walked_mark node.uid).trans (header.trans below)
    refine ⟨?_, ?_⟩
    · have spelled : (fun hash => encode needAlign hash (.node node children)) =
          fun hash => [] ++ (bytes ++ encodeList needAlign hash children) := by
        funext hash
        rw [encode]
        rfl
      have size : getSize needAlign (.node node children) =
          0 + (ownSize needAlign .confNode node.name + getSubSize needAlign children) := by
        rw [getSize, UInt32.zero_add, UInt32.add_comm]
      rw [marks, size, spelled]
      exact whole
    · intro l member
      rw [Tree.labels_node, List.mem_cons] at member
      rcases member with rfl | inside
      · trivial
      · exact resolved l inside

/-! ### The file -/

/-- The hash of every node of a tree when its records follow the header. -/
def hashes (needAlign : Bool) (tree : AstObject) : ℕ → UInt32 :=
  applyMarks (marks needAlign (.ofNat hcbHeaderSize) tree) fun _ => 0

theorem applyMarks_of_notMem {ms : List (ℕ × UInt32)} {uid : ℕ}
    (absent : ∀ m ∈ ms, m.1 ≠ uid) : applyMarks ms hash uid = hash uid := by
  induction ms generalizing hash with
  | nil => rfl
  | cons m ms ih =>
    rw [applyMarks, List.foldl_cons]
    have rest : applyMarks ms (Function.update hash m.1 m.2) uid = _ :=
      ih fun m' member => absent m' (List.mem_cons_of_mem _ member)
    rw [applyMarks] at rest
    rw [rest, Function.update_of_ne (absent m List.mem_cons_self).symm]

/-- Hashes that are set at different addresses are all set in the end. -/
theorem applyMarks_of_nodup {ms : List (ℕ × UInt32)} (unique : (ms.map Prod.fst).Nodup) :
    ∀ m ∈ ms, applyMarks ms hash m.1 = m.2 := by
  induction ms generalizing hash with
  | nil => exact fun m member => absurd member List.not_mem_nil
  | cons m ms ih =>
    intro m' member
    rw [List.map_cons, List.nodup_cons] at unique
    rcases List.mem_cons.mp member with rfl | later
    · have absent : ∀ m ∈ ms, m.1 ≠ m'.1 := fun m member same =>
        unique.1 (same ▸ List.mem_map_of_mem member)
      have rest : applyMarks ms (Function.update hash m'.1 m'.2) m'.1 = _ :=
        applyMarks_of_notMem absent
      rw [applyMarks] at rest ⊢
      rw [List.foldl_cons, rest, Function.update_self]
    · exact ih unique.2 m' later

/-- The nodes are marked in document order. -/
theorem marks_uids (object : AstObject) (at_ : UInt32) :
    (marks needAlign at_ object).map Prod.fst = nodeUids object := by
  induction object using Tree.induct generalizing at_ with
  | leaf leaf => rw [marks, nodeUids, Tree.labels_leaf]; rfl
  | node node children ih =>
    have below (at_ : UInt32) :
        (marksList needAlign at_ children).map Prod.fst = children.flatMap nodeUids := by
      induction children generalizing at_ with
      | nil => rfl
      | cons child rest rest_ih =>
        rw [marksList, List.map_append, ih child List.mem_cons_self,
          rest_ih fun c member => ih c (List.mem_cons_of_mem _ member), List.flatMap_cons]
    rw [marks, List.map_cons, below, nodeUids_node]

theorem hashes_of_mark {tree : AstObject} (unique : (nodeUids tree).Nodup) {m : ℕ × UInt32}
    (member : m ∈ marks needAlign (.ofNat hcbHeaderSize) tree) :
    hashes needAlign tree m.1 = m.2 :=
  applyMarks_of_nodup (by rw [marks_uids]; exact unique) m member

theorem field_hcbHeader (tree : AstObject) :
    field needAlign (hcbHeader needAlign tree) = hcbHeader needAlign tree := by
  have length : (hcbHeader needAlign tree).length = 20 := by simp [hcbHeader]
  have none : align needAlign 20 - 20 = 0 := by cases needAlign <;> decide
  rw [field, length]
  show (hcbHeader needAlign tree).take 20 ++ List.replicate (align needAlign 20 - 20).toNat 0 = _
  rw [none, List.take_of_length_le length.le]
  simp

/-- The file holds the header and the records of the tree that is left, with its offsets
for hashes. -/
theorem output_spec {root : AstObject} {file : Bytes} (h : output needAlign root = some file) :
    ∃ tree, convert root = some (some tree) ∧
      (∀ l ∈ tree.labels, Resolved (fun uid => decide (uid ∈ nodeUids tree)) l) ∧
      ((nodeUids tree).Nodup →
        file = hcbHeader needAlign tree ++ encode needAlign (hashes needAlign tree) tree) := by
  unfold output at h
  split at h
  case h_2 => cases h
  case h_1 tree converts =>
    split at h
    case h_1 => cases h
    case h_2 dummy dry =>
      obtain ⟨w, real, rfl⟩ := Option.map_eq_some_iff.mp h
      rw [byteCodeWrite, write_eq, field_hcbHeader] at dry real
      obtain ⟨walked, -⟩ := writeWalk_spec tree _ _ dry
      obtain ⟨walked', resolved⟩ := writeWalk_spec tree _ _ real
      refine ⟨tree, converts, resolved, fun unique => ?_⟩
      -- the dummy pass has set all hashes
      have set : dummy.hash = hashes needAlign tree := walked.hash
      have same := walked'.ofs fun m member => by
        change dummy.hash m.1 = m.2
        rw [set]
        exact hashes_of_mark unique member
      rw [same]
      show [] ++ hcbHeader needAlign tree ++ encode needAlign dummy.hash tree = _
      rw [set, List.nil_append]

end

end Hdf.HcGen.ByteCodeGen
