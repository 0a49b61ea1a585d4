import Hdf.HcGen.DecompileRoundTrip
import Hdf.HcGen.Expanded

/-!
# Decompiling what has been compiled

A compiled file starts with the size of its records, whose sign tells whether
the fields are padded. When the sign is lost because the size has more than 31
bits, the decompiler takes the padding for something else and does not get
beyond the root. Otherwise it rebuilds the tree exactly when every record is
intact.

## Main results

* `decompiles_file_iff`: when the records of a tree are rebuilt from a file
* `decompiles_iff`: when the decompiler inverts the generator
* `signKept_of_short`, `ordered_of_short`: short files meet the conditions on sizes
-/

namespace Hdf.HcGen.Decompile

open ByteCodeGen

/-- The `totalSize` of the header, as a signed word, is negative when fields are padded. -/
def SignKept (needAlign : Bool) (root : AstObject) : Prop :=
  (if needAlign then -getSize needAlign root else getSize needAlign root).toInt32 < 0 ↔
    needAlign = true

section

variable {needAlign : Bool} {hash : ℕ → UInt32} {tree : AstObject} {rest : Bytes}

theorem verifyDecompileFile_header :
    verifyDecompileFile { offset := 0, rest := hcbHeader needAlign tree ++ rest } =
      some (decide
        ((if needAlign then -getSize needAlign tree else getSize needAlign tree).toInt32 < 0),
        stream hcbHeaderSize rest) := by
  have length : (hcbHeader needAlign tree).length = hcbHeaderSize := by
    simp [hcbHeader, hcbHeaderSize]
  have read : readFile (hcbHeader needAlign tree).length
      (stream 0 (hcbHeader needAlign tree ++ rest)) =
    _ := readFile_append
  rw [length] at read
  have magic : leNat ((hcbHeader needAlign tree).take 4) = hcbMagicNum := by
    rw [hcbHeader]
    simp only [List.append_assoc]
    rw [List.take_left' (length_leBytes 4 _), leNat_leBytes_of_lt (by decide)]
  have size : (hcbHeader needAlign tree).drop 16 = leBytes 4
      (if needAlign then -getSize needAlign tree else getSize needAlign tree).toNat := by
    rw [hcbHeader, List.drop_left' (by simp)]
  rw [verifyDecompileFile, read, Option.bind_some]
  dsimp only
  rw [magic, if_pos rfl, size, List.take_of_length_le (by simp),
    leNat_leBytes_of_lt (by simpa using UInt32.toNat_lt _), UInt32.ofNat_toNat]
  rfl

theorem opField_node : opField needAlign .confNode =
    (OpCodeType.node.code :: if needAlign then [0, 0, 0] else []) := by
  cases needAlign <;> decide

/-- Where the padding goes is settled: the decompiler looks at the root first. -/
theorem rebuildAst_eq {calls : ℕ} {node : ConfigNode} {children : List AstObject} :
    rebuildAst needAlign calls (stream hcbHeaderSize
        (encode needAlign hash (.node node children) ++ rest)) =
      (rebuildNext needAlign (rebuildObject needAlign calls) (stream hcbHeaderSize
        (encode needAlign hash (.node node children) ++ rest))).map Prod.fst := by
  rw [encode, nodeHeader]
  simp only [List.append_assoc]
  rw [rebuildAst, getNextByteCode_opField, Option.bind_some, rebuildNext, getNextByteCode_opField,
    Option.bind_some]
  exact if_pos rfl

/-- Padded fields are not taken for fields without padding: the root has no name. -/
theorem rebuildAst_unpadded {calls : ℕ} {node : ConfigNode} {children : List AstObject}
    {result : Rebuilt} (h : rebuildAst false calls (stream hcbHeaderSize
      (encode true hash (.node node children))) = some result) :
    ∃ size hash children, result = .node (.confNode [] size hash) children := by
  rw [encode, nodeHeader, opField_node] at h
  obtain ⟨op, read, h⟩ := Option.bind_eq_some_iff.mp h
  have first : getNextByteCode false (stream hcbHeaderSize
      ([OpCodeType.node.code] ++ ([0, 0, 0] ++ (stringField true node.name ++
        field true (leBytes 4 (getSubSize true children).toNat)) ++
          encodeList true hash children))) =
      some (1, stream 21 _) := rfl
  cases read.symm.trans first
  change (rebuildObject false calls 1 _).map Prod.fst = some result at h
  obtain ⟨⟨result, i⟩, rebuilt, rfl⟩ := Option.map_eq_some_iff.mp h
  cases calls with
  | zero => cases rebuilt
  | succ calls =>
    obtain ⟨name, name_eq, h⟩ := Option.bind_eq_some_iff.mp rebuilt
    obtain ⟨nodeSize, _, h⟩ := Option.bind_eq_some_iff.mp h
    obtain ⟨r, _, same⟩ := Option.map_eq_some_iff.mp h
    cases same
    have nothing (later : Bytes) :
        readString false (stream 21 (0 :: later)) = some ([], stream 22 later) := by
      have read : readString false (stream 21 (stringField false [] ++ later)) = _ :=
        readString_stringField ⟨by simp, by simp⟩
      rwa [show stringField false [] = [0] from field_false (by simp)] at read
    obtain rfl := Option.some.inj (name_eq.symm.trans (nothing _))
    exact ⟨_, _, _, rfl⟩

/-- Fields without padding are not taken for padded ones: the first word is not an opcode. -/
theorem rebuildAst_padded {calls : ℕ} {node : ConfigNode} {children : List AstObject}
    (named : node.name = ascii "root") :
    rebuildAst true calls (stream hcbHeaderSize (encode false hash (.node node children))) =
      none := by
  have text : stringField false (ascii "root") = ascii "root" ++ [0] := field_false (by decide)
  rw [encode, nodeHeader, opField_node, named, text]
  rfl

/-- A file with a header and records is rebuilt to the tree of the records exactly when the
sign of the size is right and the records are intact. -/
theorem decompiles_file_iff {node : ConfigNode} {children : List AstObject}
    (named : node.name = ascii "root") (eq : tree = .node node children) :
    Decompiles (hcbHeader needAlign tree ++ encode needAlign hash tree)
        (image needAlign hash (.ofNat hcbHeaderSize) tree) ↔
      SignKept needAlign tree ∧ Intact needAlign (.ofNat hcbHeaderSize) tree := by
  subst eq
  have start (calls : ℕ) : decompile calls (hcbHeader needAlign (.node node children) ++
      encode needAlign hash (.node node children)) = rebuildAst (decide
        ((if needAlign then -getSize needAlign (.node node children)
          else getSize needAlign (.node node children)).toInt32 < 0)) calls
        (stream hcbHeaderSize (encode needAlign hash (.node node children))) := by
    rw [decompile, verifyDecompileFile_header, Option.bind_some]
  have comes := comes_object needAlign hash (.node node children) (.ofNat hcbHeaderSize)
  by_cases sign : SignKept needAlign (.node node children)
  · -- the padding is recognised
    have known : decide ((if needAlign then -getSize needAlign (.node node children)
        else getSize needAlign (.node node children)).toInt32 < 0) = needAlign := by
      rw [SignKept] at sign
      cases needAlign with
      | true | false => simpa using sign
    have rebuilds (calls : ℕ) : rebuildAst needAlign calls (stream hcbHeaderSize
        (encode needAlign hash (.node node children) ++ [])) = _ := rebuildAst_eq
    simp only [List.append_nil] at rebuilds
    simp only [sign, true_and]
    constructor
    · rintro ⟨calls, h⟩
      rw [start, known, rebuilds] at h
      obtain ⟨⟨result, i⟩, rebuilt, rfl⟩ := Option.map_eq_some_iff.mp h
      rw [← List.append_nil (encode needAlign hash _)] at rebuilt
      exact (comes.back _ _ _ _ rfl rebuilt).1
    · intro intact
      refine ⟨(encode needAlign hash (.node node children)).length, ?_⟩
      have forth := comes.forth hcbHeaderSize [] _ rfl le_rfl intact
      rw [List.append_nil] at forth
      rw [start, known, rebuilds, forth]
      rfl
  · -- the padding is mistaken
    simp only [sign, false_and, iff_false]
    rintro ⟨calls, h⟩
    rw [start] at h
    cases needAlign with
    | true =>
      rw [SignKept] at sign
      simp only [if_true, iff_true] at sign
      rw [show decide _ = false from decide_eq_false (by simpa using sign)] at h
      obtain ⟨_, _, _, same⟩ := rebuildAst_unpadded h
      rw [image] at same
      have names := (RebuiltNode.confNode.inj (Tree.node.inj same).1).1
      rw [named] at names
      cases names
    | false =>
      rw [SignKept] at sign
      have negative : (getSize false (.node node children)).toInt32 < 0 := by simpa using sign
      rw [show decide _ = true from decide_eq_true (by simpa using negative),
        rebuildAst_padded named] at h
      cases h

/-! ### Short files -/

theorem toInt32_lt {m n : ℕ} (less : m < n) (short : n < 2 ^ 31) :
    (UInt32.ofNat m).toInt32 < (UInt32.ofNat n).toInt32 := by
  rw [Int32.lt_iff_toInt_lt, UInt32.toInt32_ofNat', UInt32.toInt32_ofNat',
    Int32.toInt_ofNat_of_lt (less.trans short), Int32.toInt_ofNat_of_lt short]
  exact_mod_cast less

/-- The offsets in a file of less than 2^31 bytes are in order. -/
theorem ordered_of_short (object : AstObject) {offset : ℕ}
    (short : offset + (encode needAlign hash object).length < 2 ^ 31) :
    Ordered needAlign (.ofNat offset) object := by
  induction object using Tree.induct generalizing offset with
  | leaf leaf => trivial
  | node node children ih =>
    have first : UInt32.ofNat offset + ownSize needAlign .confNode node.name = .ofNat (offset +
        (nodeHeader needAlign node.name (getSubSize needAlign children)).length) := by
      rw [nodeHeader_size node.name (getSubSize needAlign children), ← UInt32.ofNat_add]
    have size : getSubSize needAlign children =
        UInt32.ofNat (encodeList needAlign hash children).length := getSubSize_eq children
    rw [encode, List.length_append] at short
    rw [Ordered, first]
    generalize (nodeHeader needAlign node.name _).length = header at short ⊢
    rw [size, ← UInt32.ofNat_add]
    -- the children already passed and those to come fill the node
    have along (rest : List AstObject) (start : ℕ) (within : ∀ c ∈ rest, c ∈ children)
        (whole : start + (encodeList needAlign hash rest).length =
          offset + header + (encodeList needAlign hash children).length) :
        OrderedList needAlign
          (.ofNat (offset + header + (encodeList needAlign hash children).length))
          (.ofNat start) rest := by
      induction rest generalizing start with
      | nil => trivial
      | cons child rest rest_ih =>
        have some := one_le_length_encode needAlign hash child
        rw [encodeList, List.length_append] at whole
        refine ⟨toInt32_lt (by omega) (by omega), ?_, ?_⟩
        · apply ih child (within child List.mem_cons_self)
          omega
        · have next : getSize needAlign child = UInt32.ofNat (encode needAlign hash child).length :=
            getSize_eq child
          rw [next, ← UInt32.ofNat_add]
          apply rest_ih _ fun c member => within c (List.mem_cons_of_mem _ member)
          omega
    exact along children _ (fun _ member => member) rfl

/-- The sign of the size of less than 2^31 bytes is kept. Only padded records need some bytes. -/
theorem signKept_of_short {node : ConfigNode} {children : List AstObject}
    (short : (encode needAlign hash (.node node children)).length < 2 ^ 31) :
    SignKept needAlign (.node node children) := by
  have size : getSize needAlign (.node node children) =
      UInt32.ofNat (encode needAlign hash (.node node children)).length := getSize_eq _
  have some := one_le_length_encode needAlign hash (.node node children)
  rw [SignKept, size]
  generalize (encode needAlign hash (.node node children)).length = length at short some
  have positive : (0 : Int32) < (UInt32.ofNat length).toInt32 := by
    exact toInt32_lt some short
  cases needAlign with
  | false =>
    simp only [Bool.false_eq_true, if_false, iff_false]
    exact Int32.lt_asymm positive
  | true =>
    simp only [if_true, iff_true]
    show (-(UInt32.ofNat length).toInt32) < 0
    rw [UInt32.toInt32_ofNat', Int32.lt_iff_toInt_lt, Int32.toInt_neg,
      Int32.toInt_ofNat_of_lt short, Int.bmod_eq_of_le (by omega) (by omega)]
    show -(length : ℤ) < 0
    omega

end

/-! ### What has been compiled -/

section

variable (needAlign : Bool) (hash : ℕ → UInt32)

mutual

/-- The tree that an object stands for, given the hashes that references to its nodes hold. -/
def restored : AstObject → Rebuilt
  | .leaf (.term term) =>
    .node (.confTerm term.name) [valueImage hash (some term) term.value]
  | .leaf (.value value) => valueImage hash none value
  | .node node children =>
    .node (.confNode node.name (getSubSize needAlign children) (hash node.uid))
      (restoredList children)

def restoredList : List AstObject → List Rebuilt
  | [] => []
  | child :: rest => restored child :: restoredList rest

end

end

/-- The hashes that references hold are the offsets of the records. -/
theorem restored_eq_image {needAlign : Bool} {hash : ℕ → UInt32} {object : AstObject}
    {start : UInt32}
    (set : ∀ m ∈ ByteCodeGen.marks needAlign start object, hash m.1 = m.2) :
    restored needAlign hash object = image needAlign hash start object := by
  induction object using Tree.induct generalizing start with
  | leaf leaf => cases leaf <;> rfl
  | node node children ih =>
    rw [ByteCodeGen.marks, List.forall_mem_cons] at set
    obtain ⟨here, below⟩ := set
    have along (rest : List AstObject) (first : UInt32) (within : ∀ c ∈ rest, c ∈ children)
        (set : ∀ m ∈ marksList needAlign first rest, hash m.1 = m.2) :
        restoredList needAlign hash rest = imageList needAlign hash first rest := by
      induction rest generalizing first with
      | nil => rfl
      | cons child rest rest_ih =>
        rw [marksList] at set
        rw [restoredList, imageList,
          ih child (within child List.mem_cons_self) fun m member =>
            set m (List.mem_append_left _ member),
          rest_ih _ (fun c member => within c (List.mem_cons_of_mem _ member)) fun m member =>
            set m (List.mem_append_right _ member)]
    rw [restored, image, here, along children _ (fun _ member => member) below]

/-- The file of a source without templates, and the tree that it stands for. -/
theorem compiled_eq {fs : FileSystem} {main : Bytes} {root : AstObject} {needAlign : Bool}
    {file : Bytes} (parses : Parses fs main root) (plain : NoTemplates root)
    (compiled : ByteCodeGen.output needAlign root = some file) :
    file = hcbHeader needAlign root ++ encode needAlign (hashes needAlign root) root ∧
      restored needAlign (hashes needAlign root) root =
        image needAlign (hashes needAlign root) (.ofNat hcbHeaderSize) root := by
  obtain ⟨tree, converted, _, written⟩ := output_spec compiled
  obtain rfl : tree = root := Option.some.inj (convert_eq_self plain converted)
  exact ⟨written parses.nodup, restored_eq_image fun m => hashes_of_mark parses.nodup⟩

/-- For every source without templates, with either alignment, the decompiler inverts the
generator exactly when the sign of the size is kept and the records are intact. -/
theorem decompiles_iff {fs : FileSystem} {main : Bytes} {root : AstObject} {needAlign : Bool}
    {file : Bytes} (parses : Parses fs main root) (plain : NoTemplates root)
    (compiled : ByteCodeGen.output needAlign root = some file) :
    Decompiles file (restored needAlign (hashes needAlign root) root) ↔
      SignKept needAlign root ∧ Intact needAlign (.ofNat hcbHeaderSize) root := by
  obtain ⟨written, tree⟩ := compiled_eq parses plain compiled
  obtain ⟨named, -⟩ := parses.namedRoot
  rw [written, tree]
  exact decompiles_file_iff named rfl

/-! ### Examples -/

/-- A node with a reference to itself. -/
def selfReference : FileSystem :=
  .files [(ascii "/main",
    ascii "root \x7b module = \"m\"; a \x7b t = [1, 2]; r = &root.a; \x7d \x7d")]

/-- A string of 258 bytes. -/
def longText : FileSystem :=
  .files [(ascii "/main", ascii "root \x7b module = \"m\"; t = \"" ++ .replicate 258 97 ++
    ascii "\"; \x7d")]

/-- The root has two terms, of which the second one is a string. -/
def endsWithText (text : Bytes) : AstObject → Bool
  | .node _ [.leaf (.term moduleTerm), .leaf (.term term)] =>
    decide (moduleTerm.value = .datum (.string (ascii "m")) ∧ term.value = .datum (.string text))
  | _ => false

theorem endsWithText_sound {text : Bytes} {root : AstObject} (h : endsWithText text root = true) :
    ∃ node moduleTerm term, root = .node node [.leaf (.term moduleTerm), .leaf (.term term)] ∧
      moduleTerm.value = .datum (.string (ascii "m")) ∧ term.value = .datum (.string text) := by
  unfold endsWithText at h
  split at h
  case h_1 node moduleTerm term => exact ⟨node, moduleTerm, term, rfl, of_decide_eq_true h⟩
  case h_2 => cases h

private theorem sources_evaluated :
    expansionPasses selfReference (ascii "/main") (fun _ => true)
        (fun root => decide (NoTemplates root) && (ByteCodeGen.output true root).isSome) 20 = true ∧
      expansionPasses longText (ascii "/main") (fun _ => true)
        (fun root => decide (NoTemplates root) && (ByteCodeGen.output false root).isSome &&
          endsWithText (.replicate 258 97) root) 20 = true := by
  rw [selfReference, longText]
  iterate 3 rw [ascii_ofList]
  decide +kernel

theorem decompiles_iff_selfReference : ∃ root file,
    (Decompiles file (restored true (hashes true root) root) ↔
      SignKept true root ∧ Intact true (.ofNat hcbHeaderSize) root) := by
  obtain ⟨ast, fresh, root, merged, expands, -, test⟩ := exists_expansion sources_evaluated.1
  rw [Bool.and_eq_true, decide_eq_true_iff, Option.isSome_iff_exists] at test
  obtain ⟨plain, file, compiled⟩ := test
  exact ⟨root, file, decompiles_iff ⟨ast, fresh, merged, expands⟩ plain compiled⟩

theorem long_text_lost : ∃ root file node moduleTerm term,
    Parses longText (ascii "/main") root ∧ NoTemplates root ∧
      root = .node node [.leaf (.term moduleTerm), .leaf (.term term)] ∧
      moduleTerm.value = .datum (.string (ascii "m")) ∧
      term.value = .datum (.string (.replicate 258 97)) ∧
      ByteCodeGen.output false root = some file ∧
      ¬ Decompiles file (restored false (hashes false root) root) := by
  obtain ⟨ast, fresh, root, merged, expands, -, test⟩ := exists_expansion sources_evaluated.2
  rw [Bool.and_eq_true, Bool.and_eq_true, decide_eq_true_iff, Option.isSome_iff_exists] at test
  obtain ⟨⟨plain, file, compiled⟩, ends⟩ := test
  obtain ⟨node, moduleTerm, term, shape, first, second⟩ := endsWithText_sound ends
  have parses : Parses longText (ascii "/main") root := ⟨ast, fresh, merged, expands⟩
  refine ⟨root, file, node, moduleTerm, term, parses, plain, shape, first, second, compiled, ?_⟩
  obtain ⟨written, tree⟩ := compiled_eq parses plain compiled
  obtain ⟨named, -⟩ := parses.namedRoot
  rw [written, tree, decompiles_file_iff named rfl]
  -- the string cannot be read
  rintro ⟨-, intact, -⟩
  have readable := intact (.inr (.term term)) (by simp [shape])
  rw [Label.Decodable, second] at readable
  have short := readable.2.1
  rw [List.length_replicate] at short
  exact absurd short (by decide)

end Hdf.HcGen.Decompile
