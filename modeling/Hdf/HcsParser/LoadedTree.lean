import Hdf.HcsParser.Loading

/-!
# The tree that is built of a compiled configuration

Names and values stay where they are in the blob, and the offset of a node is the hash that
references hold. So what is built stands for the source.

## Main results

* `depicts_built`: what is built stands for what was compiled
* `Deployed.loads`: a compiled configuration is loaded, and the tree depicts it
-/

namespace Hdf.HcsParser

open HcGen HcGen.ByteCodeGen HcGen.Decompile

section

variable {needAlign : Bool} {hash : ℕ → UInt32} {treeStart rest : Bytes} {o : ℕ}

/-! ### What a loaded tree stands for -/

/-- An attribute has the name and the value of a term. -/
structure AttrOf (needAlign : Bool) (hash : ℕ → UInt32) (attr : DeviceResourceAttr)
    (term : ConfigTerm) : Prop where
  name : Begins attr.name term.name
  value : encodeValue needAlign hash (some term) term.value <+: attr.value

/-- The terms of a node, in order. -/
def termsOf (children : List AstObject) : List ConfigTerm :=
  children.filterMap fun child =>
    match child with
    | .leaf (.term term) => some term
    | _ => none

mutual

/-- A loaded node stands for a node of the source: it has its name, its hash, its terms, the last
one first, and nodes that stand for its nodes. -/
def Depicts (needAlign : Bool) (hash : ℕ → UInt32) : AstObject → ConfigTree → Prop
  | .leaf _, _ => False
  | .node _ _, .leaf _ => False
  | .node node children, .node n trees =>
    Begins n.name node.name ∧ n.hashValue = hash node.uid ∧
      List.Forall₂ (AttrOf needAlign hash) n.attrData (termsOf children).reverse ∧
      DepictsList needAlign hash children trees

def DepictsList (needAlign : Bool) (hash : ℕ → UInt32) : List AstObject → List ConfigTree → Prop
  | [], trees => trees = []
  | .leaf _ :: rest, trees => DepictsList needAlign hash rest trees
  | .node node children :: rest, trees => ∃ tree later, trees = tree :: later ∧
      Depicts needAlign hash (.node node children) tree ∧ DepictsList needAlign hash rest later

end

/-- The hashes of the nodes are the offsets of their records in the file. -/
def Hashed (needAlign : Bool) (hash : ℕ → UInt32) (o : ℕ) (object : AstObject) : Prop :=
  ∀ m ∈ ByteCodeGen.marks needAlign (.ofNat o + .ofNat hbcHeaderLength) object, hash m.1 = m.2

theorem begins_stringField {name : HcGen.Bytes} (text : Text name) (rest : Bytes) :
    Begins (stringField needAlign name ++ rest) name := by
  have size : (name ++ [0]).length = name.length + 1 := by simp
  rw [stringField, field_eq (by rw [size]; have := text.2; omega), List.append_assoc,
    List.append_assoc, List.singleton_append]
  exact ⟨_, rfl⟩

theorem attrOf_attrAt {term : ConfigTerm} (text : Text term.name)
    (here : treeStart.drop o = encode needAlign hash (.leaf (.term term)) ++ rest) :
    AttrOf needAlign hash (attrAt needAlign treeStart o term) term := by
  rw [encode, List.append_assoc] at here
  constructor
  · rw [attrAt]
    dsimp only
    rw [← List.drop_drop, here, termHeader, List.append_assoc, drop_opField]
    exact begins_stringField text _
  · rw [attrAt]
    dsimp only
    rw [← List.drop_drop, here, List.drop_left]
    exact List.prefix_append _ _

theorem attrOf_attrsOf {children : List AstObject}
    (here : treeStart.drop o = encodeList needAlign hash children ++ rest)
    (loadable : ∀ l ∈ children.flatMap Tree.labels, Label.Loadable l) :
    List.Forall₂ (AttrOf needAlign hash) (attrsOf needAlign hash treeStart o children)
      (termsOf children) := by
  induction children generalizing o with
  | nil => exact .nil
  | cons child children ih =>
    rw [List.flatMap_cons, List.forall_mem_append] at loadable
    rw [encodeList, List.append_assoc] at here
    have later := ih (o := o + (encode needAlign hash child).length)
      (by rw [← List.drop_drop, here, List.drop_left]) loadable.2
    cases child with
    | leaf leaf =>
      cases leaf with
      | term term =>
        have own := loadable.1 (.inr (.term term)) (by simp)
        exact .cons (attrOf_attrAt own.1 here) later
      | value value => exact later
    | node node below => exact later

theorem depictsList_cons {child : AstObject} {children : List AstObject}
    {trees later : List ConfigTree} (first : DepictsList needAlign hash [child] trees)
    (behind : DepictsList needAlign hash children later) :
    DepictsList needAlign hash (child :: children) (trees ++ later) := by
  cases child with
  | leaf leaf =>
    obtain rfl : trees = [] := first
    exact behind
  | node node below =>
    obtain ⟨tree, more, rfl, depicts, none⟩ := first
    obtain rfl : more = [] := none
    exact ⟨tree, later, rfl, depicts, behind⟩

/-- What is built of an object stands for it. -/
def BuiltAsIs (needAlign : Bool) (hash : ℕ → UInt32) (treeStart : Bytes) (object : AstObject) :
    Prop :=
  ∀ o rest, treeStart.drop o = encode needAlign hash object ++ rest →
    (∀ l ∈ object.labels, Label.Loadable l) → Hashed needAlign hash o object →
    DepictsList needAlign hash [object] (built needAlign hash treeStart o object)

theorem depicts_builtList {children : List AstObject}
    (each : ∀ c ∈ children, BuiltAsIs needAlign hash treeStart c)
    (here : treeStart.drop o = encodeList needAlign hash children ++ rest)
    (loadable : ∀ l ∈ children.flatMap Tree.labels, Label.Loadable l)
    (hashed : ∀ m ∈ marksList needAlign (.ofNat o + .ofNat hbcHeaderLength) children,
      hash m.1 = m.2) :
    DepictsList needAlign hash children (builtList needAlign hash treeStart o children) := by
  induction children generalizing o with
  | nil => exact rfl
  | cons child children ih =>
    rw [List.flatMap_cons, List.forall_mem_append] at loadable
    rw [marksList, List.forall_mem_append] at hashed
    rw [encodeList, List.append_assoc] at here
    have shift : (UInt32.ofNat o + .ofNat hbcHeaderLength) + getSize needAlign child =
        .ofNat (o + (encode needAlign hash child).length) + .ofNat hbcHeaderLength := by
      rw [UInt32.ofNat_add, ← getSize_eq]
      ac_rfl
    rw [shift] at hashed
    rw [builtList]
    exact depictsList_cons (each child List.mem_cons_self o _ here loadable.1 hashed.1)
      (ih (fun c member => each c (List.mem_cons_of_mem _ member))
        (by rw [← List.drop_drop, here, List.drop_left]) loadable.2 hashed.2)

theorem depicts_built (object : AstObject) : BuiltAsIs needAlign hash treeStart object := by
  induction object using Tree.induct with
  | leaf leaf => exact fun o rest here loadable hashed => rfl
  | node node children ih =>
    intro o rest here loadable hashed
    rw [Tree.labels_node, List.forall_mem_cons] at loadable
    rw [encode, List.append_assoc] at here
    rw [Hashed, ByteCodeGen.marks, List.forall_mem_cons] at hashed
    have text : Text node.name := loadable.1
    have behind : treeStart.drop (behindHeader needAlign o node children) =
        encodeList needAlign hash children ++ rest := by
      rw [behindHeader, ← List.drop_drop, here, List.drop_left]
    have shift : (UInt32.ofNat o + .ofNat hbcHeaderLength) +
        ownSize needAlign .confNode node.name =
        .ofNat (behindHeader needAlign o node children) + .ofNat hbcHeaderLength := by
      rw [behindHeader, UInt32.ofNat_add, ← nodeHeader_size]
      ac_rfl
    rw [shift] at hashed
    refine ⟨_, [], rfl, ⟨?_, hashed.1.symm, ?_, ?_⟩, rfl⟩
    · rw [nodeFields]
      dsimp only
      rw [← List.drop_drop, here, nodeHeader, List.append_assoc, drop_opField, List.append_assoc]
      exact begins_stringField text _
    · exact List.rel_reverse (attrOf_attrsOf behind loadable.2)
    · exact depicts_builtList ih behind loadable.2 hashed.2

/-! ### Whole blobs -/

theorem hcsDecompile_depicts {node : ConfigNode} {children : List AstObject} {header : Bytes}
    (length : header.length = hbcHeaderLength)
    (loadable : ∀ l ∈ (Tree.node node children : AstObject).labels, Label.Loadable l)
    (counted : ∀ l ∈ (Tree.node node children : AstObject).labels, Label.Counted l)
    (hashed : Hashed needAlign hash 0 (.node node children))
    (short : (encode needAlign hash (.node node children)).length ≤ hbcBlobMaxLength)
    (shallow : levels (.node node children) < treeStackMax) :
    ∃ config : ConfigTree,
      hcsDecompile needAlign (header ++ encode needAlign hash (.node node children))
        hbcHeaderLength = some (some (.node none [config.mapNodes some], [0])) ∧
      Depicts needAlign hash (.node node children) config := by
  have here : (encode needAlign hash (.node node children)).drop 0 =
      encode needAlign hash (.node node children) ++ [] := by simp
  obtain ⟨config, more, built, depicts, alone⟩ := depicts_built _ 0 [] here loadable hashed
  obtain rfl : more = [] := alone
  refine ⟨config, ?_, depicts⟩
  rw [(hcsDecompile_encode length loadable short).1 ⟨shallow, counted⟩, builtRoot, built]
  rfl

end

/-- The loader accepts a blob and builds a tree of it. -/
def LoadsAs (stale : Bool) (blob : Bytes) (length : UInt32) (byteAlign : Bool)
    (config : ConfigTree) : Prop :=
  hcsCheckBlobFormat stale blob length = some (true, byteAlign) ∧
    hcsDecompile byteAlign blob hbcHeaderLength =
      some (some (.node none [config.mapNodes some], [0]))

/-- A source is compiled to a file that keeps to the limits of the loader. After a padded blob, the
loader asks for the least length of padded ones. -/
structure Deployed (fs : FileSystem) (main : HcGen.Bytes) (tree : AstObject)
    (needAlign stale : Bool) (file : Bytes) (length : UInt32) : Prop where
  compiled : ∃ root, Parses fs main root ∧ ByteCodeGen.output needAlign root = some file ∧
    convert root = some (some tree)
  loadable : ∀ l ∈ tree.labels, Label.Loadable l
  counted : ∀ l ∈ tree.labels, Label.Counted l
  shallow : levels tree < treeStackMax
  short : file.length ≤ hbcBlobMaxLength
  whole : length.toNat = file.length
  old : stale = true → 36 ≤ file.length

section

variable {fs : FileSystem} {main : HcGen.Bytes} {tree : AstObject} {needAlign stale : Bool}
  {file : Bytes} {length : UInt32}

theorem Deployed.nodup (deployed : Deployed fs main tree needAlign stale file length) :
    (nodeUids tree).Nodup := by
  obtain ⟨root, parses, -, left⟩ := deployed.compiled
  exact convert_nodup left parses.nodup

theorem Deployed.file_eq (deployed : Deployed fs main tree needAlign stale file length) :
    file = hcbHeader needAlign tree ++ encode needAlign (hashes needAlign tree) tree := by
  obtain ⟨root, parses, compiled, left⟩ := deployed.compiled
  obtain ⟨tree', converted, _, written⟩ := output_spec compiled
  obtain rfl : tree' = tree := Option.some.inj (Option.some.inj (converted.symm.trans left))
  exact written deployed.nodup

/-- Every reference of the tree leads to a node of it. -/
theorem Deployed.resolved (deployed : Deployed fs main tree needAlign stale file length) :
    ∀ l ∈ tree.labels, Resolved (fun uid => decide (uid ∈ nodeUids tree)) l := by
  obtain ⟨root, parses, compiled, left⟩ := deployed.compiled
  obtain ⟨tree', converted, resolved, -⟩ := output_spec compiled
  obtain rfl : tree' = tree := Option.some.inj (Option.some.inj (converted.symm.trans left))
  exact resolved

theorem length_hcbHeader (tree : AstObject) :
    (hcbHeader needAlign tree).length = hbcHeaderLength := by
  simp [hcbHeader, hbcHeaderLength]

/-- The records of the tree are not longer than the file. -/
theorem Deployed.length_encode_le (deployed : Deployed fs main tree needAlign stale file length) :
    hbcHeaderLength + (encode needAlign (hashes needAlign tree) tree).length ≤
      hbcBlobMaxLength := by
  have short := deployed.short
  rw [deployed.file_eq, List.length_append, length_hcbHeader] at short
  exact short

/-- A compiled source within the limits of the loader is loaded as a tree that depicts it. -/
theorem Deployed.loads (deployed : Deployed fs main tree needAlign stale file length) :
    ∃ config, LoadsAs stale file length needAlign config ∧
      Depicts needAlign (hashes needAlign tree) tree config := by
  have unique := deployed.nodup
  have small := deployed.length_encode_le
  obtain ⟨root, parses, -, left⟩ := deployed.compiled
  obtain @⟨node, children, named, noref⟩ := parses.namedRoot
  obtain ⟨below, _, same⟩ := convert_root noref left
  obtain rfl := Option.some.inj same
  have hashed : Hashed needAlign (hashes needAlign (.node node below)) 0 (.node node below) :=
    fun m member => hashes_of_mark unique member
  obtain ⟨config, built, depicts⟩ := hcsDecompile_depicts (length_hcbHeader (.node node below))
    deployed.loadable deployed.counted hashed (by omega) deployed.shallow
  refine ⟨config, ⟨?_, ?_⟩, depicts⟩
  · rw [hcsCheckBlobFormat_file named deployed.file_eq deployed.whole deployed.old,
      if_pos deployed.short]
  · rw [deployed.file_eq]
    exact built

end

/-! ### Examples -/

/-- A node that refers to the next one. -/
def linkedSource : FileSystem :=
  .files [(ascii "/main", ascii
    "root \x7b module = \"m\"; a \x7b v = [1, 2]; to = &root.b; \x7d b \x7b v = 7; \x7d \x7d")]

instance : (l : Label) → Decidable (Label.Counted l)
  | .inr (.term { value := .array _ _ _, .. }) => inferInstanceAs (Decidable (_ < _))
  | .inr (.term { value := .datum _, .. }) => .isTrue trivial
  | .inr (.term { value := .nodeRef _, .. }) => .isTrue trivial
  | .inr (.term { value := .delete, .. }) => .isTrue trivial
  | .inr (.value _) => .isTrue trivial
  | .inl _ => .isTrue trivial

/-- A root that is left as it is keeps to the limits of the loader. -/
def withinLimits (needAlign : Bool) (root : AstObject) : Bool :=
  decide ((∀ l ∈ root.labels, Label.Loadable l ∧ Label.Counted l) ∧ NoTemplates root ∧
    levels root < treeStackMax) &&
    match ByteCodeGen.output needAlign root with
    | none => false
    | some file => decide (36 ≤ file.length ∧ file.length ≤ hbcBlobMaxLength)

theorem exists_deployed {fs : FileSystem} {main : HcGen.Bytes} {needAlign : Bool}
    {more : AstObject → Bool} {steps : ℕ}
    (evaluated : expansionPasses fs main (fun _ => true)
      (fun root => withinLimits needAlign root && more root) steps = true) :
    ∃ tree file length, Deployed fs main tree needAlign true file length ∧ more tree = true := by
  obtain ⟨ast, fresh, root, merged, expands, -, test⟩ := exists_expansion evaluated
  rw [withinLimits, Bool.and_eq_true, Bool.and_eq_true, decide_eq_true_iff] at test
  obtain ⟨⟨⟨labels, plain, shallow⟩, test⟩, more⟩ := test
  split at test
  case h_1 => cases test
  case h_2 file compiled =>
    obtain ⟨old, short⟩ := of_decide_eq_true test
    obtain ⟨tree, converted, -, -⟩ := output_spec compiled
    obtain rfl : tree = root := Option.some.inj (convert_eq_self plain converted)
    have max : hbcBlobMaxLength = 10485760 := rfl
    refine ⟨tree, file, .ofNat file.length, ?_, more⟩
    exact
      { compiled := ⟨tree, ⟨ast, fresh, merged, expands⟩, compiled, converted⟩
        loadable := fun l member => (labels l member).1
        counted := fun l member => (labels l member).2
        shallow := shallow
        short := short
        whole := by rw [UInt32.toNat_ofNat', Nat.mod_eq_of_lt (by omega)]
        old := fun _ => old }

end Hdf.HcsParser
