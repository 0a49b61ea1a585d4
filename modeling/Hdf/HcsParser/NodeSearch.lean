import Hdf.HcsParser.ReadBack

/-!
# Finding nodes of a loaded configuration

A reference holds the offset of the record of its node in the file, which is the hash of the node
in the loaded tree. Offsets differ from node to node, so the search for a hash ends at the node that
the reference was resolved to. The search for a child ends at the first one of its name.

## Main results

* `marks_spread`: different nodes have different hashes
* `refLoop_eq_find`: the search for a hash
* `compiled_reference`, `compiled_children`: references and children are those of the source
-/

namespace Hdf.HcsParser

open Hdf.Core (HdfStatus)
open HcGen HcGen.ByteCodeGen HcGen.Decompile

section

variable {needAlign : Bool} {hash : ℕ → UInt32}

/-! ### Hashes -/

/-- The hashes of nodes within a range of offsets, from node to node further on. -/
def Spread (lo hi : ℕ) (ms : List (ℕ × UInt32)) : Prop :=
  (∀ m ∈ ms, lo ≤ m.2.toNat ∧ m.2.toNat < hi) ∧ ms.Pairwise fun m m' => m.2.toNat < m'.2.toNat

theorem Spread.append {lo mid hi : ℕ} {ms ms' : List (ℕ × UInt32)} (first : Spread lo mid ms)
    (second : Spread mid hi ms') (le : lo ≤ mid) (le' : mid ≤ hi) : Spread lo hi (ms ++ ms') := by
  refine ⟨List.forall_mem_append.mpr ⟨fun m member => ?_, fun m member => ?_⟩,
    List.pairwise_append.mpr ⟨first.2, second.2, fun m member m' member' => ?_⟩⟩
  · have within := first.1 m member
    omega
  · have within := second.1 m member
    omega
  · have within := first.1 m member
    have within' := second.1 m' member'
    omega

theorem toNat_add_ofNat {at_ : UInt32} {n : ℕ} (short : at_.toNat + n < 2 ^ 32) :
    (at_ + .ofNat n).toNat = at_.toNat + n := by
  rw [UInt32.toNat_add, UInt32.toNat_ofNat', Nat.add_mod_mod, Nat.mod_eq_of_lt short]

theorem marksList_spread {children : List AstObject}
    (each : ∀ c ∈ children, ∀ at_ : UInt32,
      at_.toNat + (encode needAlign hash c).length < 2 ^ 32 →
        Spread at_.toNat (at_.toNat + (encode needAlign hash c).length)
          (ByteCodeGen.marks needAlign at_ c))
    (at_ : UInt32) (short : at_.toNat + (encodeList needAlign hash children).length < 2 ^ 32) :
    Spread at_.toNat (at_.toNat + (encodeList needAlign hash children).length)
      (marksList needAlign at_ children) := by
  induction children generalizing at_ with
  | nil => exact ⟨by simp [marksList], by simp [marksList]⟩
  | cons child rest ih =>
    rw [encodeList, List.length_append] at short ⊢
    have next : (at_ + .ofNat (encode needAlign hash child).length).toNat = _ :=
      toNat_add_ofNat (by omega)
    have size : getSize needAlign child = .ofNat (encode needAlign hash child).length :=
      getSize_eq child
    rw [marksList, size]
    have later := ih (fun c member => each c (List.mem_cons_of_mem _ member))
      (at_ + .ofNat (encode needAlign hash child).length) (by omega)
    rw [next, Nat.add_assoc] at later
    exact (each child List.mem_cons_self at_ (by omega)).append later (by omega) (by omega)

/-- The nodes of an object have different hashes, as long as offsets fit 32 bits. -/
theorem marks_spread (object : AstObject) (at_ : UInt32)
    (short : at_.toNat + (encode needAlign hash object).length < 2 ^ 32) :
    Spread at_.toNat (at_.toNat + (encode needAlign hash object).length)
      (ByteCodeGen.marks needAlign at_ object) := by
  induction object using Tree.induct generalizing at_ with
  | leaf leaf => exact ⟨by simp [ByteCodeGen.marks], by simp [ByteCodeGen.marks]⟩
  | node node children ih =>
    rw [encode, List.length_append] at short ⊢
    have header : 0 < (nodeHeader needAlign node.name (getSubSize needAlign children)).length :=
      nodeHeader_pos _ _
    rw [ByteCodeGen.marks, nodeHeader_size node.name (getSubSize needAlign children)]
    generalize (nodeHeader needAlign node.name (getSubSize needAlign children)).length = n at *
    have next : (at_ + .ofNat n).toNat = _ := toNat_add_ofNat (by omega)
    have later := marksList_spread ih (at_ + .ofNat n) (by omega)
    rw [next, Nat.add_assoc] at later
    have own : Spread at_.toNat (at_.toNat + n) [(node.uid, at_)] :=
      ⟨by simpa using header, List.pairwise_singleton _ _⟩
    exact own.append later (by omega) (by omega)

theorem Deployed.hashes_inj {fs : FileSystem} {main : HcGen.Bytes} {tree : AstObject}
    {stale : Bool} {file : Bytes} {length : UInt32}
    (deployed : Deployed fs main tree needAlign stale file length) {uid uid' : ℕ}
    (member : uid ∈ nodeUids tree) (member' : uid' ∈ nodeUids tree)
    (same : hashes needAlign tree uid = hashes needAlign tree uid') : uid = uid' := by
  have short := deployed.length_encode_le
  rw [hbcBlobMaxLength] at short
  have size : (UInt32.ofNat hcbHeaderSize).toNat = hbcHeaderLength := rfl
  have spread : Spread _ _ (ByteCodeGen.marks needAlign (.ofNat hcbHeaderSize) tree) :=
    marks_spread tree (.ofNat hcbHeaderSize)
      (show (UInt32.ofNat hcbHeaderSize).toNat +
        (encode needAlign (hashes needAlign tree) tree).length < _ by omega)
  have uids : (ByteCodeGen.marks needAlign (.ofNat hcbHeaderSize) tree).map Prod.fst =
      nodeUids tree := marks_uids tree _
  rw [← uids, List.mem_map] at member member'
  obtain ⟨m, there, rfl⟩ := member
  obtain ⟨m', there', rfl⟩ := member'
  rw [hashes_of_mark deployed.nodup there, hashes_of_mark deployed.nodup there'] at same
  have apart : ((ByteCodeGen.marks needAlign (.ofNat hcbHeaderSize) tree).map
      fun m => m.2.toNat).Nodup := List.pairwise_map.mpr (spread.2.imp fun less => less.ne)
  exact congrArg Prod.fst (List.inj_on_of_nodup_map apart there there' (congrArg _ same))

/-! ### The search for a hash -/

/-- The search goes through the positions that the walk comes through. -/
theorem refLoop_eq_find {config : ConfigTree} {attrValue : UInt32} {p : Option NodePtr}
    {positions : List NodePtr} (visits : config.Visits p positions)
    (there : ∀ q ∈ positions, ∃ n, nodeAt config q = some n) {rounds : ℕ}
    (enough : positions.length < rounds) :
    refLoop config attrValue rounds p = some (positions.find? fun q =>
      (nodeAt config q).any fun n => decide (n.hashValue = attrValue)) := by
  induction visits generalizing rounds with
  | stop =>
    obtain ⟨rounds, rfl⟩ := Nat.exists_eq_add_one.mpr (Nat.zero_lt_of_lt enough)
    rfl
  | @visit p rest next ih =>
    obtain ⟨rounds, rfl⟩ := Nat.exists_eq_add_one.mpr (Nat.zero_lt_of_lt enough)
    rw [List.forall_mem_cons] at there
    obtain ⟨n, here⟩ := there.1
    have later := ih there.2 (Nat.lt_of_succ_lt_succ enough)
    rw [refLoop, here, Option.bind_some]
    by_cases same : n.hashValue = attrValue
    · rw [if_pos same, List.find?_cons_of_pos (by simpa [here] using same)]
    · rw [if_neg same, List.find?_cons_of_neg (by simpa [here] using same), ← later]
      rfl

variable {tree : AstObject} {config : ConfigTree}

theorem objectAt_append (q : NodePtr) (i : ℕ) :
    objectAt tree (q ++ [i]) =
      ((nodesOf tree.children)[i]?).bind fun child => objectAt child q := by
  induction q with
  | nil =>
    change ((nodesOf tree.children)[i]?) = _
    cases (nodesOf tree.children)[i]? <;> rfl
  | cons j q ih => rw [List.cons_append, objectAt, ih, Option.bind_assoc]; rfl

/-- Every node of the source is at a position. -/
theorem exists_objectAt {node : ConfigNode} (member : .inl node ∈ tree.labels) :
    ∃ q below, objectAt tree q = some (.node node below) := by
  induction tree using Tree.induct with
  | leaf leaf => simp at member
  | node top children ih =>
    rw [Tree.labels_node, List.mem_cons, List.mem_flatMap] at member
    obtain same | ⟨child, among, member⟩ := member
    · obtain rfl := Sum.inl.inj same
      exact ⟨[], children, rfl⟩
    · obtain ⟨q, below, there⟩ := ih child among member
      have is : ∃ node below, child = .node node below := by
        cases child with
        | leaf leaf => simp at member
        | node node below => exact ⟨node, below, rfl⟩
      obtain ⟨i, child?⟩ := List.mem_iff_getElem?.mp (mem_nodesOf_iff.mpr ⟨among, is⟩)
      refine ⟨q ++ [i], below, ?_⟩
      rw [objectAt_append, Tree.children_node, child?]
      exact there

theorem mem_nodeUids_iff {uid : ℕ} :
    uid ∈ nodeUids tree ↔ ∃ node, .inl node ∈ tree.labels ∧ node.uid = uid := by
  rw [nodeUids, List.mem_filterMap]
  constructor
  · rintro ⟨l, member, eq⟩
    cases l with
    | inl node => exact ⟨node, member, Option.some.inj eq⟩
    | inr leaf => cases eq
  · rintro ⟨node, member, rfl⟩
    exact ⟨_, member, rfl⟩

/-- The loaded node at a position has the hash of the node of the source that is there. -/
theorem nodeAt_of_objectAt (depicts : Depicts needAlign hash tree config) {q : NodePtr}
    {node : ConfigNode} {below : List AstObject}
    (there : objectAt tree q = some (.node node below)) :
    ∃ n, nodeAt config q = some n ∧ n.hashValue = hash node.uid := by
  have rel := depicts_at depicts q
  rw [there] at rel
  generalize eq : config.get? q = loaded at rel
  cases rel with
  | @some _ loaded depicts =>
    cases loaded with
    | leaf e => exact e.elim
    | node n trees => exact ⟨n, by rw [nodeAt, Tree.label?, eq]; rfl, depicts.2.1⟩

theorem objectAt_of_get? (depicts : Depicts needAlign hash tree config) {q : NodePtr}
    {loaded : ConfigTree} (there : config.get? q = some loaded) :
    ∃ node below, objectAt tree q = some (.node node below) := by
  have rel := depicts_at depicts q
  rw [there] at rel
  generalize objectAt tree q = object at rel
  cases rel with
  | @some object _ depicts =>
    cases object with
    | leaf leaf => exact depicts.elim
    | node node below => exact ⟨node, below, rfl⟩

/-- The search for the hash of a node of the source ends at that node. -/
theorem refLoop_of_depicts (depicts : Depicts needAlign hash tree config)
    (distinct : ∀ uid ∈ nodeUids tree, ∀ uid' ∈ nodeUids tree, hash uid = hash uid' → uid = uid')
    {uid : ℕ} (alive : uid ∈ nodeUids tree) :
    ∃ q target below,
      refLoop config (hash uid) (config.labels.length + 1) (some []) = some (some q) ∧
      objectAt tree q = some (.node target below) ∧ target.uid = uid := by
  have all : ∀ q ∈ config.preorder [] ++ config.after [],
      ∃ node below, objectAt tree q = some (.node node below) := by
    intro q member
    rw [Tree.after, List.append_nil] at member
    obtain ⟨r, loaded, rfl, there⟩ := Tree.mem_preorder_iff.mp member
    rw [List.append_nil]
    exact objectAt_of_get? depicts there
  have known : ∀ q ∈ config.preorder [] ++ config.after [], ∃ n, nodeAt config q = some n := by
    intro q member
    obtain ⟨node, below, there⟩ := all q member
    obtain ⟨n, here, -⟩ := nodeAt_of_objectAt depicts there
    exact ⟨n, here⟩
  have searched : refLoop config (hash uid) (config.labels.length + 1) (some []) = _ :=
    refLoop_eq_find (Tree.visits_preorder_append_after rfl) known
      (Nat.lt_succ_of_le (Tree.length_preorder_append_after_le rfl))
  obtain ⟨node, member, rfl⟩ := mem_nodeUids_iff.mp alive
  obtain ⟨q, below, there⟩ := exists_objectAt member
  obtain ⟨n, here, hashed⟩ := nodeAt_of_objectAt depicts there
  rw [searched]
  -- the node itself would be found
  cases found : (config.preorder [] ++ config.after []).find? _ with
  | none =>
    have visited : q ∈ config.preorder [] ++ config.after [] := by
      have rel := depicts_at depicts q
      rw [there] at rel
      generalize eq : config.get? q = loaded at rel
      cases rel with
      | @some _ loaded depicts =>
        exact List.mem_append_left _ (Tree.mem_preorder_iff.mpr ⟨q, loaded, by simp, eq⟩)
    have missed := List.find?_eq_none.mp found q visited
    rw [here] at missed
    exact absurd hashed (by simpa using missed)
  | some q' =>
    obtain ⟨target, below', there'⟩ := all q' (List.mem_of_find?_eq_some found)
    obtain ⟨n', here', hashed'⟩ := nodeAt_of_objectAt depicts there'
    have same := List.find?_some found
    rw [here'] at same
    have same : n'.hashValue = hash node.uid := by simpa using same
    refine ⟨q', target, below', rfl, there', ?_⟩
    exact distinct _ (mem_nodeUids_iff.mpr ⟨target, mem_labels_of_objectAt there' _ (by simp), rfl⟩)
      _ alive (hashed'.symm.trans same)

/-- A node that is found is the one that a term refers to, and no node is found without a
reference. -/
def RefersTo (tree : AstObject) (term : Option ConfigTerm) : Option NodePtr → Prop
  | none => ∀ t ∈ term, ∀ path, t.value ≠ .nodeRef path
  | some q => ∃ t path target below, term = some t ∧ t.value = .nodeRef path ∧
      objectAt tree q = some (.node target below) ∧ t.refNode = some target.uid

theorem opCode_ne_reference {value : Value} (other : ∀ path, value ≠ .nodeRef path) :
    (toOpCode value.type).opCode.toUInt32 ≠ configReference := by
  intro same
  have type : value.type = .nodeRef := opCode_inj same
  cases value with
  | nodeRef path => exact other path rfl
  | datum d => cases d <;> cases type
  | _ => cases type

theorem hcsGetNodeByRefAttr_eq (depicts : Depicts needAlign hash tree config)
    (distinct : ∀ uid ∈ nodeUids tree, ∀ uid' ∈ nodeUids tree, hash uid = hash uid' → uid = uid')
    {n : DeviceResourceNode} {attrName : Bytes} {found : Option DeviceResourceAttr}
    {term : Option ConfigTerm} (searched : getAttrInNode n attrName = some found)
    (rel : Option.Rel (AttrOf needAlign hash) found term)
    (resolved : ∀ t ∈ term, Resolved (fun uid => decide (uid ∈ nodeUids tree)) (.inr (.term t))) :
    ∃ got, hcsGetNodeByRefAttr needAlign config n attrName = some got ∧ RefersTo tree term got := by
  rw [hcsGetNodeByRefAttr, searched, Option.bind_some]
  cases rel with
  | none => exact ⟨none, rfl, fun t member => nomatch member⟩
  | @some attr term attrOf =>
    obtain ⟨rest, value⟩ := attrOf.value
    rw [Option.elim_some, ← value, hcsGetPrefix_value, Option.bind_some]
    by_cases reference : ∃ path, term.value = .nodeRef path
    · obtain ⟨path, reference⟩ := reference
      obtain ⟨uid, refNode, alive⟩ : ∃ uid, term.refNode = some uid ∧ uid ∈ nodeUids tree := by
        obtain ⟨name, refNode, held⟩ := term
        obtain rfl : held = .nodeRef path := reference
        obtain ⟨uid, eq, alive⟩ := resolved _ rfl
        exact ⟨uid, eq, of_decide_eq_true alive⟩
      obtain ⟨q, target, below, ended, there, rfl⟩ := refLoop_of_depicts depicts distinct alive
      have own : ¬ (toOpCode term.value.type).opCode.toUInt32 ≠ configReference := by
        rw [reference]
        exact not_not.mpr rfl
      have word : refWord hash (some term) = hash target.uid := by
        rw [refWord, Option.bind_some, refNode]
        rfl
      have read : hcsSwapToUint32 needAlign ((encodeValue needAlign hash (some term) term.value ++
          rest).drop (hcsPrefixLength needAlign)) configDword = some (some (hash target.uid)) := by
        rw [reference, encodeValue, List.append_assoc, drop_opField, hcsSwapToUint32, if_pos rfl,
          word, hcsByteCodeToUint32_word]
        rfl
      rw [if_neg own, read, Option.bind_some, Option.bind_some, ended]
      exact ⟨some q, rfl, term, path, target, below, rfl, reference, there, refNode⟩
    · rw [not_exists] at reference
      rw [if_pos (opCode_ne_reference reference)]
      refine ⟨none, rfl, fun t member => ?_⟩
      obtain rfl := Option.some.inj member
      exact reference

end

/-! ### Children -/

section

variable {needAlign : Bool} {hash : ℕ → UInt32} {tree : AstObject} {config : ConfigTree}
  {nodeName : Bytes}

theorem childLoop_eq {objects : List AstObject} {trees : List ConfigTree}
    (each : List.Forall₂ (Depicts needAlign hash) objects trees)
    (noZero : ∀ object ∈ objects, ∀ node, .inl node ∈ object.labels → 0 ∉ node.name)
    (plain : 0 ∉ nodeName) (p : NodePtr) (i : ℕ) :
    childLoop nodeName p i trees =
      some ((objects.findIdx? (hasName nodeName)).map fun k => (i + k) :: p) := by
  induction each generalizing i with
  | nil => rfl
  | @cons object tree objects trees first later ih =>
    rw [List.forall_mem_cons] at noZero
    cases object with
    | leaf leaf => exact first.elim
    | node node below =>
      cases tree with
      | leaf e => exact first.elim
      | node n subtrees =>
        obtain ⟨begins, -⟩ := first
        rw [childLoop, strcmpEq_of_begins begins (noZero.1 node (by simp)) plain, Option.bind_some,
          List.findIdx?_cons, hasName, ih noZero.2]
        by_cases same : node.name = nodeName
        · rw [decide_eq_true same, if_pos rfl, if_pos rfl, Option.map_some, Nat.add_zero]
        · rw [decide_eq_false same, if_neg Bool.false_ne_true, if_neg Bool.false_ne_true,
            Option.map_map]
          congr 2
          funext k
          exact congrArg (· :: p) (Nat.add_right_comm i 1 k)

/-- The child that is found is the first node of the name in the source. -/
theorem hcsGetChildNode_eq (depicts : Depicts needAlign hash tree config)
    (loadable : ∀ l ∈ tree.labels, Label.Loadable l) {p : NodePtr} {node : ConfigNode}
    {children : List AstObject} (here : objectAt tree p = some (.node node children))
    (plain : 0 ∉ nodeName) :
    hcsGetChildNode config p nodeName =
      some (((nodesOf children).findIdx? (hasName nodeName)).map (· :: p)) := by
  have rel := depicts_at depicts p
  rw [here] at rel
  generalize eq : config.get? p = there at rel
  cases rel with
  | @some _ there depicts =>
    cases there with
    | leaf e => exact depicts.elim
    | node n trees =>
      obtain ⟨-, -, -, below⟩ := depicts
      have noZero : ∀ object ∈ nodesOf children, ∀ node, .inl node ∈ object.labels →
          0 ∉ node.name := by
        intro object member node inside
        have own : Label.Loadable (.inl node) := by
          apply loadable
          apply mem_labels_of_objectAt here
          rw [Tree.labels_node]
          exact List.mem_cons_of_mem _
            (List.mem_flatMap.mpr ⟨object, (mem_nodesOf_iff.mp member).1, inside⟩)
        exact own.1
      rw [hcsGetChildNode, Tree.childrenAt_of_get? eq, Tree.children_node,
        childLoop_eq (depictsList_iff.mp below) noZero plain]
      congr 2
      funext k
      rw [Nat.zero_add]

end

section

variable {fs : FileSystem} {main : HcGen.Bytes} {tree : AstObject} {needAlign stale : Bool}
  {file : Bytes} {length : UInt32}

/-- The loaded nodes are those of the source, and a child is found by its name exactly when the
source has one, which is then the first one. -/
theorem compiled_children (deployed : Deployed fs main tree needAlign stale file length) :
    ∃ config, LoadsAs stale file length needAlign config ∧
      (∀ p, (nodeAt config p).isSome = (objectAt tree p).isSome) ∧
      ∀ p node children nodeName, objectAt tree p = some (.node node children) → 0 ∉ nodeName →
        hcsGetChildNode config p nodeName =
          some (((nodesOf children).findIdx? (hasName nodeName)).map (· :: p)) := by
  obtain ⟨config, loads, depicts⟩ := deployed.loads
  refine ⟨config, loads, fun p => ?_, fun p node children nodeName here plain =>
    hcsGetChildNode_eq depicts deployed.loadable here plain⟩
  have rel := depicts_at depicts p
  cases there : config.get? p with
  | none =>
    rw [there] at rel
    rw [nodeAt, Tree.label?, there]
    generalize objectAt tree p = object at rel
    cases rel
    rfl
  | some loaded =>
    obtain ⟨node, below, here⟩ := objectAt_of_get? depicts there
    obtain ⟨n, found, -⟩ := nodeAt_of_objectAt depicts here
    rw [found, here]
    rfl

/-- A reference that is compiled and loaded leads to the node that it was resolved to, wherever both
are, and what is no reference leads nowhere. -/
theorem compiled_reference (deployed : Deployed fs main tree needAlign stale file length) :
    ∃ config, LoadsAs stale file length needAlign config ∧
      ∀ p node children attrName, objectAt tree p = some (.node node children) → 0 ∉ attrName →
        ∃ n got, nodeAt config p = some n ∧
          hcsGetNodeByRefAttr needAlign config n attrName = some got ∧
          RefersTo tree (lastTerm attrName children) got := by
  obtain ⟨config, loads, depicts⟩ := deployed.loads
  refine ⟨config, loads, fun p node children attrName here plain => ?_⟩
  obtain ⟨n, found, there, searched, rel⟩ :=
    getAttrInNode_of_depicts depicts deployed.loadable here plain
  have resolved : ∀ t ∈ lastTerm attrName children,
      Resolved (fun uid => decide (uid ∈ nodeUids tree)) (.inr (.term t)) := fun t last =>
    deployed.resolved _ (mem_labels_of_objectAt here _
      (mem_labels_of_termsOf (mem_termsOf_of_lastTerm last)))
  obtain ⟨got, ended, refers⟩ := hcsGetNodeByRefAttr_eq depicts
    (fun uid member uid' member' => deployed.hashes_inj member member') searched rel resolved
  exact ⟨n, got, there, ended, refers⟩

end

/-- The first node of the example refers to another one. -/
theorem linked_reference : ∃ tree file length config, LoadsAs true file length true config ∧
    ∃ node children n q, objectAt tree [0] = some (.node node children) ∧
      nodeAt config [0] = some n ∧
      hcsGetNodeByRefAttr true config n (ascii "to") = some (some q) ∧
      RefersTo tree (lastTerm (ascii "to") children) (some q) := by
  obtain ⟨tree, file, length, deployed, refers⟩ := exists_linked
  obtain ⟨node, children, term, here, last, type⟩ := refersFirst_sound refers
  obtain ⟨config, loads, reads⟩ := compiled_reference deployed
  obtain ⟨n, got, there, ended, leads⟩ := reads [0] node children (ascii "to") here (by decide)
  refine ⟨tree, file, length, config, loads, node, children, n, ?_⟩
  cases got with
  | some q => exact ⟨q, here, there, ended, leads⟩
  | none =>
    have none : ∀ path, term.value ≠ .nodeRef path := leads term last
    generalize term.value = value at type none
    cases value with
    | nodeRef path => exact absurd rfl (none path)
    | datum d => cases d <;> cases type
    | _ => cases type

theorem linked_children : ∃ tree file length config, LoadsAs true file length true config ∧
    ∀ p, (nodeAt config p).isSome = (objectAt tree p).isSome := by
  obtain ⟨tree, file, length, deployed, -⟩ := exists_linked
  obtain ⟨config, loads, nodes, -⟩ := compiled_children deployed
  exact ⟨tree, file, length, config, loads, nodes⟩

end Hdf.HcsParser
