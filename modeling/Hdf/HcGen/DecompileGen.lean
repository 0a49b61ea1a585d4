import Hdf.HcGen.DecompileFile

/-!
# Paths of decompiled references

The decompiler prints a reference as the path of the node with a hash, which it
looks for from the root on: a child with the hash ends the search, a child whose
records are around the hash is searched next. The path that it returns has only
the last two names, so it is right for the children of the root and for no node
below them.

## Main definitions

* `getNodeRefPath`: `DecompileGen::GetNodeRefPath`
* `fullPath`: the names on the way to an object
* `Hit`, `OnTop`: what the search stops at, and the nodes it stops at first

## Main results

* `nodup_hashes`: the hashes in files of less than 2^32 bytes are different
* `getNodeRefPath_iff`: for which nodes the path is right
* `onTop_of_compiled`: for the children of the root the path is right
-/

namespace Hdf.HcGen

open Hdf.Tree hiding node leaf

/-- `AstObject::Name`. Objects without children have none. -/
def RebuiltNode.name : RebuiltNode → Bytes
  | confNode name _ _ => name
  | confTerm name => name
  | array => []

namespace DecompileGen

open Decompile ByteCodeGen

section Search

variable (value : UInt32)

mutual

/-- `DecompileGen::GetNodeRefPath`, from the round of its loop for an object on. -/
def getNodeRefPath : Rebuilt → Bytes
  | .leaf _ => []
  | .node node children => searchAmong (node.name ++ ascii ".") children

/-- The loop over the children of the object. -/
def searchAmong (refPath : Bytes) : List Rebuilt → Bytes
  | [] => []
  | child :: rest =>
    match child.label with
    | .inl (.confNode name size hash) =>
      if hash = value then refPath ++ name
      else if hash < value ∧ value < hash + size then getNodeRefPath child
      else searchAmong refPath rest
    | _ => searchAmong refPath rest

end

end Search

/-- The name of an object with a label. -/
def objectName : RebuiltNode ⊕ RebuiltLeaf → Bytes
  | .inl node => node.name
  | .inr _ => []

/-- The names on the way from the root to a position, separated by dots. -/
def fullPath (tree : Rebuilt) : Pos → Bytes
  | [] => objectName tree.label
  | i :: p => fullPath tree p ++ ascii "." ++ (tree.label? (i :: p)).elim [] objectName

/-- The search does not pass by a node with the value as hash or within its records. -/
def Hit (value : UInt32) (label : RebuiltNode ⊕ RebuiltLeaf) : Prop :=
  ∃ name size hash, label = .inl (.confNode name size hash) ∧
    (hash = value ∨ hash < value ∧ value < hash + size)

/-- A child of the root, before which the search passes by all children. -/
def OnTop (tree : Rebuilt) (value : UInt32) (p : Pos) : Prop :=
  ∃ k, p = [k] ∧ ∀ j < k, ∀ label, tree.label? [j] = some label → ¬ Hit value label

/-- The hash of a node. -/
def labelHash : RebuiltNode ⊕ RebuiltLeaf → Multiset UInt32
  | .inl (.confNode _ _ hash) => {hash}
  | _ => 0

/-! ### The search -/

section

variable {value : UInt32} {tree : Rebuilt}

theorem searchAmong_cons_of_hit {refPath name : Bytes} {size hash : UInt32} {child : Rebuilt}
    {rest : List Rebuilt} (label : child.label = .inl (.confNode name size hash))
    (around : hash = value ∨ hash < value ∧ value < hash + size) :
    searchAmong value refPath (child :: rest) =
      if hash = value then refPath ++ name else getNodeRefPath value child := by
  rw [searchAmong, label]
  dsimp only
  split
  · rfl
  · rw [if_pos (around.resolve_left ‹_›)]

theorem searchAmong_cons_of_not_hit {refPath : Bytes} {child : Rebuilt} {rest : List Rebuilt}
    (passed : ¬ Hit value child.label) :
    searchAmong value refPath (child :: rest) = searchAmong value refPath rest := by
  rw [searchAmong]
  split
  case h_1 name size hash label =>
    rw [if_neg, if_neg]
    · exact fun around => passed ⟨name, size, hash, label, .inr around⟩
    · exact fun same => passed ⟨name, size, hash, label, .inl same⟩
  case h_2 => rfl

/-- The first child that is hit decides. -/
theorem searchAmong_cases (value : UInt32) (refPath : Bytes) (children : List Rebuilt) :
    searchAmong value refPath children = [] ∨
      ∃ (j : ℕ) (child : Rebuilt) (name : Bytes) (size hash : UInt32), children[j]? = some child ∧
        child.label = .inl (.confNode name size hash) ∧
        (∀ i < j, ∀ c : Rebuilt, children[i]? = some c → ¬ Hit value c.label) ∧
        searchAmong value refPath children =
          if hash = value then refPath ++ name else getNodeRefPath value child := by
  induction children with
  | nil => exact .inl (by rw [searchAmong])
  | cons child rest ih =>
    by_cases hit : Hit value child.label
    · obtain ⟨name, size, hash, label, around⟩ := hit
      exact .inr ⟨0, child, name, size, hash, rfl, label,
        fun i less => absurd less (Nat.not_lt_zero i), searchAmong_cons_of_hit label around⟩
    · rw [searchAmong_cons_of_not_hit hit]
      refine ih.imp_right ?_
      rintro ⟨j, found, name, size, hash, there, label, before, result⟩
      refine ⟨j + 1, found, name, size, hash, there, label, fun i less c here => ?_, result⟩
      cases i with
      | zero =>
        obtain rfl : child = c := Option.some.inj here
        exact hit
      | succ i => exact before i (Nat.lt_of_succ_lt_succ less) c here

/-- A path that is found consists of the names of a node with the hash and of its parent. -/
theorem getNodeRefPath_sound (value : UInt32) (tree : Rebuilt) :
    getNodeRefPath value tree = [] ∨
      ∃ i p node name size, tree.label? p = some (.inl node) ∧
        tree.label? (i :: p) = some (.inl (.confNode name size value)) ∧
        getNodeRefPath value tree = node.name ++ ascii "." ++ name := by
  induction tree using Tree.induct with
  | leaf leaf => exact .inl (by rw [getNodeRefPath])
  | node node children ih =>
    rw [getNodeRefPath]
    rcases searchAmong_cases value (node.name ++ ascii ".") children with
      none | ⟨j, child, name, size, hash, there, label, _, result⟩
    · exact .inl none
    · have position : (Tree.node node children : Rebuilt).get? [j] = some child := by
        rw [get?_cons]
        exact there
      rw [result]
      by_cases same : hash = value
      · subst same
        rw [if_pos rfl]
        exact .inr ⟨j, [], node, name, size, rfl, by rw [label?_of_get? position, label], rfl⟩
      · rw [if_neg same]
        refine (ih child (List.mem_of_getElem? there)).imp_right ?_
        rintro ⟨i, p, parent, found, size', above, below, path⟩
        refine ⟨i, p ++ [j], parent, found, size', ?_, ?_, path⟩
        · rw [label?_append, position]
          exact above
        · rw [← List.cons_append, label?_append, position]
          exact below

theorem length_lt_fullPath (tree : Rebuilt) (i : ℕ) (p : Pos) :
    ((tree.label? (i :: p)).elim [] objectName).length < (fullPath tree (i :: p)).length := by
  have dot : (ascii ".").length = 1 := by decide
  rw [fullPath, List.length_append, List.length_append]
  omega

/-- When no node before has the hash or records around it, a child of the root is found. -/
theorem getNodeRefPath_of_onTop {p : Pos} {name : Bytes} {size : UInt32}
    (there : tree.label? p = some (.inl (.confNode name size value))) (top : OnTop tree value p) :
    getNodeRefPath value tree = fullPath tree p := by
  obtain ⟨k, rfl, passed⟩ := top
  obtain ⟨child, position, label⟩ := label?_eq_some.mp there
  obtain ⟨node, children, here, inside⟩ := exists_node_of_child position
  obtain rfl : tree = .node node children := Option.some.inj here
  have path : fullPath (.node node children) [k] = node.name ++ ascii "." ++ name := by
    rw [fullPath, fullPath, there]
    rfl
  rw [path, getNodeRefPath]
  -- the children before are passed by
  have along (done rest : List Rebuilt) (whole : children = done ++ rest) (le : done.length ≤ k) :
      searchAmong value (node.name ++ ascii ".") rest = node.name ++ ascii "." ++ name := by
    induction rest generalizing done with
    | nil =>
      have less := (List.getElem?_eq_some_iff.mp inside).1
      rw [whole, List.append_nil] at less
      omega
    | cons c rest ih =>
      have here : children[done.length]? = some c := by
        rw [whole, List.getElem?_append_right le_rfl, Nat.sub_self]
        rfl
      rcases le.eq_or_lt with eq | less
      · rw [eq, inside] at here
        obtain rfl : child = c := Option.some.inj here
        rw [searchAmong_cons_of_hit label (.inl rfl), if_pos rfl]
      · rw [searchAmong_cons_of_not_hit (passed done.length less c.label ?_)]
        · apply ih (done ++ [c])
          · rw [whole, List.append_assoc, List.singleton_append]
          · rwa [List.length_append, List.length_singleton]
        · rw [label?, get?_cons, get?_nil, Option.bind_some, children_node, here]
          rfl
  exact along [] children rfl (Nat.zero_le k)

/-- When hashes are different, no other node is found. -/
theorem onTop_of_getNodeRefPath {p : Pos} {name : Bytes} {size : UInt32} (below : p ≠ [])
    (unique : (weigh labelHash tree).Nodup)
    (there : tree.label? p = some (.inl (.confNode name size value)))
    (right : getNodeRefPath value tree = fullPath tree p) : OnTop tree value p := by
  have only {q : Pos} {name' : Bytes} {size' : UInt32}
      (here : tree.label? q = some (.inl (.confNode name' size' value))) : q = p :=
    position_eq_of_key unique here there (Multiset.mem_singleton_self value)
      (Multiset.mem_singleton_self value)
  obtain ⟨i, q, rfl⟩ := List.exists_cons_of_ne_nil below
  have long := length_lt_fullPath tree i q
  rcases getNodeRefPath_sound value tree with
    none | ⟨j, r, node, name', size', above, here, path⟩
  · rw [← right, none] at long
    exact absurd long (Nat.not_lt_zero _)
  · obtain ⟨rfl, rfl⟩ := List.cons.inj (only here)
    obtain ⟨rfl, _⟩ :=
      RebuiltNode.confNode.inj (Sum.inl.inj (Option.some.inj (here.symm.trans there)))
    -- with more than two names the path would be longer
    have parent : fullPath tree r = node.name := by
      rw [path, fullPath, here, List.append_assoc, List.append_assoc] at right
      exact (List.append_cancel_right right).symm
    obtain rfl : r = [] := by
      cases r with
      | nil => rfl
      | cons k r =>
        have longer := length_lt_fullPath tree k r
        rw [above, parent] at longer
        exact absurd longer (lt_irrefl _)
    refine ⟨j, rfl, ?_⟩
    obtain ⟨children, rfl⟩ : ∃ children, tree = .node node children := by
      cases tree with
      | leaf leaf => cases above
      | node top children => exact ⟨children, by cases above; rfl⟩
    have dot : ascii "." ≠ [] := by decide
    have nonempty : node.name ++ ascii "." ++ name' ≠ [] := by simp [dot]
    rw [getNodeRefPath] at path
    rcases searchAmong_cases value (node.name ++ ascii ".") children with
      none | ⟨k, child, name', size', hash, inside, label, passed, result⟩
    · exact absurd (path.symm.trans none) nonempty
    · have position : (Tree.node node children : Rebuilt).get? [k] = some child := by
        rw [get?_cons]
        exact inside
      by_cases same : hash = value
      · -- the node that is hit is the one looked for
        subst same
        have at_ := only ((label?_of_get? position).trans (congrArg some label))
        obtain rfl : k = j := List.singleton_inj.mp at_
        intro i less l there'
        obtain ⟨c, position', own⟩ := label?_eq_some.mp there'
        exact own ▸ passed i less c position'
      · -- nodes within the records of another child are further below
        rw [result, if_neg same] at path
        rcases getNodeRefPath_sound value child with
          none | ⟨i, q, _, _, size'', _, deeper, _⟩
        · exact absurd (path.symm.trans none) nonempty
        · have at_ := only (q := i :: q ++ [k]) (by
            rw [label?_append, position]
            exact deeper)
          simp at at_

end

/-! ### Hashes of rebuilt nodes -/

/-- Some hashes are the 32-bit words of different offsets in a range. -/
def Placed (lo hi : ℕ) (hashes : Multiset UInt32) : Prop :=
  ∃ offsets, Between lo hi offsets ∧ hashes = offsets.map UInt32.ofNat

/-- Reading moves on, over the same bytes. -/
structure Advances (i i' : Input) : Prop where
  le : i.offset ≤ i'.offset
  total : i'.offset + i'.rest.length = i.offset + i.rest.length

section

variable {lo mid hi : ℕ} {a b : Multiset UInt32} {i i' i'' : Input}

theorem placed_zero (le : lo ≤ hi) : Placed lo hi 0 :=
  ⟨0, ⟨le, Multiset.nodup_zero, by simp⟩, rfl⟩

theorem placed_singleton (lo : ℕ) : Placed lo (lo + 1) {UInt32.ofNat lo} :=
  ⟨{lo}, between_singleton lo, rfl⟩

theorem Placed.append (first : Placed lo mid a) (second : Placed mid hi b) :
    Placed lo hi (a + b) := by
  obtain ⟨offsets, between, rfl⟩ := first
  obtain ⟨offsets', between', rfl⟩ := second
  exact ⟨offsets + offsets', between.append between', (Multiset.map_add _ _ _).symm⟩

theorem Placed.nodup (placed : Placed lo hi a) (short : hi ≤ 2 ^ 32) : a.Nodup := by
  obtain ⟨offsets, between, rfl⟩ := placed
  refine Multiset.Nodup.map_on ?_ between.nodup
  intro m inM n inN same
  have less := (between.range m inM).2
  have less' := (between.range n inN).2
  have words := congrArg UInt32.toNat same
  rwa [UInt32.toNat_ofNat', UInt32.toNat_ofNat', Nat.mod_eq_of_lt (less.trans_le short),
    Nat.mod_eq_of_lt (less'.trans_le short)] at words

theorem Advances.refl (i : Input) : Advances i i := ⟨le_rfl, rfl⟩

theorem Advances.trans (first : Advances i i') (second : Advances i' i'') : Advances i i'' :=
  ⟨first.le.trans second.le, second.total.trans first.total⟩

/-! ### Reading -/

section Reading

variable {isAlign : Bool}

theorem readFile_advances {n : ℕ} {data : Bytes} (h : readFile n i = some (data, i')) :
    i.good = true ∧ i'.offset = i.offset + n ∧ Advances i i' := by
  rw [readFile] at h
  split at h
  case isTrue within =>
    obtain ⟨-, rfl⟩ := Prod.mk.inj (Option.some.inj h)
    refine ⟨within.1, rfl, Nat.le_add_right _ _, ?_⟩
    simp only [List.length_drop]
    omega
  case isFalse => cases h

theorem readChars_advances {value result : Bytes} {offset : ℕ} {rest : Bytes}
    (h : readChars value offset rest = some (result, i')) :
    offset ≤ i'.offset ∧ i'.offset + i'.rest.length = offset + rest.length := by
  induction rest generalizing value offset with
  | nil =>
    obtain ⟨-, rfl⟩ := Prod.mk.inj (Option.some.inj h)
    exact ⟨le_rfl, rfl⟩
  | cons c rest ih =>
    rw [readChars] at h
    split at h
    case isTrue =>
      obtain ⟨-, rfl⟩ := Prod.mk.inj (Option.some.inj h)
      simp only [List.length_cons]
      omega
    case isFalse =>
      split at h
      case isTrue => cases h
      case isFalse =>
        have later := ih h
        simp only [List.length_cons]
        omega

/-- What a read leaves is after the input. -/
def Advancing {α : Type} (i : Input) (read : Option (α × Input)) : Prop :=
  ∀ a i', read = some (a, i') → Advances i i'

theorem Advancing.map {α β : Type} {read : Option (α × Input)} {f : α × Input → β × Input}
    (h : Advancing i read) (same : ∀ x, (f x).2 = x.2) : Advancing i (read.map f) := by
  intro b i' mapped
  obtain ⟨⟨a, j⟩, found, eq⟩ := Option.map_eq_some_iff.mp mapped
  obtain rfl : j = i' := (same (a, j)).symm.trans (congrArg Prod.snd eq)
  exact h a j found

theorem readFile_advancing (n : ℕ) : Advancing i (readFile n i) :=
  fun _ _ h => (readFile_advances h).2.2

theorem readUint32_advances {n : UInt32} (h : readUint32 i = some (n, i')) :
    i.good = true ∧ Advances i i' := by
  obtain ⟨⟨data, j⟩, read, same⟩ := Option.map_eq_some_iff.mp h
  obtain ⟨-, rfl⟩ := Prod.mk.inj same
  exact ⟨(readFile_advances read).1, (readFile_advances read).2.2⟩

theorem readUint32_advancing : Advancing i (readUint32 i) :=
  (readFile_advancing 4).map fun _ => rfl

theorem readUint16_advancing : Advancing i (readUint16 isAlign i) := by
  rw [readUint16]
  split
  · exact readUint32_advancing.map fun _ => rfl
  · exact (readFile_advancing 2).map fun _ => rfl

theorem readUint8_advancing : Advancing i (readUint8 isAlign i) := by
  rw [readUint8]
  split
  · exact readUint32_advancing.map fun _ => rfl
  · exact (readFile_advancing 1).map fun _ => rfl

/-- An opcode takes as many bytes as `GetAlignSize` says. -/
theorem getNextByteCode_advances {op : UInt32} (h : getNextByteCode isAlign i = some (op, i')) :
    i'.offset = i.offset + (getAlignSize isAlign 1).toNat ∧ Advances i i' := by
  cases isAlign with
  | false =>
    obtain ⟨⟨n, j⟩, read, same⟩ := Option.map_eq_some_iff.mp h
    obtain ⟨-, rfl⟩ := Prod.mk.inj same
    obtain ⟨⟨data, k⟩, found, same⟩ := Option.map_eq_some_iff.mp read
    obtain ⟨-, rfl⟩ := Prod.mk.inj same
    exact (readFile_advances found).2
  | true =>
    obtain ⟨⟨data, k⟩, found, same⟩ := Option.map_eq_some_iff.mp h
    obtain ⟨-, rfl⟩ := Prod.mk.inj same
    exact (readFile_advances found).2

theorem readString_advancing : Advancing i (readString isAlign i) := by
  intro text i' h
  obtain ⟨⟨value, j⟩, chars, h⟩ := Option.bind_eq_some_iff.mp h
  have first : Advances i j := by
    split at chars
    case isTrue =>
      obtain ⟨le, total⟩ := readChars_advances chars
      exact ⟨le, total⟩
    case isFalse =>
      obtain ⟨-, rfl⟩ := Prod.mk.inj (Option.some.inj chars)
      exact .refl i
  dsimp only at h
  split at h
  case isTrue =>
    obtain ⟨⟨data, k⟩, read, same⟩ := Option.map_eq_some_iff.mp h
    obtain ⟨-, rfl⟩ := Prod.mk.inj same
    exact first.trans (readFile_advances read).2.2
  case isFalse =>
    obtain ⟨-, rfl⟩ := Prod.mk.inj (Option.some.inj h)
    exact first

/-- A string is only read from a file in which no read has failed, unless this leaves it so. -/
theorem readString_good {text : Bytes} (h : readString isAlign i = some (text, i'))
    (good : i'.good = true) : i.good = true := by
  by_contra bad
  obtain ⟨⟨value, j⟩, chars, h⟩ := Option.bind_eq_some_iff.mp h
  rw [if_neg bad] at chars
  obtain ⟨-, rfl⟩ := Prod.mk.inj (Option.some.inj chars)
  dsimp only at h
  split at h
  case isTrue =>
    obtain ⟨⟨data, k⟩, found, -⟩ := Option.map_eq_some_iff.mp h
    exact bad (readFile_advances found).1
  case isFalse =>
    obtain ⟨-, rfl⟩ := Prod.mk.inj (Option.some.inj h)
    exact bad good

/-! ### Rebuilding -/

/-- What is rebuilt from a part of the file has its hashes there. -/
def Located (lo : ℕ) (i : Input) (rebuilt : Option (Rebuilt × Input)) : Prop :=
  ∀ result i', rebuilt = some (result, i') →
    Advances i i' ∧ Placed lo i'.offset (weigh labelHash result)

theorem located_leaf {α : Type} {lo : ℕ} {read : Option (α × Input)} {f : α × Input → RebuiltLeaf}
    (le : lo ≤ i.offset) (h : Advancing i read) :
    Located lo i (read.map fun r => (.leaf (f r), r.2)) := by
  intro result i' mapped
  obtain ⟨⟨a, j⟩, found, eq⟩ := Option.map_eq_some_iff.mp mapped
  obtain ⟨rfl, rfl⟩ := Prod.mk.inj eq
  have advances := h a _ found
  refine ⟨advances, ?_⟩
  rw [weigh_leaf]
  exact placed_zero (le.trans advances.le)

theorem rebuildNumberObject_located {lo : ℕ} (le : lo ≤ i.offset) (type : IntType) :
    Located lo i (rebuildNumberObject isAlign type i) := by
  cases type with
  | uint8 => exact located_leaf le readUint8_advancing
  | uint16 => exact located_leaf le readUint16_advancing
  | uint32 => exact located_leaf le readUint32_advancing
  | uint64 => exact located_leaf le ((readFile_advancing 8).map fun _ => rfl)

/-- `RebuildObject` for some objects, called behind their opcode. -/
def ObjectLocated (isAlign : Bool) (object : UInt8 → Input → Option (Rebuilt × Input)) : Prop :=
  ∀ op i lo, lo + (getAlignSize isAlign 1).toNat = i.offset → Located lo i (object op i)

variable {object : UInt8 → Input → Option (Rebuilt × Input)}

theorem rebuildNext_located (each : ObjectLocated isAlign object) :
    Located i.offset i (rebuildNext isAlign object i) := by
  intro result i' h
  obtain ⟨⟨op, j⟩, read, rebuilt⟩ := Option.bind_eq_some_iff.mp h
  obtain ⟨offset, first⟩ := getNextByteCode_advances read
  obtain ⟨advances, placed⟩ := each _ j i.offset offset.symm result i' rebuilt
  exact ⟨first.trans advances, placed⟩

theorem rebuildChildren_located (each : ObjectLocated isAlign object) {nodeEnd : Int32}
    {rounds : ℕ} {children result : List Rebuilt}
    (h : rebuildChildren isAlign object nodeEnd rounds children i = some (result, i')) :
    ∃ more, result = children ++ more ∧ Advances i i' ∧
      Placed i.offset i'.offset (more.map (weigh labelHash)).sum := by
  induction rounds generalizing children i with
  | zero => cases h
  | succ rounds ih =>
    rw [rebuildChildren] at h
    split at h
    case isTrue =>
      obtain ⟨⟨child, j⟩, rebuilt, h⟩ := Option.bind_eq_some_iff.mp h
      obtain ⟨advances, placed⟩ := rebuildNext_located each child j rebuilt
      obtain ⟨more, eq, later, rest⟩ := ih h
      refine ⟨child :: more, ?_, advances.trans later, ?_⟩
      · rw [eq, List.append_assoc, List.singleton_append]
      · rw [List.map_cons, List.sum_cons]
        exact placed.append rest
    case isFalse =>
      obtain ⟨rfl, rfl⟩ := Prod.mk.inj (Option.some.inj h)
      exact ⟨[], (List.append_nil _).symm, .refl i, placed_zero le_rfl⟩

theorem rebuildElements_located (each : ObjectLocated isAlign object) {left : ℕ}
    {elements result : List Rebuilt}
    (h : rebuildElements isAlign object left elements i = some (result, i')) :
    ∃ more, result = elements ++ more ∧ Advances i i' ∧
      Placed i.offset i'.offset (more.map (weigh labelHash)).sum := by
  induction left generalizing elements i with
  | zero =>
    obtain ⟨rfl, rfl⟩ := Prod.mk.inj (Option.some.inj h)
    exact ⟨[], (List.append_nil _).symm, .refl i, placed_zero le_rfl⟩
  | succ left ih =>
    obtain ⟨⟨e, j⟩, rebuilt, h⟩ := Option.bind_eq_some_iff.mp h
    obtain ⟨advances, placed⟩ := rebuildNext_located each e j rebuilt
    obtain ⟨more, eq, later, rest⟩ := ih h
    refine ⟨e :: more, ?_, advances.trans later, ?_⟩
    · rw [eq, List.append_assoc, List.singleton_append]
    · rw [List.map_cons, List.sum_cons]
      exact placed.append rest

theorem Placed.widen {lo' : ℕ} (placed : Placed lo hi a) (le : lo' ≤ lo) : Placed lo' hi a := by
  have whole := (placed_zero le).append placed
  rwa [zero_add] at whole

/-- The hash of a node is the offset of its opcode. -/
theorem rebuildNode_located (each : ObjectLocated isAlign object) (rounds : ℕ) {lo : ℕ}
    (opcode : lo + (getAlignSize isAlign 1).toNat = i.offset) :
    Located lo i (rebuildNode isAlign object rounds i) := by
  intro result i' h
  obtain ⟨⟨name, j⟩, read, h⟩ := Option.bind_eq_some_iff.mp h
  obtain ⟨⟨size, k⟩, word, h⟩ := Option.bind_eq_some_iff.mp h
  obtain ⟨⟨children, l⟩, loop, same⟩ := Option.map_eq_some_iff.mp h
  obtain ⟨rfl, rfl⟩ := Prod.mk.inj same
  obtain ⟨more, eq, advances, placed⟩ := rebuildChildren_located each loop
  obtain rfl : children = more := eq
  obtain ⟨good, last⟩ := readUint32_advances word
  have toSize : Advances i k := (readString_advancing name j read).trans last
  refine ⟨toSize.trans advances, ?_⟩
  have hash : i.tellg - getAlignSize isAlign 1 = UInt32.ofNat lo := by
    rw [Input.tellg, if_pos (readString_good read good), ← opcode, UInt32.ofNat_add,
      UInt32.ofNat_toNat, UInt32.add_sub_cancel]
  have some : 0 < (getAlignSize isAlign 1).toNat := by cases isAlign <;> decide
  have own : Placed lo (lo + (getAlignSize isAlign 1).toNat) {UInt32.ofNat lo} := by
    simpa using (placed_singleton lo).append (placed_zero (Nat.add_le_add_left some lo))
  rw [weigh_node]
  show Placed lo l.offset
    ({i.tellg - getAlignSize isAlign 1} + (children.map (weigh labelHash)).sum)
  rw [hash]
  apply own.append
  apply placed.widen
  rw [opcode]
  exact toSize.le

theorem rebuildTerm_located (each : ObjectLocated isAlign object) {lo : ℕ} (le : lo ≤ i.offset) :
    Located lo i (rebuildTerm isAlign object i) := by
  intro result i' h
  obtain ⟨⟨name, j⟩, read, h⟩ := Option.bind_eq_some_iff.mp h
  obtain ⟨⟨value, k⟩, rebuilt, same⟩ := Option.map_eq_some_iff.mp h
  obtain ⟨rfl, rfl⟩ := Prod.mk.inj same
  obtain ⟨advances, placed⟩ := rebuildNext_located each value k rebuilt
  have first := readString_advancing name j read
  refine ⟨first.trans advances, ?_⟩
  rw [weigh_node, List.map_singleton, List.sum_singleton]
  show Placed lo k.offset (0 + weigh labelHash value)
  rw [zero_add]
  exact placed.widen (le.trans first.le)

theorem rebuildArray_located (each : ObjectLocated isAlign object) {lo : ℕ} (le : lo ≤ i.offset) :
    Located lo i (rebuildArray isAlign object i) := by
  intro result i' h
  obtain ⟨⟨arraySize, j⟩, read, h⟩ := Option.bind_eq_some_iff.mp h
  obtain ⟨⟨elements, k⟩, loop, same⟩ := Option.map_eq_some_iff.mp h
  obtain ⟨rfl, rfl⟩ := Prod.mk.inj same
  obtain ⟨more, eq, advances, placed⟩ := rebuildElements_located each loop
  obtain rfl : elements = more := eq
  have first := readUint16_advancing arraySize j read
  refine ⟨first.trans advances, ?_⟩
  rw [weigh_node]
  show Placed lo k.offset (0 + (elements.map (weigh labelHash)).sum)
  rw [zero_add]
  exact placed.widen (le.trans first.le)

theorem rebuildObject_located (calls : ℕ) :
    ObjectLocated isAlign (rebuildObject isAlign calls) := by
  induction calls with
  | zero =>
    intro op i lo _ result i' h
    cases h
  | succ calls ih =>
    intro op i lo opcode
    have le : lo ≤ i.offset := by omega
    rw [rebuildObject]
    split
    · exact rebuildNode_located ih calls opcode
    · exact rebuildTerm_located ih le
    · exact located_leaf le readUint32_advancing
    · exact rebuildNumberObject_located le .uint8
    · exact rebuildNumberObject_located le .uint16
    · exact rebuildNumberObject_located le .uint32
    · exact rebuildNumberObject_located le .uint64
    · exact rebuildArray_located ih le
    · exact located_leaf le readString_advancing
    · intro result i' h
      cases h

/-- The nodes rebuilt from a file of less than 2^32 bytes have different hashes. -/
theorem nodup_hashes {file : Bytes} {tree : Rebuilt} (rebuilt : Decompiles file tree)
    (short : file.length < 2 ^ 32) : (weigh labelHash tree).Nodup := by
  obtain ⟨calls, h⟩ := rebuilt
  obtain ⟨⟨isAlign, i⟩, verified, h⟩ := Option.bind_eq_some_iff.mp h
  obtain ⟨⟨data, j⟩, read, verified⟩ := Option.bind_eq_some_iff.mp verified
  have header := (readFile_advances read).2.2
  dsimp only at verified
  split at verified
  case isFalse => cases verified
  case isTrue =>
    obtain ⟨-, rfl⟩ := Prod.mk.inj (Option.some.inj verified)
    obtain ⟨⟨op, k⟩, byteCode, h⟩ := Option.bind_eq_some_iff.mp h
    split at h
    case isFalse => cases h
    case isTrue =>
      obtain ⟨⟨result, l⟩, object, rfl⟩ := Option.map_eq_some_iff.mp h
      obtain ⟨offset, first⟩ := getNextByteCode_advances byteCode
      obtain ⟨advances, placed⟩ :=
        rebuildObject_located calls _ k j.offset offset.symm result l object
      -- the file ends behind the last node
      have total := ((header.trans first).trans advances).total
      apply placed.nodup
      change l.offset + l.rest.length = 0 + file.length at total
      omega

end Reading

end

/-! ### Paths -/

/-- In a tree rebuilt from a file, no path is found for a value that is no hash, and the path
of a node is right when the search stops at the node first, and only then in files of less
than 2^32 bytes. -/
theorem getNodeRefPath_iff {file : Bytes} {tree : Rebuilt} (rebuilt : Decompiles file tree) :
    (∀ value, (∀ p name size, tree.label? p ≠ some (.inl (.confNode name size value))) →
      getNodeRefPath value tree = []) ∧
    ∀ p name size hash, p ≠ [] → tree.label? p = some (.inl (.confNode name size hash)) →
      (OnTop tree hash p → getNodeRefPath hash tree = fullPath tree p) ∧
      (file.length < 2 ^ 32 → getNodeRefPath hash tree = fullPath tree p → OnTop tree hash p) := by
  constructor
  · intro value none
    rcases getNodeRefPath_sound value tree with empty | ⟨i, p, node, name, size, _, there, _⟩
    · exact empty
    · exact absurd there (none _ _ _)
  · intro p name size hash below there
    refine ⟨getNodeRefPath_of_onTop there, fun short right => ?_⟩
    exact onTop_of_getNodeRefPath below (nodup_hashes rebuilt short) there right

section

variable {needAlign : Bool} {hash : ℕ → UInt32}

theorem object_of_label {object : AstObject} {start size value : UInt32} {name : Bytes}
    (h : (image needAlign hash start object).label = .inl (.confNode name size value)) :
    ∃ node children, object = .node node children ∧ size = getSubSize needAlign children ∧
      value = start := by
  cases object with
  | node node children =>
    obtain ⟨_, size, value⟩ := RebuiltNode.confNode.inj (Sum.inl.inj h)
    exact ⟨node, children, rfl, size.symm, value.symm⟩
  | leaf leaf =>
    cases leaf with
    | term term => cases h
    | value value =>
      cases value with
      | datum d => cases d <;> cases h
      | nodeRef path | delete | array type count elements => cases h

theorem getElem?_imageList {children : List AstObject} {start j : ℕ} {c : Rebuilt}
    (there : (imageList needAlign hash (.ofNat start) children)[j]? = some c) :
    ∃ child, children[j]? = some child ∧ c = image needAlign hash
      (.ofNat (start + (encodeList needAlign hash (children.take j)).length)) child := by
  induction children generalizing start j with
  | nil => cases there
  | cons child rest ih =>
    rw [imageList] at there
    cases j with
    | zero => exact ⟨child, rfl, (Option.some.inj there).symm⟩
    | succ j =>
      have next : getSize needAlign child = UInt32.ofNat (encode needAlign hash child).length :=
        getSize_eq child
      rw [List.getElem?_cons_succ, next, ← UInt32.ofNat_add] at there
      obtain ⟨found, position, eq⟩ := ih there
      refine ⟨found, position, ?_⟩
      rw [eq, List.take_succ_cons, encodeList, List.length_append, Nat.add_assoc]

theorem length_encodeList_take {children : List AstObject} {j k : ℕ} {child : AstObject}
    (there : children[j]? = some child) (less : j < k) :
    (encodeList needAlign hash (children.take j)).length + (encode needAlign hash child).length ≤
      (encodeList needAlign hash (children.take k)).length := by
  induction children generalizing j k with
  | nil => cases there
  | cons first rest ih =>
    obtain ⟨k, rfl⟩ := Nat.exists_eq_add_of_lt less
    rw [show j + k + 1 = (j + k) + 1 from rfl, List.take_succ_cons, encodeList, List.length_append]
    cases j with
    | zero =>
      obtain rfl : first = child := Option.some.inj there
      simp [encodeList]
    | succ j =>
      have later := ih there (Nat.lt_add_of_pos_right (Nat.succ_pos k) : j < j + (k + 1))
      rw [List.take_succ_cons, encodeList, List.length_append]
      rw [show j + 1 + k = j + (k + 1) by omega]
      omega

/-- In less than 2^32 bytes no node has the records of a child of the root before it around it. -/
theorem onTop_of_image {node : ConfigNode} {children : List AstObject} {start k : ℕ}
    {name : Bytes} {size value : UInt32}
    (short : start + (encode needAlign hash (.node node children)).length < 2 ^ 32)
    (there : (image needAlign hash (.ofNat start) (.node node children)).label? [k] =
      some (.inl (.confNode name size value))) :
    OnTop (image needAlign hash (.ofNat start) (.node node children)) value [k] := by
  refine ⟨k, rfl, fun j less label here hit => ?_⟩
  obtain ⟨name', size', value', rfl, around⟩ := hit
  have header : ownSize needAlign .confNode node.name = UInt32.ofNat
      (nodeHeader needAlign node.name (getSubSize needAlign children)).length := nodeHeader_size _ _
  rw [encode, List.length_append] at short
  rw [label?, get?_cons, image, get?_nil, Option.bind_some, children_node, header,
    ← UInt32.ofNat_add] at there here
  generalize (nodeHeader needAlign node.name _).length = length at short there here
  obtain ⟨c, first, label⟩ := Option.map_eq_some_iff.mp here
  obtain ⟨d, second, label'⟩ := Option.map_eq_some_iff.mp there
  obtain ⟨before, position, rfl⟩ := getElem?_imageList first
  obtain ⟨after, position', rfl⟩ := getElem?_imageList second
  obtain ⟨node', below, rfl, rfl, rfl⟩ := object_of_label label
  obtain ⟨_, _, rfl, _, rfl⟩ := object_of_label label'
  have sub : getSubSize needAlign below = UInt32.ofNat (encodeList needAlign hash below).length :=
    getSubSize_eq below
  rw [sub, ← UInt32.ofNat_add] at around
  -- the records before the later child, and all records
  have apart : (encodeList needAlign hash (children.take j)).length +
      (encode needAlign hash (.node node' below)).length ≤ _ := length_encodeList_take position less
  have last : (encodeList needAlign hash (children.take k)).length +
      (encode needAlign hash (.node _ _)).length ≤ _ :=
    length_encodeList_take position' (List.getElem?_eq_some_iff.mp position').1
  rw [List.take_length] at last
  rw [encode, List.length_append] at apart
  have some := opField_pos needAlign .confNode
  have header' : 0 < (nodeHeader needAlign node'.name (getSubSize needAlign below)).length := by
    rw [nodeHeader, List.length_append]
    omega
  rcases around with same | ⟨-, within⟩
  · have words := congrArg UInt32.toNat same
    rw [UInt32.toNat_ofNat', UInt32.toNat_ofNat', Nat.mod_eq_of_lt (by omega),
      Nat.mod_eq_of_lt (by omega)] at words
    omega
  · rw [UInt32.lt_iff_toNat_lt, UInt32.toNat_ofNat', UInt32.toNat_ofNat',
      Nat.mod_eq_of_lt (by omega), Nat.mod_eq_of_lt (by omega)] at within
    omega

/-- In the tree that a compiled source stands for, every child of the root is found. -/
theorem onTop_of_compiled {fs : FileSystem} {main file : Bytes} {root : AstObject} {k : ℕ}
    {name : Bytes} {size value : UInt32} (parses : Parses fs main root) (plain : NoTemplates root)
    (compiled : ByteCodeGen.output needAlign root = some file) (short : file.length < 2 ^ 32)
    (there : (restored needAlign (hashes needAlign root) root).label? [k] =
      some (.inl (.confNode name size value))) :
    OnTop (restored needAlign (hashes needAlign root) root) value [k] := by
  obtain ⟨written, tree⟩ := compiled_eq parses plain compiled
  have header : (hcbHeader needAlign root).length = hcbHeaderSize := by
    simp [hcbHeader, hcbHeaderSize]
  rw [written, List.length_append, header] at short
  rw [tree] at there ⊢
  obtain ⟨-, -⟩ := parses.namedRoot
  exact onTop_of_image short there

end

/-- A node with a node in it. -/
def nestedNodes : FileSystem :=
  .files [(ascii "/main", ascii "root \x7b module = \"m\"; a \x7b b \x7b x = 1; \x7d \x7d \x7d")]

/-- The first child of the second child of the root is given a path with two names. -/
def losesRoot (root : AstObject) : Bool :=
  match (ByteCodeGen.output false root).bind (decompile 40) with
  | none => false
  | some tree =>
    match tree.label? [0, 1] with
    | some (.inl (.confNode name _ hash)) =>
      decide (name = ascii "b" ∧ getNodeRefPath hash tree = ascii "a.b" ∧
        fullPath tree [0, 1] = ascii "root.a.b")
    | _ => false

private theorem losesRoot_nestedNodes :
    expansionPasses nestedNodes (ascii "/main") (fun _ => true) losesRoot 20 = true := by
  rw [nestedNodes]
  iterate 2 rw [ascii_ofList]
  decide +kernel

theorem root_lost : ∃ root file tree size hash,
    Parses nestedNodes (ascii "/main") root ∧ ByteCodeGen.output false root = some file ∧
      Decompiles file tree ∧
      tree.label? [0, 1] = some (.inl (.confNode (ascii "b") size hash)) ∧
      getNodeRefPath hash tree = ascii "a.b" ∧ fullPath tree [0, 1] = ascii "root.a.b" := by
  obtain ⟨ast, fresh, root, merged, expands, -, test⟩ := exists_expansion losesRoot_nestedNodes
  unfold losesRoot at test
  split at test
  case h_1 => cases test
  case h_2 tree written =>
    obtain ⟨file, compiled, rebuilt⟩ := Option.bind_eq_some_iff.mp written
    split at test
    case h_1 name size hash there =>
      obtain ⟨rfl, found, path⟩ := of_decide_eq_true test
      exact ⟨root, file, tree, size, hash, ⟨ast, fresh, merged, expands⟩, compiled, ⟨40, rebuilt⟩,
        there, found, path⟩
    case h_2 => cases test

theorem getNodeRefPath_iff_nestedNodes : ∃ root file tree,
    Parses nestedNodes (ascii "/main") root ∧ ByteCodeGen.output false root = some file ∧
      ((∀ value, (∀ p name size, tree.label? p ≠ some (.inl (.confNode name size value))) →
        getNodeRefPath value tree = []) ∧
      ∀ p name size hash, p ≠ [] → tree.label? p = some (.inl (.confNode name size hash)) →
        (OnTop tree hash p → getNodeRefPath hash tree = fullPath tree p) ∧
        (file.length < 2 ^ 32 → getNodeRefPath hash tree = fullPath tree p →
          OnTop tree hash p)) := by
  obtain ⟨ast, fresh, root, merged, expands, -, test⟩ := exists_expansion losesRoot_nestedNodes
  unfold losesRoot at test
  split at test
  case h_1 => cases test
  case h_2 tree written =>
    obtain ⟨file, compiled, rebuilt⟩ := Option.bind_eq_some_iff.mp written
    exact ⟨root, file, tree, ⟨ast, fresh, merged, expands⟩, compiled,
      getNodeRefPath_iff ⟨40, rebuilt⟩⟩

end DecompileGen

end Hdf.HcGen
