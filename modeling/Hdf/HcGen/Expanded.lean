import Hdf.HcGen.Addresses
import Hdf.HcGen.ByteCode
import Hdf.HcGen.IncludeOrder
import Hdf.HcGen.UniqueNames

/-!
# The tree that the generators get

What every AST has in common that `Parser::Parse` hands to a generator: the root
is a plain node with the name `root`, and no two nodes have the same address.

## Main results

* `Parses.namedRoot`: the root node
* `Parses.nodup`: addresses are unique
* `convert_eq_self`, `convert_labels`: what separating the templates leaves
-/

namespace Hdf.HcGen

open Transition
open Hdf.Tree hiding node leaf

/-! ### The name of the root -/

section

variable {root child : AstObject} {s t : State} {p : Pos}

theorem name_of_label? {l : Label} (h : root.label? [] = some l) : name root = Label.name l := by
  rw [label?, get?_nil, Option.map_some] at h
  exact congrArg Label.name (Option.some.inj h)

private theorem name_eraseAt (plain : PlainRoot root) : name (root.eraseAt p) = name root := by
  cases p with
  | nil => rfl
  | cons i p =>
    obtain ⟨node, label, -⟩ := plain
    rw [name_of_label? label, name_of_label? (by rw [label?_eraseAt_outside (by simp), label])]

private theorem name_updateLeaf (plain : PlainRoot root) {f : Leaf → Leaf} :
    name (updateLeaf root p f) = name root := by
  obtain ⟨node, label, -⟩ := plain
  rw [name_of_label? label, name_of_label? (label?_updateLeaf_inl label)]

private theorem name_updateNode (plain : PlainRoot root) {f : ConfigNode → ConfigNode}
    (same : ∀ node, (f node).name = node.name) : name (updateNode root p f) = name root := by
  obtain ⟨node, label, -⟩ := plain
  rw [name_of_label? label]
  by_cases top : ([] : Pos) = p
  · subst top
    have label' : (updateNode root [] f).label? [] = some (.inl (f node)) := by
      rw [updateNode, label?_relabelAt_self, label]
      rfl
    rw [name_of_label? label']
    exact same node
  · rw [name_of_label? (by rw [updateNode, label?_relabelAt_of_ne top, label])]

/-- A step keeps the name of the root. -/
theorem rootName_preserved (coherent : Coherent s) (goes : step s = .next t) :
    name t.root = name s.root := by
  have plain := coherent.root
  cases stepped goes with
  | endless | down => rfl
  | passed _ _ leaves => rw [leaves.root]
  | removed visit _ leaves => rw [leaves.root, name_eraseAt plain]
  | resolved visit _ _ _ leaves => rw [leaves.root, name_updateLeaf plain]
  | refStarts => rfl
  | copyStarts visit => exact name_updateNode plain fun _ => rfl
  | termMoved _ _ _ there first copies leaves =>
    rw [leaves.root, name_eraseAt (plain.updateLeaf _ _), name_updateLeaf plain]
  | valueMoved visit _ _ there copies leaves =>
    rw [leaves.root, name_eraseAt (plain.updateLeaf _ _), name_updateLeaf plain]
  | stuck | popped => rfl
  | @appended _ _ frame _ child copying absent =>
    obtain ⟨node, label, -⟩ := plain
    have running := coherent.running _ _ _ copying.control
    obtain ⟨_, _, there⟩ := (running.node frame List.mem_cons_self).get?
    rw [name_of_label? label, name_of_label? (label?_appendAt_of_some there label)]
  | pushed | skipped => rfl
  | overwritten _ _ _ there _ copies => exact name_updateLeaf plain
  | copied _ leaves => rw [leaves.root]
  | referred control leaves => rw [leaves.root, name_eraseAt plain]
  | inherited _ there base goes =>
    rw [goes.root]
    refine (name_updateNode (plain.updateNode _ ?_) ?_).trans (name_updateNode plain ?_)
    · exact fun _ noref => noref
    · exact fun _ => rfl
    · exact fun _ => rfl
  | back _ _ _ _ leaves => rw [leaves.root]
  | forth _ _ goes => rw [goes.root]
  | inheritStarts => rfl

end

section

variable {fs : FileSystem} {main : Bytes} {ast : Ast} {fresh : ℕ} {root : AstObject}

theorem parseOne_root {src : Bytes} {n : ℕ} {file : ParsedFile}
    (h : parseOne fs src n = some file) {l : Label} (there : file.ast.define [] = some l) :
    Label.name l = ascii "root" := by
  unfold parseOne at h
  obtain ⟨blocks, _, h⟩ := Option.bind_eq_some_iff.mp h
  obtain ⟨st, _, h⟩ := Option.bind_eq_some_iff.mp h
  obtain ⟨⟨includeList, st₁⟩, _, h⟩ := Option.bind_eq_some_iff.mp h
  obtain ⟨⟨rootNode, st₂⟩, node, h⟩ := Option.bind_eq_some_iff.mp h
  obtain ⟨st₃, _, h⟩ := Option.bind_eq_some_iff.mp h
  split at h
  case isFalse => cases h
  case isTrue =>
    cases h
    obtain ⟨root, rfl, label⟩ := Option.bind_eq_some_iff.mp there
    unfold parseRoot at node
    split at node
    · obtain ⟨⟨root', st'⟩, parsed, same⟩ := Option.map_eq_some_iff.mp node
      cases same
      unfold parseNode at parsed
      obtain ⟨_, _, parsed⟩ := Option.bind_eq_some_iff.mp parsed
      obtain ⟨_, _, parsed⟩ := Option.bind_eq_some_iff.mp parsed
      cases parsed
      cases label
      rfl
    · split at node <;> cases node

theorem Reading.parsed {queue : List Bytes} {n m : ℕ} {files : List (Bytes × Ast)}
    (h : Reading fs queue n files m) :
    ∀ e ∈ files, ∃ k file, parseOne fs e.1 k = some file ∧ file.ast = e.2 := by
  induction h with
  | nil => exact fun _ member => absurd member List.not_mem_nil
  | cons parsed _ ih =>
    intro e member
    rcases List.mem_cons.mp member with rfl | later
    · exact ⟨_, _, parsed, rfl⟩
    · exact ih e later

/-- Laying definitions over each other keeps a name that all have. -/
theorem overlay_root {asts : List Ast} {wanted : Bytes}
    (each : ∀ a ∈ asts, ∀ l, a.define [] = some l → Label.name l = wanted) {l : Label}
    (h : overlay asts [] = some l) : Label.name l = wanted := by
  induction asts using List.reverseRecOn generalizing l with
  | nil => cases h
  | append_singleton asts ast ih =>
    rw [overlay_append] at h
    cases top : ast.define [] with
    | none =>
      rw [top, override_none_left] at h
      exact ih (fun a member => each a (List.mem_append_left _ member)) h
    | some src =>
      rw [top] at h
      cases below : overlay asts [] with
      | none =>
        rw [below, override_none_right] at h
        exact each ast (by simp) l (top.trans h)
      | some this =>
        rw [below] at h
        cases h
        exact (congrArg Prod.fst (key_mergeLabel src this)).trans
          (ih (fun a member => each a (List.mem_append_left _ member)) below)

theorem MergedFrom.rootName (h : MergedFrom fs main ast fresh) (there : ast.astRoot = some root) :
    name root = ascii "root" := by
  obtain ⟨files, reading, merges⟩ := mergedFrom_iff.mp h
  have define := define_mergeFiles merges (readRound_parsed_files reading) []
  have label : ast.define [] = some root.label := by rw [Ast.define, there]; rfl
  refine overlay_root (fun a member l there => ?_) (define.symm.trans label)
  obtain ⟨e, inside, rfl⟩ := List.mem_map.mp (mem_mergeOrder.mp member)
  obtain ⟨k, file, parsed, same⟩ := reading.parsed e inside
  exact parseOne_root parsed (same ▸ there)

/-- The root is a plain node with the name `root`. -/
inductive NamedRoot : AstObject → Prop
  | node {node : ConfigNode} {children : List AstObject} (named : node.name = ascii "root")
    (noref : node.nodeType = .noref) : NamedRoot (.node node children)

theorem Parses.namedRoot (h : Parses fs main root) : NamedRoot root := by
  obtain ⟨ast, fresh, merged, expands⟩ := h
  obtain ⟨s, reached, -, rfl⟩ := expands.last merged.merged
  have named : name s.root = ascii "root" := by
    refine reached.invariant (I := fun s => name s.root = ascii "root") ?_ ?_
    · exact fun root there => merged.rootName there
    · exact fun t u prior h goes =>
        (rootName_preserved (.of_reaches merged.merged prior) goes).trans h
  obtain ⟨node, label, noref⟩ := (Coherent.of_reaches merged.merged reached).root
  obtain ⟨children, there⟩ := get?_of_label?_inl label
  rw [get?_nil] at there
  obtain same : s.root = .node node children := Option.some.inj there
  rw [same] at named ⊢
  exact .node named noref

end

/-! ### Addresses -/

open ByteCodeGen

theorem uids_eq_nodeUids (object : AstObject) : uids object = ↑(nodeUids object) := by
  induction object using Tree.induct with
  | leaf leaf => rw [uids_leaf]; rfl
  | node node children ih =>
    have below : (children.map uids).sum = ↑(children.flatMap nodeUids) := by
      induction children with
      | nil => rfl
      | cons child rest rest_ih =>
        rw [List.map_cons, List.sum_cons, ih child List.mem_cons_self,
          rest_ih fun c member => ih c (List.mem_cons_of_mem _ member), List.flatMap_cons,
          Multiset.coe_add]
    rw [uids_node, nodeUids_node, below, ← Multiset.cons_coe, Multiset.singleton_add]

/-- No two nodes have the same address. -/
theorem Parses.nodup {fs : FileSystem} {main : Bytes} {root : AstObject}
    (h : Parses fs main root) : (nodeUids root).Nodup := by
  obtain ⟨ast, fresh, merged, expands⟩ := h
  obtain ⟨s, reached, -, rfl⟩ := expands.last merged.merged
  have addressed := (addressed_of_reaches merged reached).nodup
  rwa [uids_eq_nodeUids, Multiset.coe_nodup] at addressed

/-! ### Separated templates -/

section

variable {object : AstObject}

theorem convertList_cons {child : AstObject} {rest result : List AstObject} :
    convertList (child :: rest) = some result ↔ ∃ left later,
      convert child = some left ∧ convertList rest = some later ∧
        result = left.toList ++ later := by
  rw [convertList]
  constructor
  · intro h
    split at h
    case h_1 left later first second =>
      cases h
      exact ⟨left, later, first, second, rfl⟩
    case h_2 => cases h
  · rintro ⟨left, later, first, second, rfl⟩
    rw [first, second]

/-- Converting removes whole subtrees and leaves the rest as it is. -/
theorem convert_labels {result : Option AstObject} (h : convert object = some result) :
    (result.toList.flatMap Tree.labels).Sublist object.labels := by
  induction object using Tree.induct generalizing result with
  | leaf leaf =>
    cases leaf with
    | term term =>
      rw [convert] at h
      split at h
      · cases h
      · cases h
        simp
    | value value =>
      rw [convert] at h
      split at h
      · cases h
      · cases h
        simp
  | node node children ih =>
    have below : ∀ left, convertList children = some left →
        (left.flatMap Tree.labels).Sublist (children.flatMap Tree.labels) := by
      clear h
      induction children with
      | nil =>
        intro left h
        cases h
        simp
      | cons child rest rest_ih =>
        intro left h
        obtain ⟨first, later, converts, rests, rfl⟩ := convertList_cons.mp h
        rw [List.flatMap_append, List.flatMap_cons]
        exact (ih child List.mem_cons_self converts).append
          (rest_ih (fun c member => ih c (List.mem_cons_of_mem _ member)) later rests)
    rw [convert] at h
    split at h
    case h_1 => cases h
    case h_2 left lefts =>
      split at h
      · cases h
        simp
      · cases h
        simpa using below left lefts

theorem convert_nodup {root tree : AstObject} (h : convert root = some (some tree))
    (unique : (nodeUids root).Nodup) : (nodeUids tree).Nodup := by
  have labels := convert_labels h
  rw [Option.toList_some, List.flatMap_singleton] at labels
  exact unique.sublist (labels.filterMap _)

/-- No node of the tree is a template. -/
def NoTemplates (root : AstObject) : Prop :=
  ∀ node, .inl node ∈ root.labels → node.nodeType ≠ .template

instance (root : AstObject) : Decidable (NoTemplates root) :=
  decidable_of_iff (∀ l ∈ root.labels, ∀ node ∈ l.getLeft?, node.nodeType ≠ .template) <| by
    simp [NoTemplates, Sum.forall]

/-- Without templates nothing is separated. -/
theorem convert_eq_self {result : Option AstObject} (plain : NoTemplates object)
    (h : convert object = some result) : result = some object := by
  induction object using Tree.induct generalizing result with
  | leaf leaf =>
    cases leaf with
    | term term =>
      rw [convert] at h
      split at h
      · cases h
      · exact (Option.some.inj h).symm
    | value value =>
      rw [convert] at h
      split at h
      · cases h
      · exact (Option.some.inj h).symm
  | node node children ih =>
    have below : ∀ left, convertList children = some left → left = children := by
      have inside : ∀ child ∈ children, NoTemplates child := fun child member node there =>
        plain node (by
          rw [Tree.labels_node, List.mem_cons, List.mem_flatMap]
          exact .inr ⟨child, member, there⟩)
      clear h plain
      induction children with
      | nil =>
        intro left h
        exact (Option.some.inj h).symm
      | cons child rest rest_ih =>
        intro left h
        obtain ⟨first, later, converts, rests, rfl⟩ := convertList_cons.mp h
        rw [ih child List.mem_cons_self (inside child List.mem_cons_self) converts,
          rest_ih (fun c member => ih c (List.mem_cons_of_mem _ member))
            (fun c member => inside c (List.mem_cons_of_mem _ member)) later rests]
        rfl
    rw [convert] at h
    split at h
    case h_1 => cases h
    case h_2 left lefts =>
      rw [if_neg (plain node (by simp)), below left lefts] at h
      exact (Option.some.inj h).symm

/-- A plain root is not separated. -/
theorem convert_root {node : ConfigNode} {children : List AstObject} {result : Option AstObject}
    (noref : node.nodeType = .noref) (h : convert (.node node children) = some result) :
    ∃ left, convertList children = some left ∧ result = some (.node node left) := by
  rw [convert] at h
  split at h
  case h_1 => cases h
  case h_2 left lefts =>
    rw [noref, if_neg (by simp)] at h
    exact ⟨left, lefts, (Option.some.inj h).symm⟩

end

end Hdf.HcGen
