import Hdf.HcGen.Parser
import Hdf.Lib.Siblings

/-!
# What parsed and merged ASTs are like

The parser makes plain roots, and merging keeps them plain. Every file that is
merged has passed the check for redefinitions, and merging adds a child only
where no child has its name and type; so in a merged AST siblings differ in name
or type, although they may share a name.

## Main results

* `noRedefinition_iff`: what `RedefineCheck` accepts
* `MergedFrom.plainRoot`, `MergedFrom.distinctKeys`: the shape of merged ASTs
-/

namespace Hdf.HcGen

open Transition
open Hdf.Tree hiding node leaf

/-! ### Names and keys -/

/-- What `Merge` and `Copy` tell children apart by. -/
def Label.key (l : Label) : Bytes × ObjectType := (Label.name l, Label.type l)

theorem lookupIndex_eq_none_iff {children : List AstObject} {wanted : Bytes} {t : ObjectType} :
    lookupIndex children wanted (some t) = none ↔
      (wanted, t) ∉ children.map fun c => Label.key c.label := by
  rw [lookupIndex, List.findIdx?_eq_none_iff, List.mem_map, not_exists]
  refine forall_congr' fun child => ?_
  rw [not_and]
  refine imp_congr_right fun _ => ?_
  simp [Label.key, name, type, Prod.ext_iff]

theorem lookupIndex_spec {children : List AstObject} {wanted : Bytes} {t : ObjectType} {i : ℕ}
    (h : lookupIndex children wanted (some t) = some i) :
    ∃ child, children[i]? = some child ∧ name child = wanted ∧ type child = t := by
  obtain ⟨inside, found, _⟩ := List.findIdx?_eq_some_iff_getElem.mp h
  refine ⟨children[i], List.getElem?_eq_getElem inside, ?_⟩
  simpa using found

theorem noRedefinitionList_iff {cs : List AstObject} :
    noRedefinitionList cs = true ↔ ∀ c ∈ cs, noRedefinition c = true := by
  induction cs with
  | nil => simp [noRedefinitionList]
  | cons c cs ih => simp [noRedefinitionList, ih]

/-- `RedefineCheck` accepts the trees in which siblings have different names. -/
theorem noRedefinition_iff {object : AstObject} :
    noRedefinition object = true ↔ DistinctSiblings Label.name object := by
  induction object using Tree.induct with
  | leaf leaf => simp [noRedefinition]
  | node node cs ih =>
    rw [noRedefinition, Bool.and_eq_true, noRedefinitionList_iff, distinctSiblings_node]
    refine and_congr ?_ (forall₂_congr ih)
    simp [hasDuplicateChild, childKeys]
    exact Iff.rfl

theorem DistinctSiblings.key_of_name {object : AstObject}
    (h : DistinctSiblings Label.name object) : DistinctSiblings Label.key object := by
  intro p u there
  have names := h p u there
  have split : childKeys Label.name u = (childKeys Label.key u).map Prod.fst := by
    simp [childKeys, Label.key]
  rw [split] at names
  exact names.of_map

/-! ### Merging -/

theorem mergeLeaf_key {src this merged : Leaf} (h : mergeLeaf src this = some merged) :
    Label.key (.inr merged) = Label.key (.inr this) := by
  unfold mergeLeaf at h
  split at h
  all_goals first | cases h | skip
  case h_2 src this =>
    split at h
    case isTrue same =>
      cases h
      simpa [Label.key, Label.name, Label.type, Value.type] using same
    case isFalse => cases h
  all_goals rfl

section

/-- Merging a source object keeps siblings apart and the key of the object. -/
private def KeepsKeys (src : AstObject) : Prop :=
  ∀ this merged, mergeObject src this = some (some merged) → DistinctSiblings Label.key src →
    DistinctSiblings Label.key this →
    Label.key merged.label = Label.key this.label ∧ DistinctSiblings Label.key merged

private theorem mergeChildren_keepsKeys {node : ConfigNode} {srcs children merged : List AstObject}
    (each : ∀ src ∈ srcs, KeepsKeys src) (h : mergeChildren srcs children = some merged)
    (distinct : ∀ src ∈ srcs, DistinctSiblings Label.key src)
    (before : DistinctSiblings Label.key (.node node children)) :
    DistinctSiblings Label.key (.node node merged) := by
  induction srcs generalizing children with
  | nil =>
    rw [mergeChildren] at h
    cases h
    exact before
  | cons src rest ih =>
    have later : ∀ c ∈ rest, KeepsKeys c := fun c member => each c (List.mem_cons_of_mem _ member)
    have distinctRest : ∀ c ∈ rest, DistinctSiblings Label.key c :=
      fun c member => distinct c (List.mem_cons_of_mem _ member)
    have head := distinct src List.mem_cons_self
    have whole : (Tree.node node children).get? [] = some (.node node children) := rfl
    rw [mergeChildren] at h
    split at h
    case h_1 absent =>
      refine ih later h distinctRest ?_
      exact before.appendAt whole (lookupIndex_eq_none_iff.mp absent) head
    case h_2 i present =>
      split at h
      case h_1 => cases h
      case h_2 childDst there =>
        have inside : (Tree.node node children).get? [i] = some childDst := by
          rw [get?_cons]
          exact there
        split at h
        case h_1 => cases h
        case h_2 => exact ih later h distinctRest (before.eraseAt inside)
        case h_3 new merge =>
          have kept := each src List.mem_cons_self childDst new merge head
            (before.subtree inside)
          refine ih later h distinctRest ?_
          have changed := before.modifyAt (f := fun _ => new) inside kept.1 kept.2
          have image : (Tree.node node children).modifyAt [i] (fun _ => new) =
              .node node (children.set i new) := by
            rw [Tree.modifyAt, Tree.modifyAt, modifyChild]
            congr 1
            apply List.ext_getElem?
            intro n
            rw [List.getElem?_modify, List.getElem?_set]
            by_cases eq : i = n
            · subst eq
              simp [(List.getElem?_eq_some_iff.mp there).1]
            · cases children[n]? <;> simp [eq]
          rwa [image] at changed

private theorem keepsKeys (src : AstObject) : KeepsKeys src := by
  induction src using Tree.induct with
  | leaf src =>
    intro this merged h _ _
    cases this with
    | node => rw [mergeObject] at h; cases h
    | leaf this =>
      rw [mergeObject] at h
      obtain ⟨leaf, result, same⟩ := Option.map_eq_some_iff.mp h
      cases same
      exact ⟨mergeLeaf_key result, distinctSiblings_leaf _⟩
  | node src srcChildren ih =>
    intro this merged h distinctSrc distinctThis
    cases this with
    | leaf => rw [mergeObject] at h; cases h
    | node this children =>
      rw [mergeObject] at h
      split at h
      case isTrue => cases h
      case isFalse =>
        split at h
        case isTrue => cases h
        case isFalse =>
          obtain ⟨result, merging, same⟩ := Option.map_eq_some_iff.mp h
          cases same
          refine ⟨rfl, ?_⟩
          have below := (distinctSiblings_node.mp distinctSrc).2
          have kept := mergeChildren_keepsKeys ih merging below distinctThis
          obtain ⟨top, inner⟩ := distinctSiblings_node.mp kept
          exact distinctSiblings_node.mpr ⟨top, inner⟩

theorem mergeObject_keepsKeys {src this merged : AstObject}
    (h : mergeObject src this = some (some merged)) (distinctSrc : DistinctSiblings Label.key src)
    (distinctThis : DistinctSiblings Label.key this) : DistinctSiblings Label.key merged :=
  (keepsKeys src this merged h distinctSrc distinctThis).2

end

/-! ### Files -/

/-- The root is a plain node. -/
def PlainRoot (root : AstObject) : Prop :=
  ∃ node, root.label? [] = some (.inl node) ∧ node.nodeType = .noref

/-- An AST as the parser makes it: unchecked, with a plain root if it has one. -/
structure Ast.Parsed (ast : Ast) : Prop where
  unchecked : ast.redefineChecked = false
  plain : ∀ root, ast.astRoot = some root → PlainRoot root

/-- An AST as merging leaves it. -/
structure Ast.Merged (ast : Ast) : Prop where
  plain : ∀ root, ast.astRoot = some root → PlainRoot root
  distinct : ∀ root, ast.astRoot = some root → DistinctSiblings Label.key root

theorem parseNode_plainRoot {body : ParseState → Option (List AstObject × ParseState)}
    {name : Token}
    {bracesStart : Bool} {st st' : ParseState} {root : AstObject}
    (h : parseNode body name .noref [] bracesStart st = some (root, st')) : PlainRoot root := by
  unfold parseNode at h
  obtain ⟨st₁, _, h⟩ := Option.bind_eq_some_iff.mp h
  obtain ⟨⟨children, st₂⟩, _, h⟩ := Option.bind_eq_some_iff.mp h
  cases h
  exact ⟨_, rfl, rfl⟩

theorem parseOne_parsed {fs : FileSystem} {src : Bytes} {nextUid : ℕ} {file : ParsedFile}
    (h : parseOne fs src nextUid = some file) : file.ast.Parsed := by
  unfold parseOne at h
  obtain ⟨blocks, _, h⟩ := Option.bind_eq_some_iff.mp h
  obtain ⟨st, _, h⟩ := Option.bind_eq_some_iff.mp h
  obtain ⟨⟨includeList, st₁⟩, _, h⟩ := Option.bind_eq_some_iff.mp h
  obtain ⟨⟨rootNode, st₂⟩, node, h⟩ := Option.bind_eq_some_iff.mp h
  obtain ⟨st₃, _, h⟩ := Option.bind_eq_some_iff.mp h
  split at h
  case isFalse => cases h
  case isTrue =>
    cases h
    refine ⟨rfl, fun root same => ?_⟩
    obtain rfl : rootNode = some root := same
    unfold parseRoot at node
    split at node
    · obtain ⟨⟨root', st'⟩, parsed, same⟩ := Option.map_eq_some_iff.mp node
      cases same
      exact parseNode_plainRoot parsed
    · split at node <;> cases node

/-- Every AST that `Parse` has read is as the parser makes it. -/
theorem readRound_parsed {fs : FileSystem} {main : Bytes} {astList : List Ast} {fresh : ℕ}
    (h : Returns (readRound fs) { astList := [], srcQueue := [main], nextUid := 0 }
      (some (astList, fresh))) : ∀ ast ∈ astList, ast.Parsed := by
  obtain ⟨work, reached, halts⟩ := h
  have all : ∀ ast ∈ work.astList, ast.Parsed := by
    refine Steps.invariant (I := fun work => ∀ ast ∈ work.astList, ast.Parsed)
      (fun s t holds goes => ?_) (by simp) reached
    unfold readRound at goes
    split at goes
    case h_1 => cases goes
    case h_2 src rest _ =>
      split at goes
      case h_1 => cases goes
      case h_2 file parsed =>
        cases goes
        intro ast member
        rcases List.mem_append.mp member with old | new
        · exact holds ast old
        · rw [List.mem_singleton.mp new]
          exact parseOne_parsed parsed
  unfold readRound at halts
  split at halts
  case h_1 => cases halts; exact all
  case h_2 => split at halts <;> cases halts

theorem mergeObject_plainRoot {src this merged : AstObject}
    (h : mergeObject src this = some (some merged)) (plain : PlainRoot src) :
    PlainRoot merged := by
  obtain ⟨node, label, noref⟩ := plain
  cases src with
  | leaf => cases label
  | node src srcChildren =>
    cases label
    cases this with
    | leaf => rw [mergeObject] at h; cases h
    | node this children =>
      rw [mergeObject] at h
      split at h
      case isTrue => cases h
      case isFalse =>
        split at h
        case isTrue => cases h
        case isFalse =>
          obtain ⟨result, _, same⟩ := Option.map_eq_some_iff.mp h
          cases same
          exact ⟨_, rfl, noref⟩

theorem Ast.Parsed.distinct {ast : Ast} (h : ast.Parsed) (checked : ast.redefineCheck.1 = true)
    {root : AstObject} (there : ast.astRoot = some root) : DistinctSiblings Label.key root := by
  rw [Ast.redefineCheck, h.unchecked, there] at checked
  exact DistinctSiblings.key_of_name (noRedefinition_iff.mp (by simpa using checked))

theorem mergeLoop_merged {this merged : Ast} {astList : List Ast}
    (h : this.mergeLoop astList = some merged) (before : this.Merged)
    (each : ∀ ast ∈ astList, ast.Parsed) : merged.Merged := by
  induction astList generalizing this with
  | nil => cases h; exact before
  | cons astIt rest ih =>
    have later : ∀ ast ∈ rest, ast.Parsed :=
      fun ast member => each ast (List.mem_cons_of_mem _ member)
    have head := each astIt List.mem_cons_self
    rw [Ast.mergeLoop] at h
    split at h
    case isTrue => cases h
    case isFalse checked =>
      have checked : astIt.redefineCheck.1 = true := by simpa using checked
      split at h
      case h_1 =>
        refine ih h ⟨head.plain, fun root there => ?_⟩ later
        exact head.distinct checked there
      case h_2 root there =>
        split at h
        case h_1 => exact ih h before later
        case h_2 srcRoot srcThere =>
          split at h
          case h_1 new merging =>
            refine ih h ⟨fun root same => ?_, fun root same => ?_⟩ later
            · cases same
              exact mergeObject_plainRoot merging (head.plain _ srcThere)
            · cases same
              exact mergeObject_keepsKeys merging (head.distinct checked srcThere)
                (before.distinct _ there)
          case h_2 => exact ih h before later
          case h_3 => cases h

theorem parsed_mergeOrder {astList : List Ast} (each : ∀ ast ∈ astList, ast.Parsed) :
    ∀ ast ∈ mergeOrder astList, ast.Parsed := by
  intro ast member
  cases astList with
  | nil => cases member
  | cons main included =>
    refine each ast ?_
    rw [mergeOrder, List.mem_append, List.mem_singleton] at member
    exact List.mem_cons.mpr member.symm

theorem mergeFiles_merged {astList : List Ast} {ast : Ast} (h : mergeFiles astList = some ast)
    (each : ∀ ast ∈ astList, ast.Parsed) : ast.Merged := by
  have order := parsed_mergeOrder each
  unfold mergeFiles at h
  split at h
  case h_1 => cases h
  case h_2 first rest split =>
    rw [split] at order
    have head := order first List.mem_cons_self
    unfold Ast.merge at h
    dsimp only at h
    split at h
    case isFalse => cases h
    case isTrue checked =>
      refine mergeLoop_merged h ⟨fun root there => ?_, fun root there => ?_⟩
        fun ast member => order ast (List.mem_cons_of_mem _ member)
      · refine head.plain root ?_
        unfold Ast.redefineCheck at there
        split at there <;> exact there
      · refine head.distinct checked ?_
        unfold Ast.redefineCheck at there
        split at there <;> exact there

theorem MergedFrom.merged {fs : FileSystem} {main : Bytes} {ast : Ast} {fresh : ℕ}
    (h : MergedFrom fs main ast fresh) : ast.Merged := by
  obtain ⟨astList, reads, merges⟩ := h
  exact mergeFiles_merged merges (readRound_parsed reads)

/-- The expansion of a merged AST starts from its root. -/
theorem Ast.expand_root {ast : Ast} {fresh fresh' : ℕ} {root : AstObject}
    (h : ast.expand fresh = .next (start root fresh')) : ast.astRoot = some root := by
  unfold Ast.expand at h
  split at h
  · cases h
  · rename_i root' there
    split at h
    · cases h
    · split at h
      · cases h
      · cases h
        exact there

end Hdf.HcGen
