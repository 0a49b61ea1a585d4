import Hdf.HcGen.Merged
import Hdf.Lib.KeyedTree

/-!
# What merging means

Seen as a partial map from key paths to objects, a merged AST is the overlay of
the files' maps in the order of merging: a path is defined when some file
defines it, a node takes its type and reference from the last file that declares
it, and a term its value. Nothing is ever removed: the branch of
`ConfigNode::Merge` that separates the nodes compares the node type, which is at
most 5, with the token code of `delete`.

## Main results

* `mergeObject_ne_removed`: merging never separates a node
* `labelUnder_mergeObject`: `Merge` overrides path by path
* `define_mergeFiles`: the merged AST is the overlay of the files
-/

namespace Hdf.HcGen

open Transition
open Hdf.Tree hiding node leaf

/-- Name and type of a child on a path. -/
abbrev Key := Bytes × ObjectType

/-- The keys on the way to an object, outermost first. -/
abbrev Path := List Key

/-- The object `this` after the `Merge` of `src`, apart from its children. -/
def mergeLabel : Label → Label → Label
  | .inl src, .inl this =>
    .inl { this with nodeType := src.nodeType, refNodePath := src.refNodePath }
  | .inr src, .inr this => .inr ((mergeLeaf src this).getD this)
  | _, this => this

/-- A later definition of a path over an earlier one. -/
def override : Option Label → Option Label → Option Label
  | none, this => this
  | some src, none => some src
  | some src, some this => some (mergeLabel src this)

@[simp] theorem override_none_left (l : Option Label) : override none l = l := rfl

@[simp] theorem override_none_right (l : Option Label) : override l none = l := by cases l <;> rfl

theorem isSome_override {src this : Option Label} :
    (override src this).isSome = (src.isSome || this.isSome) := by
  cases src <;> cases this <;> rfl

theorem key_mergeLabel (src this : Label) : Label.key (mergeLabel src this) = Label.key this := by
  rcases src with src | src <;> rcases this with this | this
  · rfl
  · rfl
  · rfl
  · cases merged : mergeLeaf src this with
    | none => rw [mergeLabel, merged]; rfl
    | some leaf =>
      rw [mergeLabel, merged]
      exact mergeLeaf_key merged

/-! ### Merging objects -/

/-- The type test for the separation of a node in `ConfigNode::Merge` always fails. -/
theorem nodeType_code_ne_delete (t : NodeRefType) : t.code ≠ TokenType.delete.code := by
  cases t <;> decide

theorem mergeObject_ne_removed (src this : AstObject) : mergeObject src this ≠ some none := by
  intro h
  cases src with
  | leaf src => cases this <;> simp [mergeObject] at h
  | node src srcChildren =>
    cases this with
    | leaf => simp [mergeObject] at h
    | node this children =>
      rw [mergeObject, if_neg (nodeType_code_ne_delete _)] at h
      split at h
      · cases h
      · obtain ⟨_, _, same⟩ := Option.map_eq_some_iff.mp h
        cases same

section

variable {src this merged : AstObject} {srcs children result : List AstObject}

theorem mergeObject_key (h : mergeObject src this = some (some merged)) :
    Label.key merged.label = Label.key this.label := by
  cases src with
  | leaf src =>
    cases this with
    | node => simp [mergeObject] at h
    | leaf this =>
      rw [mergeObject] at h
      obtain ⟨leaf, result, same⟩ := Option.map_eq_some_iff.mp h
      cases same
      exact mergeLeaf_key result
  | node src srcChildren =>
    cases this with
    | leaf => simp [mergeObject] at h
    | node this children =>
      rw [mergeObject, if_neg (nodeType_code_ne_delete _)] at h
      split at h
      · cases h
      · obtain ⟨_, _, same⟩ := Option.map_eq_some_iff.mp h
        cases same
        rfl

theorem mergeObject_label (h : mergeObject src this = some (some merged)) :
    merged.label = mergeLabel src.label this.label := by
  cases src with
  | leaf src =>
    cases this with
    | node => simp [mergeObject] at h
    | leaf this =>
      rw [mergeObject] at h
      obtain ⟨leaf, result, same⟩ := Option.map_eq_some_iff.mp h
      cases same
      rw [label_leaf, label_leaf, label_leaf, mergeLabel, result]
      rfl
  | node src srcChildren =>
    cases this with
    | leaf => simp [mergeObject] at h
    | node this children =>
      rw [mergeObject, if_neg (nodeType_code_ne_delete _)] at h
      split at h
      · cases h
      · obtain ⟨_, _, same⟩ := Option.map_eq_some_iff.mp h
        cases same
        rfl

/-- The source children that the loop of `ConfigNode::Merge` has for a key are merged
into the ones that were there. -/
structure Overlaid (srcs children result : List AstObject) (k : Key) : Prop where
  kept : childBy Label.key k srcs = none →
    childBy Label.key k result = childBy Label.key k children
  added : ∀ src, childBy Label.key k srcs = some src → childBy Label.key k children = none →
    childBy Label.key k result = some src
  merged : ∀ src this, childBy Label.key k srcs = some src →
    childBy Label.key k children = some this →
    ∃ new, mergeObject src this = some (some new) ∧ childBy Label.key k result = some new

private theorem nodup_set {i : ℕ} {new : AstObject} (there : children[i]? = some this)
    (same : Label.key new.label = Label.key this.label)
    (distinct : (children.map fun c => Label.key c.label).Nodup) :
    ((children.set i new).map fun c => Label.key c.label).Nodup := by
  have keys : (children.set i new).map (fun c => Label.key c.label) =
      children.map fun c => Label.key c.label := by
    apply List.ext_getElem?
    intro n
    rw [List.getElem?_map, List.getElem?_set, List.getElem?_map]
    by_cases eq : i = n
    · subst eq
      rw [if_pos rfl, if_pos (List.getElem?_eq_some_iff.mp there).1, there]
      exact congrArg some same
    · simp [eq]
  rwa [keys]

theorem mergeChildren_overlaid (h : mergeChildren srcs children = some result)
    (distinctSrcs : (srcs.map fun c => Label.key c.label).Nodup)
    (distinct : (children.map fun c => Label.key c.label).Nodup) (k : Key) :
    Overlaid srcs children result k := by
  induction srcs generalizing children with
  | nil =>
    rw [mergeChildren] at h
    cases h
    exact ⟨fun _ => rfl, by simp, by simp⟩
  | cons src rest ih =>
    rw [List.map_cons, List.nodup_cons] at distinctSrcs
    obtain ⟨new, distinctRest⟩ := distinctSrcs
    rw [mergeChildren] at h
    split at h
    case h_1 absent =>
      have absent : Label.key src.label ∉ children.map fun c => Label.key c.label :=
        lookupIndex_eq_none_iff.mp absent
      have distinct' : ((children ++ [src]).map fun c => Label.key c.label).Nodup := by
        rw [List.map_append, List.map_singleton, ← List.concat_eq_append]
        exact List.Nodup.concat absent distinct
      have later := ih h distinctRest distinct'
      by_cases own : Label.key src.label = k
      · subst own
        have restNone : childBy Label.key (Label.key src.label) rest = none :=
          childBy_eq_none_iff.mpr fun c member same => new (same ▸ List.mem_map_of_mem member)
        have noneYet : childBy Label.key (Label.key src.label) children = none :=
          childBy_eq_none_iff.mpr fun c member same => absent (same ▸ List.mem_map_of_mem member)
        have found := later.kept restNone
        rw [childBy_append, noneYet, Option.none_or, childBy_cons, if_pos rfl] at found
        refine ⟨fun none => ?_, fun src' there _ => ?_, fun _ this _ there => ?_⟩
        · rw [childBy_cons, if_pos rfl] at none
          cases none
        · rw [childBy_cons, if_pos rfl] at there
          rw [found, there]
        · cases noneYet.symm.trans there
      · have srcs : childBy Label.key k (src :: rest) = childBy Label.key k rest := by
          rw [childBy_cons, if_neg own]
        have old : childBy Label.key k (children ++ [src]) = childBy Label.key k children := by
          rw [childBy_append, childBy_cons, if_neg own, childBy_nil, Option.or_none]
        obtain ⟨kept, added, merged⟩ := later
        rw [old] at kept added merged
        exact ⟨srcs ▸ kept, srcs ▸ added, srcs ▸ merged⟩
    case h_2 i present =>
      split at h
      case h_1 => cases h
      case h_2 childDst there =>
        obtain ⟨c, there', named, typed⟩ := lookupIndex_spec present
        obtain rfl : c = childDst := Option.some.inj (there'.symm.trans there)
        have key : Label.key c.label = Label.key src.label := Prod.ext named typed
        split at h
        case h_1 => cases h
        case h_2 removed => exact absurd removed (mergeObject_ne_removed _ _)
        case h_3 merged merges =>
          have same := mergeObject_key merges
          have later := ih h distinctRest (nodup_set there same distinct)
          by_cases own : Label.key src.label = k
          · subst own
            have restNone : childBy Label.key (Label.key src.label) rest = none :=
              childBy_eq_none_iff.mpr fun c member same => new (same ▸ List.mem_map_of_mem member)
            have before : childBy Label.key (Label.key src.label) children = some c :=
              (childBy_eq_some_iff distinct).mpr ⟨List.mem_of_getElem? there, key⟩
            have found := later.kept restNone
            rw [childBy_set distinct there same, if_pos key] at found
            refine ⟨fun none => ?_, fun _ _ none => ?_, fun src' this srcThere thisThere => ?_⟩
            · rw [childBy_cons, if_pos rfl] at none
              cases none
            · cases before.symm.trans none
            · rw [childBy_cons, if_pos rfl] at srcThere
              cases srcThere
              cases before.symm.trans thisThere
              exact ⟨merged, merges, found⟩
          · have srcs : childBy Label.key k (src :: rest) = childBy Label.key k rest := by
              rw [childBy_cons, if_neg own]
            have old : childBy Label.key k (children.set i merged) =
                childBy Label.key k children := by
              rw [childBy_set distinct there same, if_neg (key ▸ own)]
            obtain ⟨kept, added, replaced⟩ := later
            rw [old] at kept added replaced
            exact ⟨srcs ▸ kept, srcs ▸ added, srcs ▸ replaced⟩

/-- `Merge` overrides path by path. -/
theorem labelUnder_mergeObject (h : mergeObject src this = some (some merged))
    (distinctSrc : DistinctSiblings Label.key src) (distinct : DistinctSiblings Label.key this)
    (path : Path) : labelUnder Label.key merged path =
      override (labelUnder Label.key src path) (labelUnder Label.key this path) := by
  induction path generalizing src this merged with
  | nil => exact congrArg some (mergeObject_label h)
  | cons k path ih =>
    rw [labelUnder_cons, labelUnder_cons, labelUnder_cons]
    cases src with
    | leaf src =>
      cases this with
      | node => simp [mergeObject] at h
      | leaf this =>
        rw [mergeObject] at h
        obtain ⟨leaf, _, same⟩ := Option.map_eq_some_iff.mp h
        cases same
        rfl
    | node src srcChildren =>
      cases this with
      | leaf => simp [mergeObject] at h
      | node this children =>
        rw [mergeObject, if_neg (nodeType_code_ne_delete _)] at h
        split at h
        · cases h
        · obtain ⟨result, merging, same⟩ := Option.map_eq_some_iff.mp h
          cases same
          have overlaid :=
            mergeChildren_overlaid merging (distinctSrc [] _ rfl) (distinct [] _ rfl) k
          rw [children_node, children_node, children_node]
          cases srcThere : childBy Label.key k srcChildren with
          | none => rw [overlaid.kept srcThere]; rfl
          | some s =>
            cases thisThere : childBy Label.key k children with
            | none =>
              rw [overlaid.added s srcThere thisThere]
              exact (override_none_right _).symm
            | some d =>
              obtain ⟨new, merges, there⟩ := overlaid.merged s d srcThere thisThere
              rw [there]
              refine ih merges ?_ ?_
              · exact (distinctSiblings_node.mp distinctSrc).2 s (mem_of_childBy srcThere)
              · exact (distinctSiblings_node.mp distinct).2 d (mem_of_childBy thisThere)

end

/-! ### Merging files -/

/-- The definition that an AST has for a path. -/
def Ast.define (ast : Ast) (path : Path) : Option Label :=
  ast.astRoot.bind fun root => labelUnder Label.key root path

/-- The definitions of a list of ASTs, the last one on top. -/
def overlay (asts : List Ast) (path : Path) : Option Label :=
  asts.foldl (fun below ast => override (ast.define path) below) none

theorem overlay_append (asts : List Ast) (ast : Ast) (path : Path) :
    overlay (asts ++ [ast]) path = override (ast.define path) (overlay asts path) := by
  rw [overlay, List.foldl_append]
  rfl

theorem key_of_define {ast : Ast} {path : Path} {k : Key} {l : Label}
    (h : ast.define (path ++ [k]) = some l) : Label.key l = k := by
  obtain ⟨root, _, there⟩ := Option.bind_eq_some_iff.mp h
  exact key_of_labelUnder there

theorem key_of_overlay {asts : List Ast} {path : Path} {k : Key} {l : Label}
    (h : overlay asts (path ++ [k]) = some l) : Label.key l = k := by
  induction asts using List.reverseRecOn generalizing l with
  | nil => cases h
  | append_singleton asts ast ih =>
    rw [overlay_append] at h
    cases top : ast.define (path ++ [k]) with
    | none =>
      rw [top, override_none_left] at h
      exact ih h
    | some src =>
      rw [top] at h
      cases below : overlay asts (path ++ [k]) with
      | none =>
        rw [below, override_none_right] at h
        exact key_of_define (h ▸ top)
      | some this =>
        rw [below] at h
        cases h
        exact (key_mergeLabel _ _).trans (ih below)

/-- A path is defined when some AST defines it. -/
theorem isSome_overlay {asts : List Ast} {path : Path} :
    (overlay asts path).isSome ↔ ∃ ast ∈ asts, (ast.define path).isSome := by
  induction asts using List.reverseRecOn with
  | nil => simp [overlay]
  | append_singleton asts ast ih =>
    rw [overlay_append, isSome_override, Bool.or_eq_true, ih]
    simp [or_and_right, exists_or, or_comm]

private theorem mergeLoop_define {this merged : Ast} {astList done : List Ast}
    (h : this.mergeLoop astList = some merged) (before : this.Merged)
    (each : ∀ ast ∈ astList, ast.Parsed) (path : Path)
    (so_far : this.define path = overlay done path) :
    merged.define path = overlay (done ++ astList) path := by
  induction astList generalizing this done with
  | nil =>
    cases h
    rw [List.append_nil, so_far]
  | cons astIt rest ih =>
    have later : ∀ ast ∈ rest, ast.Parsed :=
      fun ast member => each ast (List.mem_cons_of_mem _ member)
    have head := each astIt List.mem_cons_self
    have split : done ++ astIt :: rest = (done ++ [astIt]) ++ rest := by simp
    rw [split]
    rw [Ast.mergeLoop] at h
    split at h
    case isTrue => cases h
    case isFalse checked =>
      have checked : astIt.redefineCheck.1 = true := by simpa using checked
      split at h
      case h_1 nothing =>
        refine ih h ⟨head.plain, fun root there => head.distinct checked there⟩ later ?_
        have none : this.define path = none := by rw [Ast.define, nothing]; rfl
        rw [overlay_append, ← so_far, none, override_none_right]
        rfl
      case h_2 root there =>
        split at h
        case h_1 nothing =>
          refine ih h before later ?_
          have none : astIt.define path = none := by rw [Ast.define, nothing]; rfl
          rw [overlay_append, none, override_none_left, so_far]
        case h_2 srcRoot srcThere =>
          split at h
          case h_1 new merging =>
            have distinctSrc := head.distinct checked srcThere
            have distinct := before.distinct _ there
            refine ih h ⟨fun root same => ?_, fun root same => ?_⟩ later ?_
            · cases same
              exact mergeObject_plainRoot merging (head.plain _ srcThere)
            · cases same
              exact mergeObject_keepsKeys merging distinctSrc distinct
            · rw [overlay_append, ← so_far, Ast.define, Ast.define, Ast.define, there, srcThere]
              exact labelUnder_mergeObject merging distinctSrc distinct path
          case h_2 removed => exact absurd removed (mergeObject_ne_removed _ _)
          case h_3 => cases h

/-- The merged AST is the overlay of the files in the order of merging. -/
theorem define_mergeFiles {astList : List Ast} {ast : Ast} (h : mergeFiles astList = some ast)
    (each : ∀ ast ∈ astList, ast.Parsed) (path : Path) :
    ast.define path = overlay (mergeOrder astList) path := by
  have order := parsed_mergeOrder each
  unfold mergeFiles at h
  split at h
  case h_1 => cases h
  case h_2 first rest split =>
    rw [split] at order ⊢
    have head := order first List.mem_cons_self
    unfold Ast.merge at h
    dsimp only at h
    split at h
    case isFalse => cases h
    case isTrue checked =>
      have same : first.redefineCheck.2.astRoot = first.astRoot := by
        unfold Ast.redefineCheck
        split <;> rfl
      have alone : Ast.define first.redefineCheck.2 path = overlay [first] path := by
        rw [Ast.define, same]
        exact (override_none_right _).symm
      refine mergeLoop_define h ⟨fun root there => ?_, fun root there => ?_⟩
        (fun ast member => order ast (List.mem_cons_of_mem _ member)) path alone
      · exact head.plain root (same ▸ there)
      · exact head.distinct checked (same ▸ there)

end Hdf.HcGen
