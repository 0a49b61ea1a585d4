import Hdf.HcGen.TextNames

/-!
# The macros of a configuration

The macro generator takes the templates out of the AST and writes macros for every node
and every term that is left. They all start with the names on the way from the root to the
object, with underlines between them. A name may have underlines itself, and so the way
to one object may read like the way to another one.

Two objects can only read the same from siblings on, where the name of one is the name of
the other with an underline and something more.

Of the macros only their common start is kept.

## Main results

* `nodup_macroPrefixes_iff`: when the starts are distinct
* `generatedNames_iff`, `generatedNames_collide`: when the names of both generators are distinct,
  and a configuration where they are not
-/

namespace Hdf.HcGen.MacroGen

/-- The separator of names. -/
def sep : Bytes := ascii "_"

/-- `MacroGen::GenFullName`. -/
def genFullName (nodeNameMap : ℕ → Bytes) (depth : ℕ) (name : Bytes) : Bytes :=
  ((List.range depth).flatMap fun i => nodeNameMap i ++ sep) ++ name

/-- An object that `MacroGen::TemplateNodeSeparate` takes out. -/
def isTemplate : AstObject → Bool
  | .node node _ => node.nodeType == .template
  | .leaf _ => false

mutual

/-- `MacroGen::TemplateNodeSeparate`. -/
def templateNodeSeparate : AstObject → AstObject
  | .leaf leaf => .leaf leaf
  | .node node children => .node node (templateNodeSeparateList children)

def templateNodeSeparateList : List AstObject → List AstObject
  | [] => []
  | child :: rest =>
    if isTemplate child then templateNodeSeparateList rest
    else templateNodeSeparate child :: templateNodeSeparateList rest

end

mutual

/-- `MacroGen::NodeWalk`, with the names of the nodes on the way to an object. -/
def nodeWalk (depth : ℕ) (nodeNameMap : ℕ → Bytes) : AstObject → List Bytes × (ℕ → Bytes)
  | .leaf (.term term) => ([genFullName nodeNameMap depth term.name], nodeNameMap)
  | .leaf (.value _) => ([], nodeNameMap)
  | .node node children =>
    let nodeNameMap := Function.update nodeNameMap depth node.name
    let (prefixes, after) := nodeWalkList (depth + 1) nodeNameMap children
    (genFullName nodeNameMap depth node.name :: prefixes, after)

def nodeWalkList (depth : ℕ) (nodeNameMap : ℕ → Bytes) :
    List AstObject → List Bytes × (ℕ → Bytes)
  | [] => ([], nodeNameMap)
  | child :: rest =>
    let (prefixes, nodeNameMap) := nodeWalk depth nodeNameMap child
    let (more, nodeNameMap) := nodeWalkList depth nodeNameMap rest
    (prefixes ++ more, nodeNameMap)

end

/-- What the macros of the nodes and terms start with, for a file that can be written. -/
def macroPrefixes (root : AstObject) : List Bytes :=
  (nodeWalk 0 (fun _ => []) (templateNodeSeparate root)).1

/-! ### Names below an object -/

mutual

/-- The ways from an object to those below it, read with underlines. -/
def ways : AstObject → List Bytes
  | .leaf (.term term) => [term.name]
  | .leaf (.value _) => []
  | .node node children => node.name :: (waysList children).map fun way => node.name ++ sep ++ way

def waysList : List AstObject → List Bytes
  | [] => []
  | child :: rest => ways child ++ waysList rest

end

theorem waysList_eq (children : List AstObject) : waysList children = children.flatMap ways := by
  induction children with
  | nil => rfl
  | cons child rest ih => rw [waysList, ih, List.flatMap_cons]

/-- An object with macros. -/
def hasMacros : AstObject → Bool
  | .leaf (.value _) => false
  | _ => true

/-- The name of an object is that of another one with something more, and a way below the other one
reads like the rest, or like the rest and a way below the object. -/
def Hides (a b : AstObject) : Prop :=
  ∃ rest, name b = name a ++ sep ++ rest ∧ ∃ way ∈ waysList a.children,
    way = rest ∨ ∃ way' ∈ waysList b.children, way = rest ++ sep ++ way'

/-- Two siblings below which something reads the same. -/
def Overlap (a b : AstObject) : Prop :=
  hasMacros a ∧ hasMacros b ∧ (name a = name b ∨ Hides a b ∨ Hides b a)

/-- No two siblings below an object overlap. -/
def Apart (object : AstObject) : Prop :=
  ∀ p below, object.get? p = some below → below.children.Pairwise fun a b => ¬ Overlap a b

section

variable {nodeNameMap : ℕ → Bytes} {depth : ℕ} {a b : AstObject}

/-- The names of the nodes in front of an object. -/
def front (nodeNameMap : ℕ → Bytes) (depth : ℕ) : Bytes :=
  (List.range depth).flatMap fun i => nodeNameMap i ++ sep

theorem front_succ : front nodeNameMap (depth + 1) =
    front nodeNameMap depth ++ nodeNameMap depth ++ sep := by
  rw [front, List.range_succ, List.flatMap_append, List.flatMap_singleton, ← List.append_assoc]
  rfl

theorem front_congr {nodeNameMap' : ℕ → Bytes}
    (same : ∀ i < depth, nodeNameMap' i = nodeNameMap i) :
    front nodeNameMap' depth = front nodeNameMap depth := by
  refine List.flatMap_congr fun i member => ?_
  rw [same i (List.mem_range.mp member)]

mutual

/-- The walk writes the ways below an object behind the names in front of it. -/
theorem nodeWalk_eq (depth : ℕ) (nodeNameMap : ℕ → Bytes) :
    ∀ object, (nodeWalk depth nodeNameMap object).1 =
        (ways object).map (fun way => front nodeNameMap depth ++ way) ∧
      ∀ i < depth, (nodeWalk depth nodeNameMap object).2 i = nodeNameMap i
  | .leaf (.term term) => by
    rw [nodeWalk, ways]
    exact ⟨rfl, fun _ _ => rfl⟩
  | .leaf (.value _) => by
    rw [nodeWalk, ways]
    exact ⟨rfl, fun _ _ => rfl⟩
  | .node node children => by
    obtain ⟨written, kept⟩ := nodeWalkList_eq (depth + 1)
      (Function.update nodeNameMap depth node.name) children
    have before : ∀ i < depth, Function.update nodeNameMap depth node.name i = nodeNameMap i :=
      fun i less => Function.update_of_ne less.ne ..
    have start := front_congr before
    rw [nodeWalk, ways]
    refine ⟨?_, fun i less => (kept i (Nat.lt_succ_of_lt less)).trans (before i less)⟩
    change genFullName _ depth node.name :: (nodeWalkList (depth + 1) _ children).1 = _
    rw [List.map_cons, List.map_map, written, front_succ, start, Function.update_self]
    refine congrArg₂ _ (congrArg (· ++ node.name) start) (List.map_congr_left fun way _ => ?_)
    simp only [Function.comp_apply, List.append_assoc]

theorem nodeWalkList_eq (depth : ℕ) (nodeNameMap : ℕ → Bytes) :
    ∀ children, (nodeWalkList depth nodeNameMap children).1 =
        (waysList children).map (fun way => front nodeNameMap depth ++ way) ∧
      ∀ i < depth, (nodeWalkList depth nodeNameMap children).2 i = nodeNameMap i
  | [] => by
    rw [nodeWalkList, waysList]
    exact ⟨rfl, fun _ _ => rfl⟩
  | child :: rest => by
    obtain ⟨written, kept⟩ := nodeWalk_eq depth nodeNameMap child
    obtain ⟨written', kept'⟩ := nodeWalkList_eq depth (nodeWalk depth nodeNameMap child).2 rest
    rw [nodeWalkList, waysList]
    refine ⟨?_, fun i less => (kept' i less).trans (kept i less)⟩
    rw [List.map_append, ← written, ← front_congr kept, ← written']

end

/-- The macros start with the ways from the root. -/
theorem macroPrefixes_eq (root : AstObject) :
    macroPrefixes root = ways (templateNodeSeparate root) := by
  rw [macroPrefixes, (nodeWalk_eq 0 _ _).1]
  exact List.map_id _

end

/-! ### Ways that read the same -/

section

variable {object a b : AstObject} {way : Bytes}

/-- A way from an object ends there, or goes on below it. -/
theorem mem_ways_iff (macros : hasMacros object) : way ∈ ways object ↔
    way = name object ∨ ∃ rest ∈ waysList object.children, way = name object ++ sep ++ rest := by
  cases object with
  | leaf leaf =>
    cases leaf with
    | value value => cases macros
    | term term => simp [ways, waysList, name, Label.name, Tree.children, Tree.label]
  | node node children =>
    rw [ways, List.mem_cons, List.mem_map]
    refine or_congr Iff.rfl (exists_congr fun rest => and_congr_right fun _ => eq_comm)

theorem ways_of_no_macros (none : hasMacros object = false) : ways object = [] := by
  cases object with
  | leaf leaf =>
    cases leaf with
    | value value => rfl
    | term term => cases none
  | node node children => cases none

/-- A text with an underline in front that starts like another one. -/
theorem split_sep_left {x t m k : Bytes} (same : sep ++ m = t ++ (sep ++ k)) :
    x = x ++ t ∨ ∃ rest, x ++ t = x ++ sep ++ rest ∧ m = rest ++ sep ++ k := by
  cases t with
  | nil => exact .inl (List.append_nil x).symm
  | cons c rest =>
    obtain ⟨rfl, behind⟩ := List.cons.inj same
    refine .inr ⟨rest, ?_, ?_⟩
    · rw [List.append_assoc]
      rfl
    · rw [List.append_assoc]
      exact behind

/-- Two names with an underline behind each in one text. -/
theorem split_sep {x y m k : Bytes} (same : x ++ sep ++ m = y ++ sep ++ k) :
    x = y ∨ (∃ rest, y = x ++ sep ++ rest ∧ m = rest ++ sep ++ k) ∨
      ∃ rest, x = y ++ sep ++ rest ∧ k = rest ++ sep ++ m := by
  rw [List.append_assoc, List.append_assoc, List.append_eq_append_iff] at same
  rcases same with ⟨t, rfl, same⟩ | ⟨t, rfl, same⟩
  · exact (split_sep_left same).imp_right .inl
  · exact (split_sep_left same).imp Eq.symm .inr

/-- What one object hides of another one can be reached from both. -/
theorem exists_way_of_hides (macros : hasMacros a) (macros' : hasMacros b) (hides : Hides a b) :
    ∃ way ∈ ways a, way ∈ ways b := by
  obtain ⟨rest, longer, way, member, same⟩ := hides
  refine ⟨name a ++ sep ++ way, (mem_ways_iff macros).mpr (.inr ⟨way, member, rfl⟩),
    (mem_ways_iff macros').mpr ?_⟩
  rcases same with rfl | ⟨way', member', rfl⟩
  · exact .inl longer.symm
  · refine .inr ⟨way', member', ?_⟩
    simp only [longer, List.append_assoc]

/-- Two siblings overlap where a way from one reads like a way from the other. -/
theorem exists_way_iff : (∃ way ∈ ways a, way ∈ ways b) ↔ Overlap a b := by
  constructor
  · rintro ⟨way, first, second⟩
    have macros : hasMacros a := by
      by_contra none
      rw [ways_of_no_macros (Bool.eq_false_of_not_eq_true none)] at first
      exact List.not_mem_nil first
    have macros' : hasMacros b := by
      by_contra none
      rw [ways_of_no_macros (Bool.eq_false_of_not_eq_true none)] at second
      exact List.not_mem_nil second
    refine ⟨macros, macros', ?_⟩
    rcases (mem_ways_iff macros).mp first with rfl | ⟨m, below, rfl⟩ <;>
      rcases (mem_ways_iff macros').mp second with same | ⟨k, below', same⟩
    · exact .inl same
    · exact .inr (.inr ⟨k, same, k, below', .inl rfl⟩)
    · exact .inr (.inl ⟨m, same.symm, m, below, .inl rfl⟩)
    · rcases split_sep same with equal | ⟨rest, longer, through⟩ | ⟨rest, longer, through⟩
      · exact .inl equal
      · exact .inr (.inl ⟨rest, longer, m, below, .inr ⟨k, below', through⟩⟩)
      · exact .inr (.inr ⟨rest, longer, k, below', .inr ⟨m, below, through⟩⟩)
  · rintro ⟨macros, macros', equal | hides | hides⟩
    · exact ⟨name a, (mem_ways_iff macros).mpr (.inl rfl),
        (mem_ways_iff macros').mpr (.inl equal)⟩
    · exact exists_way_of_hides macros macros' hides
    · obtain ⟨way, first, second⟩ := exists_way_of_hides macros' macros hides
      exact ⟨way, second, first⟩

theorem disjoint_ways_iff : (ways a).Disjoint (ways b) ↔ ¬ Overlap a b := by
  rw [← exists_way_iff, not_exists]
  exact forall_congr' fun way => by rw [not_and]

/-- The ways from a node are distinct where those from its children are. -/
theorem nodup_ways_node {node : ConfigNode} {children : List AstObject} :
    (ways (.node node children)).Nodup ↔
      (∀ child ∈ children, (ways child).Nodup) ∧ children.Pairwise fun a b => ¬ Overlap a b := by
  have longer : node.name ∉ (waysList children).map fun way => node.name ++ sep ++ way := by
    intro member
    obtain ⟨way, -, same⟩ := List.mem_map.mp member
    have lengths := congrArg List.length same
    rw [List.append_assoc, List.length_append, List.length_append] at lengths
    have one : sep.length = 1 := rfl
    omega
  have injective : Function.Injective fun way => node.name ++ sep ++ way :=
    fun _ _ same => List.append_cancel_left same
  rw [ways, List.nodup_cons, and_iff_right longer, List.nodup_map_iff injective, waysList_eq,
    List.nodup_flatMap]
  exact and_congr_right fun _ => List.Pairwise.iff fun _ _ => disjoint_ways_iff

/-- The ways from an object are distinct where no siblings below it overlap. -/
theorem nodup_ways_iff (object : AstObject) : (ways object).Nodup ↔ Apart object := by
  induction object using Tree.induct with
  | leaf leaf =>
    refine iff_of_true ?_ fun p below found => ?_
    · cases leaf with
      | value value => exact List.nodup_nil
      | term term => exact List.nodup_singleton _
    · cases p with
      | nil =>
        cases found
        exact .nil
      | cons i p =>
        rw [Tree.get?_leaf_cons] at found
        cases found
  | node node children ih =>
    rw [nodup_ways_node, Apart, Tree.forall_get?_node, and_comm]
    refine and_congr Iff.rfl ?_
    constructor
    · intro distinct i child there p below found
      have member := List.mem_of_getElem? there
      exact (ih child member).mp (distinct child member) p below found
    · intro apart child member
      obtain ⟨i, there⟩ := List.mem_iff_getElem?.mp member
      exact (ih child member).mpr (apart i child there)

/-- What the macros start with is distinct where no two siblings overlap. -/
theorem nodup_macroPrefixes_iff (root : AstObject) :
    (macroPrefixes root).Nodup ↔ Apart (templateNodeSeparate root) := by
  rw [macroPrefixes_eq, nodup_ways_iff]

end

end Hdf.HcGen.MacroGen

namespace Hdf.HcGen

/-- The variables of the C file, when it is written, have distinct names, and the macros of
different nodes and terms start with distinct names. -/
def GeneratedDistinct (symbolPrefix : Bytes) (root : AstObject) : Prop :=
  ((TextGen.output symbolPrefix root).isSome →
    (TextGen.variableNames symbolPrefix root).Nodup) ∧
    (MacroGen.macroPrefixes root).Nodup

/-- The names are distinct just if, where a C file is written, no numbered name is another one, and
no two siblings overlap. -/
theorem generatedNames_iff (symbolPrefix : Bytes) (root : AstObject) :
    GeneratedDistinct symbolPrefix root ↔
      ((TextGen.output symbolPrefix root).isSome →
        TextGen.Clear (TextGen.prefixOf symbolPrefix) root) ∧
      MacroGen.Apart (MacroGen.templateNodeSeparate root) := by
  rw [GeneratedDistinct, TextGen.nodup_variableNames_iff, MacroGen.nodup_macroPrefixes_iff]

/-- The second table of one name has the number that ends the name of the third one. -/
def numberedTemplates : FileSystem :=
  .single (ascii "a.hcs")
    (ascii
      "root \x7b module = \"m\"; template a_b \x7b x = 1; \x7d template aB \x7b x = 1; \x7d
        template aB2 \x7b x = 1; \x7d n1 :: a_b \x7b x = 2; \x7d n2 :: aB \x7b x = 2; \x7d
        n3 :: aB2 \x7b x = 2; \x7d \x7d")

/-- A name has an underline where another one is followed by the name of a term. -/
def underlinedName : FileSystem :=
  .single (ascii "a.hcs")
    (ascii "root \x7b module = \"m\"; p \x7b q = 1; \x7d p_q = 2; \x7d")

private theorem collisions_evaluated :
    expansionPasses numberedTemplates (ascii "a.hcs") (fun _ => true)
        (fun root => (TextGen.output [] root).isSome &&
          !decide (TextGen.variableNames [] root).Nodup) 60 = true ∧
      expansionPasses underlinedName (ascii "a.hcs") (fun _ => true)
        (fun root => !decide (MacroGen.macroPrefixes root).Nodup) 40 = true := by
  rw [numberedTemplates, underlinedName]
  iterate 3 rw [ascii_ofList]
  decide +kernel

/-- A source is expanded, and the names that are made from it are not distinct. -/
def Collides (fs : FileSystem) : Prop :=
  ∃ ast fresh root, MergedFrom fs (ascii "a.hcs") ast fresh ∧
    ast.Expands fresh (.returned true root) ∧ ¬ GeneratedDistinct [] root

theorem generatedNames_collide : Collides numberedTemplates ∧ Collides underlinedName := by
  constructor
  · obtain ⟨ast, fresh, root, merged, expands, -, found⟩ :=
      exists_expansion collisions_evaluated.1
    obtain ⟨written, same⟩ := Bool.and_eq_true_iff.mp found
    refine ⟨ast, fresh, root, merged, expands, fun distinct => ?_⟩
    exact of_decide_eq_false (by simpa using same) (distinct.1 written)
  · obtain ⟨ast, fresh, root, merged, expands, -, same⟩ :=
      exists_expansion collisions_evaluated.2
    refine ⟨ast, fresh, root, merged, expands, fun distinct => ?_⟩
    exact of_decide_eq_false (by simpa using same) distinct.2

end Hdf.HcGen
