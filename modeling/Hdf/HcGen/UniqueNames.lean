import Hdf.HcGen.Evaluation
import Hdf.HcGen.ExpandKeys
import Hdf.HcGen.Overlay

/-!
# Names of siblings

`RedefineCheck` looks at every file before it is merged and never again, and both
`Merge` and `Copy` take a child for absent when no child has its name and type.
So siblings of one name arise when two files use a name for a term and for a
node, or when a term is copied next to a node of its name. Otherwise names stay
unique.

## Main results

* `distinctNames_iff_unmixed`: when the merged AST has unique names
* `distinctNames_of_expands`: the expanded AST has, if every step meets the condition
* `names_collide`: a run that returns true with two children of one name
-/

namespace Hdf.HcGen

open Transition
open Hdf.Tree hiding node leaf

/-- No two ASTs use one name for objects of different types. -/
def Unmixed (asts : List Ast) : Prop :=
  ∀ a ∈ asts, ∀ b ∈ asts, ∀ (path : Path) name t t', (a.define (path ++ [(name, t)])).isSome →
    (b.define (path ++ [(name, t')])).isSome → t = t'

/-- `Copy` in this state appends a child only if no sibling has its name. -/
def AppendsNew (s : State) : Prop :=
  ∀ job dst child, Appends s job dst child → name child ∉ (s.root.childrenAt dst).map name

section

variable {root : AstObject}

/-- Names are unique when no path has objects of two types. -/
theorem distinctNames_iff (distinct : DistinctSiblings Label.key root) :
    DistinctSiblings Label.name root ↔ ∀ (path : Path) name t t',
      (labelUnder Label.key root (path ++ [(name, t)])).isSome →
      (labelUnder Label.key root (path ++ [(name, t')])).isSome → t = t' := by
  have child {path : Path} {u : AstObject} {key : Key}
      (found : under Label.key root path = some u) :
      (labelUnder Label.key root (path ++ [key])).isSome ↔
        ∃ c ∈ u.children, Label.key c.label = key := by
    rw [labelUnder, under_append, found, Option.bind_some, under_cons, Option.isSome_map]
    cases there : childBy Label.key key u.children with
    | none => simpa using childBy_eq_none_iff.mp there
    | some c => simpa using ⟨c, mem_of_childBy there, childBy_key there⟩
  constructor
  · intro names path x t t' first second
    rw [labelUnder, under_append, Option.isSome_map] at first
    obtain ⟨_, deeper⟩ := Option.isSome_iff_exists.mp first
    obtain ⟨u, found, _⟩ := Option.bind_eq_some_iff.mp deeper
    have first : (labelUnder Label.key root (path ++ [(x, t)])).isSome := by
      rw [labelUnder, under_append, Option.isSome_map]
      exact first
    obtain ⟨c, inside, key⟩ := (child found).mp first
    obtain ⟨c', inside', key'⟩ := (child found).mp second
    obtain ⟨p, there⟩ := exists_get?_of_under found
    have same : Label.name c.label = Label.name c'.label :=
      (congrArg Prod.fst key).trans (congrArg Prod.fst key').symm
    obtain rfl : c = c' := List.inj_on_of_nodup_map (names p u there) inside inside' same
    exact congrArg Prod.snd (key.symm.trans key')
  · intro types p u there
    obtain ⟨path, found⟩ := exists_under_of_get? distinct there
    have split : childKeys Label.name u = (childKeys Label.key u).map Prod.fst := by
      simp [childKeys, Label.key]
    rw [split]
    refine List.Nodup.map_on (fun key member key' member' same => ?_) (distinct p u there)
    obtain ⟨c, inside, rfl⟩ := List.mem_map.mp member
    obtain ⟨c', inside', rfl⟩ := List.mem_map.mp member'
    refine Prod.ext same (types path (Label.name c.label) _ _ ?_ ?_)
    · exact (child found).mpr ⟨c, inside, rfl⟩
    · exact (child found).mpr ⟨c', inside', Prod.ext same.symm rfl⟩

end

section

variable {fs : FileSystem} {main : Bytes} {astList : List Ast} {ast : Ast} {fresh : ℕ}
  {root : AstObject}

theorem mem_mergeOrder {a : Ast} : a ∈ mergeOrder astList ↔ a ∈ astList := by
  cases astList with
  | nil => rfl
  | cons main included => simp [mergeOrder, or_comm]

/-- The merged AST has unique names exactly when the files agree on the types. -/
theorem distinctNames_iff_unmixed (each : ∀ a ∈ astList, a.Parsed)
    (merges : mergeFiles astList = some ast) (there : ast.astRoot = some root) :
    DistinctSiblings Label.name root ↔ Unmixed astList := by
  have merged := mergeFiles_merged merges each
  have defined (path : Path) : (labelUnder Label.key root path).isSome ↔
      ∃ a ∈ astList, (a.define path).isSome := by
    have define := define_mergeFiles merges each path
    rw [Ast.define, there, Option.bind_some] at define
    rw [define, isSome_overlay]
    simp only [mem_mergeOrder]
  rw [distinctNames_iff (merged.distinct root there)]
  simp only [defined, Unmixed]
  constructor
  · intro h a ha b hb path name t t' first second
    exact h path name t t' ⟨a, ha, first⟩ ⟨b, hb, second⟩
  · rintro h path name t t' ⟨a, ha, first⟩ ⟨b, hb, second⟩
    exact h a ha b hb path name t t' first second

/-- When the files agree on the types and every step of the expansion appends
children under new names only, no node of the final AST has two children of one name. -/
theorem distinctNames_of_expands
    (reads : Returns (readRound fs) { astList := [], srcQueue := [main], nextUid := 0 }
      (some (astList, fresh)))
    (merges : mergeFiles astList = some ast) (expands : ast.Expands fresh (.returned true root))
    (unmixed : Unmixed astList) (news : ∀ s, ast.Reaches fresh s → AppendsNew s) :
    DistinctSiblings Label.name root := by
  have parsed := readRound_parsed reads
  have merged := mergeFiles_merged merges parsed
  obtain ⟨s, reached, _, rfl⟩ := expands.last merged
  refine reached.invariant (I := fun s => DistinctSiblings Label.name s.root) ?_ ?_
  · intro root there
    exact (distinctNames_iff_unmixed parsed merges there).mpr unmixed
  · intro t u prior h goes
    refine distinct_preserved steadyKey_name (.of_reaches merged prior) h ?_ goes
    exact fun job dst child appends => news t prior job dst child appends

end

/-! ### Examples -/

/-- Decides `AppendsNew`. -/
def appendsNew (s : State) : Bool :=
  match appending s with
  | some (_, dst, child) => !((s.root.childrenAt dst).map name).contains (name child)
  | none => true

theorem appendsNew_sound {s : State} (h : appendsNew s = true) : AppendsNew s := by
  intro job dst child appends
  rw [appendsNew, appends.appending] at h
  simpa using h

/-- A term is copied next to a node of its name. -/
def termBesideNode : FileSystem :=
  .single (ascii "/a") (ascii
    "root \x7b module = \"m\"; b \x7b x = 1; \x7d a : b \x7b x \x7b \x7d \x7d \x7d")

/-- Two files that define different terms of one node, and a copy of it. -/
def sharedNode : FileSystem :=
  .files [
    (ascii "/a", ascii
      "#include \"/b\" root \x7b module = \"m\"; p \x7b x = 1; \x7d q : p \x7b z = 3; \x7d \x7d"),
    (ascii "/b", ascii "root \x7b p \x7b y = 2; \x7d \x7d")]

private theorem names_evaluated :
    expansionPasses termBesideNode (ascii "/a") (fun _ => true) (fun root => !noRedefinition root)
        60 = true ∧
      expansionPasses sharedNode (ascii "/a") (fun s => noRedefinition s.root && appendsNew s)
        (fun _ => true) 60 = true := by
  rw [termBesideNode, sharedNode]
  iterate 4 rw [ascii_ofList]
  decide +kernel

theorem names_collide :
    ∃ root, Parses termBesideNode (ascii "/a") root ∧ ¬ DistinctSiblings Label.name root := by
  obtain ⟨ast, fresh, root, merged, expands, -, collides⟩ := exists_expansion names_evaluated.1
  refine ⟨root, ⟨ast, fresh, merged, expands⟩, fun names => ?_⟩
  rw [noRedefinition_iff.mpr names] at collides
  cases collides

theorem distinctNames_of_expands_sharedNode :
    ∃ root, Parses sharedNode (ascii "/a") root ∧ DistinctSiblings Label.name root := by
  obtain ⟨ast, fresh, root, merged, expands, tests, -⟩ := exists_expansion names_evaluated.2
  have both (s : State) (reached : ast.Reaches fresh s) := Bool.and_eq_true_iff.mp (tests s reached)
  obtain ⟨astList, reads, merges⟩ := id merged
  obtain ⟨_, ⟨first, goes, _⟩, _⟩ := expands.last merged.merged
  have unmixed : Unmixed astList :=
    (distinctNames_iff_unmixed (readRound_parsed reads) merges (Ast.expand_root goes)).mp
      (noRedefinition_iff.mp (both _ ⟨first, goes, .refl⟩).1)
  exact ⟨root, ⟨ast, fresh, merged, expands⟩, distinctNames_of_expands reads merges expands unmixed
    fun s reached => appendsNew_sound (both s reached).2⟩

end Hdf.HcGen
