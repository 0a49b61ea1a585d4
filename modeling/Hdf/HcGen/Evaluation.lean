import Hdf.HcGen.Parser

/-!
# Running the compiler on concrete sources

The relations `MergedFrom` and `Ast.Expands` quantify over runs of any length.
Here they are decided within a bound on the rounds, so that a source text can be
parsed, merged and expanded by evaluation, and a test can be made in every state
on the way.

## Main results

* `exists_expansion`: what an evaluation shows
* `exists_reached`: an evaluation that stops at some state on the way
-/

namespace Hdf.HcGen

open Transition

/-- A file system of a few files, each of which is read in one block. -/
def FileSystem.files (texts : List (Bytes × Bytes)) : FileSystem where
  read p := (texts.lookup p).map fun text => [text]
  realpath p := if (texts.lookup p).isSome then p else []

/-- A file system with one file. -/
def FileSystem.single (path text : Bytes) : FileSystem := .files [(path, text)]

/-- The merged AST, when the files are read within a number of rounds. -/
def mergeWithin (fs : FileSystem) (main : Bytes) (rounds : ℕ) : Option (Ast × ℕ) :=
  match run (readRound fs) rounds { astList := [], srcQueue := [main], nextUid := 0 } with
  | some (some (astList, fresh)) => (mergeFiles astList).map fun ast => (ast, fresh)
  | _ => none

namespace Ast

/-- The outcome of an expansion that takes no more than a number of rounds. -/
def expandWithin (ast : Ast) (fresh rounds : ℕ) : Option Outcome :=
  match ast.expand fresh with
  | .halt outcome => some outcome
  | .next s => run step rounds s

/-- Every state of the expansion passes a test. -/
def throughout (ast : Ast) (fresh : ℕ) (test : State → Bool) (rounds : ℕ) : Bool :=
  match ast.expand fresh with
  | .halt _ => true
  | .next s => Transition.throughout step test rounds s

end Ast

/-- The tree of an expansion that returned true. -/
def Outcome.tree : Outcome → Option AstObject
  | returned true root => some root
  | _ => none

theorem mergedFrom_of_mergeWithin {fs : FileSystem} {main : Bytes} {rounds fresh : ℕ} {ast : Ast}
    (h : mergeWithin fs main rounds = some (ast, fresh)) : MergedFrom fs main ast fresh := by
  unfold mergeWithin at h
  split at h
  case h_1 astList fresh' ran =>
    obtain ⟨merged, result, same⟩ := Option.map_eq_some_iff.mp h
    cases same
    exact ⟨astList, returns_of_run ran, result⟩
  case h_2 => cases h

theorem Ast.expand_eq_next {ast : Ast} {fresh : ℕ} {s : State} (h : ast.expand fresh = .next s) :
    ∃ root, s = start root fresh := by
  unfold Ast.expand at h
  split at h
  · cases h
  · split at h
    · cases h
    · split at h
      · cases h
      · cases h
        exact ⟨_, rfl⟩

theorem Ast.expands_of_expandWithin {ast : Ast} {fresh rounds : ℕ} {outcome : Outcome}
    (h : ast.expandWithin fresh rounds = some outcome) : ast.Expands fresh outcome := by
  unfold Ast.expandWithin at h
  split at h
  case h_1 outcome' halts => exact .inl (by cases h; exact halts)
  case h_2 s goes =>
    obtain ⟨root, rfl⟩ := Ast.expand_eq_next goes
    exact .inr ⟨root, goes, returns_of_run h⟩

theorem Ast.Reaches.of_throughout {ast : Ast} {fresh rounds : ℕ} {test : State → Bool} {s : State}
    (h : ast.throughout fresh test rounds = true) (reached : ast.Reaches fresh s) :
    test s = true := by
  obtain ⟨root, goes, steps⟩ := reached
  rw [Ast.throughout, goes] at h
  exact Steps.of_throughout h steps

/-- Reads, merges and expands, and tests every state and the tree that is left. -/
def expansionPasses (fs : FileSystem) (main : Bytes) (test : State → Bool)
    (result : AstObject → Bool) (rounds : ℕ) : Bool :=
  match mergeWithin fs main rounds with
  | none => false
  | some (ast, fresh) =>
    ast.throughout fresh test rounds &&
      match (ast.expandWithin fresh rounds).bind Outcome.tree with
      | none => false
      | some root => result root

/-- What a successful evaluation shows about a source. -/
theorem exists_expansion {fs : FileSystem} {main : Bytes} {test : State → Bool}
    {result : AstObject → Bool} {rounds : ℕ}
    (h : expansionPasses fs main test result rounds = true) :
    ∃ ast fresh root, MergedFrom fs main ast fresh ∧ ast.Expands fresh (.returned true root) ∧
      (∀ s, ast.Reaches fresh s → test s = true) ∧ result root = true := by
  unfold expansionPasses at h
  split at h
  case h_1 => cases h
  case h_2 ast fresh merges =>
    rw [Bool.and_eq_true] at h
    obtain ⟨tests, h⟩ := h
    split at h
    case h_1 => cases h
    case h_2 root leaves =>
      obtain ⟨outcome, expands, tree⟩ := Option.bind_eq_some_iff.mp leaves
      obtain rfl : outcome = .returned true root := by
        unfold Outcome.tree at tree
        split at tree <;> simp_all
      exact ⟨ast, fresh, root, mergedFrom_of_mergeWithin merges,
        Ast.expands_of_expandWithin expands, fun s reached => reached.of_throughout tests, h⟩

/-- Reads and merges, and expands until some state passes a test. -/
def expansionComesTo (fs : FileSystem) (main : Bytes) (test : State → Bool) (rounds : ℕ) : Bool :=
  match mergeWithin fs main rounds with
  | none => false
  | some (ast, fresh) =>
    match ast.expand fresh with
    | .halt _ => false
    | .next s => comesTo step test rounds s

theorem exists_reached {fs : FileSystem} {main : Bytes} {test : State → Bool} {rounds : ℕ}
    (h : expansionComesTo fs main test rounds = true) :
    ∃ ast fresh s, MergedFrom fs main ast fresh ∧ ast.Reaches fresh s ∧ test s = true := by
  unfold expansionComesTo at h
  split at h
  case h_1 => cases h
  case h_2 ast fresh merges =>
    split at h
    case h_1 => cases h
    case h_2 first goes =>
      obtain ⟨root, rfl⟩ := Ast.expand_eq_next goes
      obtain ⟨s, steps, passes⟩ := exists_steps_of_comesTo h
      exact ⟨ast, fresh, s, mergedFrom_of_mergeWithin merges, ⟨root, goes, steps⟩, passes⟩

end Hdf.HcGen
