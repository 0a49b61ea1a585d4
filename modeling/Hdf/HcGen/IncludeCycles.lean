import Hdf.HcGen.IncludeOrder
import Hdf.Lib.DepthFirst

/-!
# Include directives that come back

`Parser::Parse` takes the file in front of its queue and puts the files that it
includes in its place. It keeps no record of the files it has read, so a file
that is included along two ways is read twice, and a file that includes itself
is read for ever, unless a file before it does not parse.

A file is read again with other addresses for its nodes. What it includes, and
whether it parses, does not depend on them, so the queue explores a graph.

## Main results

* `parseOne_alike`: a file parses whenever it is read, or never
* `parse_terminates_iff`: the queue is worked off exactly when no chain comes back
-/

namespace Hdf.HcGen

open Transition DepthFirst

/-! ### Parsing does not depend on addresses -/

theorem rel_bind {α β γ δ : Type*} {R : α → β → Prop} {S : γ → δ → Prop} {x : Option α}
    {y : Option β} {f : α → Option γ} {g : β → Option δ} (h : Option.Rel R x y)
    (each : ∀ a b, R a b → Option.Rel S (f a) (g b)) : Option.Rel S (x.bind f) (y.bind g) := by
  cases h with
  | none => exact .none
  | some h => exact each _ _ h

/-- The parser is at the same place of a file, maybe with another free address. -/
def ParseState.Alike (st st' : ParseState) : Prop :=
  st.lexer = st'.lexer ∧ st.current = st'.current

/-- Both have failed, or both are at the same place. -/
abbrev Alike {α β : Type} (x : Option (α × ParseState)) (y : Option (β × ParseState)) : Prop :=
  Option.Rel (fun a b => a.2.Alike b.2) x y

section

variable {st st' : ParseState} {α β : Type}

theorem alike_return {a : α} {b : β} (h : st.Alike st') : Alike (some (a, st)) (some (b, st')) :=
  .some h

theorem ParseState.Alike.is (h : st.Alike st') (kind : TokenKind) : st.is kind = st'.is kind := by
  rw [ParseState.is, ParseState.is, h.2]

theorem ParseState.Alike.isChar (h : st.Alike st') (c : Char) : st.isChar c = st'.isChar c :=
  h.is _

theorem ParseState.Alike.isPath (h : st.Alike st') : st.isPath = st'.isPath := by
  rw [ParseState.isPath, ParseState.isPath, h.is, h.is]

theorem ParseState.Alike.lex (h : st.Alike st') :
    Option.Rel ParseState.Alike st.lex st'.lex := by
  rw [ParseState.lex, ParseState.lex, h.1]
  cases st'.lexer.lex with
  | none => exact .none
  | some r => exact .some ⟨rfl, rfl⟩

theorem ParseState.Alike.expect (h : st.Alike st') (c : Char) :
    Option.Rel ParseState.Alike (st.expect c) (st'.expect c) := by
  apply rel_bind h.lex
  intro a b h
  rw [h.isChar]
  split
  · exact .some h
  · exact .none

theorem arrayLoop_alike (rounds : ℕ) {arrayKind : Option TokenKind} {arrayType : ℕ}
    {arraySize : UInt32} {elements : List Datum} (h : st.Alike st') :
    Alike (arrayLoop rounds st arrayKind arrayType arraySize elements)
      (arrayLoop rounds st' arrayKind arrayType arraySize elements) := by
  induction rounds generalizing st st' arrayKind arrayType arraySize elements with
  | zero => exact .none
  | succ rounds ih =>
    rw [arrayLoop, arrayLoop]
    apply rel_bind h.lex
    intro a b h
    rw [h.isChar, h.2]
    split
    · exact alike_return h
    · cases arrayElement b.current with
      | none => exact .none
      | some datum =>
        rw [Option.bind_eq_bind, Option.bind_some, Option.bind_eq_bind, Option.bind_some]
        split
        · exact .none
        · apply rel_bind h.lex
          intro a b h
          rw [h.isChar, h.isChar]
          split
          · exact ih h
          · split
            · exact alike_return h
            · exact .none

theorem parseValue_alike (h : st.Alike st') : Alike (parseValue st) (parseValue st') := by
  rw [parseValue, parseValue, h.2]
  split
  · exact alike_return h
  · exact alike_return h
  · exact alike_return h
  · split
    · rw [parseArray, parseArray, h.1]
      exact arrayLoop_alike _ h
    · split
      · apply rel_bind h.lex
        intro a b h
        rw [h.isPath]
        split
        · exact alike_return h
        · exact .none
      · exact .none
  · exact .none

theorem parseTerm_alike {name name' : Token} (h : st.Alike st') :
    Alike (parseTerm name st) (parseTerm name' st') := by
  rw [parseTerm, parseTerm]
  apply rel_bind h.lex
  intro a b h
  apply rel_bind (parseValue_alike h)
  intro a b h
  apply rel_bind (h.expect _)
  intro a b h
  exact alike_return h

/-- The children are read alike. -/
def BodyAlike (body : ParseState → Option (List AstObject × ParseState)) : Prop :=
  ∀ st st', st.Alike st' → Alike (body st) (body st')

variable {body : ParseState → Option (List AstObject × ParseState)}

theorem parseNode_alike (alike : BodyAlike body) {name name' : Token} {nodeType : NodeRefType}
    {refPath refPath' : Bytes} (bracesStart : Bool) (h : st.Alike st') :
    Alike (parseNode body name nodeType refPath bracesStart st)
      (parseNode body name' nodeType refPath' bracesStart st') := by
  rw [parseNode, parseNode]
  have opened : Option.Rel ParseState.Alike (st.openNode bracesStart)
      (st'.openNode bracesStart) := by
    cases bracesStart with
    | true => exact .some h
    | false => exact h.expect _
  apply rel_bind opened
  intro a b h
  apply rel_bind (alike { a with nextUid := a.nextUid + 1 } { b with nextUid := b.nextUid + 1 } h)
  intro a b h
  exact alike_return h

theorem parseNodeWithRef_alike (alike : BodyAlike body) {name name' : Token} (h : st.Alike st') :
    Alike (parseNodeWithRef body name st) (parseNodeWithRef body name' st') := by
  rw [parseNodeWithRef, parseNodeWithRef, h.2]
  split
  · exact parseNode_alike alike _ h
  · exact parseNode_alike alike _ h
  · exact parseNode_alike alike _ h
  · split
    · rw [parseNodeRef, parseNodeRef]
      apply rel_bind h.lex
      intro a b h
      rw [h.isPath]
      split
      · exact parseNode_alike alike _ h
      · exact .none
    · split
      · rw [parseNodeInherit, parseNodeInherit]
        apply rel_bind h.lex
        intro a b h
        rw [h.isPath]
        split
        · exact parseNode_alike alike _ h
        · exact .none
      · exact .none
  · exact .none

theorem parseChild_alike (alike : BodyAlike body) (h : st.Alike st') :
    Alike (parseChild body st) (parseChild body st') := by
  rw [parseChild, parseChild, h.2]
  split
  · rw [parseTemplate, parseTemplate]
    apply rel_bind h.lex
    intro a b h
    rw [h.is]
    split
    · exact parseNode_alike alike _ h
    · exact .none
  · rw [parseNodeAndTerm, parseNodeAndTerm]
    apply rel_bind h.lex
    intro a b h
    rw [h.isChar, h.isChar, h.isChar]
    split
    · exact parseTerm_alike h
    · split
      · exact parseNode_alike alike _ h
      · split
        · apply rel_bind h.lex
          intro a b h
          exact parseNodeWithRef_alike alike h
        · exact .none
  · exact .none

theorem parseBody_alike (rounds : ℕ) {children children' : List AstObject} (h : st.Alike st') :
    Alike (parseBody rounds children st) (parseBody rounds children' st') := by
  induction rounds generalizing children children' st st' with
  | zero => exact .none
  | succ rounds ih =>
    rw [parseBody, parseBody]
    apply rel_bind h.lex
    intro a b h
    rw [h.isChar]
    split
    · exact alike_return h
    · apply rel_bind (parseChild_alike (fun _ _ h => ih h) h)
      intro a b h
      exact ih h

end

section

variable {fs : FileSystem} {src : Bytes}

theorem parseIncludes_alike (rounds : ℕ) {st st' : ParseState} (h : st.Alike st') :
    Alike (parseIncludes fs src rounds st) (parseIncludes fs src rounds st') := by
  obtain ⟨k, rfl⟩ : ∃ k, st' = { st with nextUid := k } := by
    cases st
    cases st'
    obtain ⟨rfl, rfl⟩ := h
    exact ⟨_, rfl⟩
  rw [parseIncludes_setUid src rounds st k]
  cases parseIncludes fs src rounds st with
  | none => exact .none
  | some r => exact .some ⟨rfl, rfl⟩

theorem parseRoot_alike (rounds : ℕ) {st st' : ParseState} (h : st.Alike st') :
    Alike (parseRoot rounds st) (parseRoot rounds st') := by
  rw [parseRoot, parseRoot, h.is, h.is]
  split
  · rw [Option.map_eq_bind, Option.map_eq_bind]
    apply rel_bind (parseNode_alike (fun _ _ h => parseBody_alike rounds h) false h)
    intro a b h
    exact alike_return h
  · split
    · exact alike_return h
    · exact .none

/-- A file parses whenever it is read, or never. -/
theorem parseOne_alike (n m : ℕ) :
    Option.Rel (fun _ _ => True) (parseOne fs src n) (parseOne fs src m) := by
  rw [parseOne, parseOne]
  cases fs.read src with
  | none => exact .none
  | some blocks =>
    rw [Option.bind_eq_bind, Option.bind_some, Option.bind_eq_bind, Option.bind_some]
    have start : ParseState.Alike { lexer := { blocks := blocks }, nextUid := n }
        { lexer := { blocks := blocks }, nextUid := m } := ⟨rfl, rfl⟩
    apply rel_bind start.lex
    intro a b h
    apply rel_bind (parseIncludes_alike _ h)
    intro a b h
    apply rel_bind (parseRoot_alike _ h)
    intro a b h
    apply rel_bind h.lex
    intro a b h
    rw [h.is]
    split
    · exact .some trivial
    · exact .none

/-! ### The queue explores a graph -/

variable (fs) in
/-- The files that a file includes, when it parses. -/
def includesOf (f : Bytes) : Option (List Bytes) := (parseOne fs f 0).map ParsedFile.includeList

theorem includesOf_eq (n : ℕ) :
    includesOf fs src = (parseOne fs src n).map ParsedFile.includeList := by
  have alike : Option.Rel _ (parseOne fs src 0) (parseOne fs src n) := parseOne_alike 0 n
  rw [includesOf]
  cases parsed : parseOne fs src 0 with
  | none =>
    rw [parsed] at alike
    cases again : parseOne fs src n with
    | none => rfl
    | some file =>
      rw [again] at alike
      cases alike
  | some file =>
    rw [parsed] at alike
    cases again : parseOne fs src n with
    | none =>
      rw [again] at alike
      cases alike
    | some file' =>
      rw [Option.map_some, Option.map_some, parseOne_includeList parsed again]

theorem edge_iff_includes {f g : Bytes} : Edge (includesOf fs) f g ↔ Includes fs f g := by
  constructor
  · rintro ⟨succs, expands, member⟩
    obtain ⟨file, parsed, rfl⟩ := Option.map_eq_some_iff.mp expands
    exact ⟨0, file, parsed, member⟩
  · rintro ⟨n, file, parsed, member⟩
    exact ⟨_, by rw [includesOf_eq n, parsed]; rfl, member⟩

theorem terminates_readRound_iff {work : WorkList} :
    Terminates (readRound fs) work ↔ Terminates (explore (includesOf fs)) work.srcQueue := by
  apply terminates_image_iff WorkList.srcQueue
  · rintro ⟨astList, srcQueue, n⟩ next goes
    cases srcQueue with
    | nil => cases goes
    | cons src rest =>
      rw [readRound] at goes
      dsimp only at goes
      split at goes
      case h_1 => cases goes
      case h_2 file parsed =>
        cases goes
        apply explore_cons
        rw [includesOf_eq n, parsed]
        rfl
  · rintro ⟨astList, srcQueue, n⟩ result halts
    cases srcQueue with
    | nil => exact ⟨true, rfl⟩
    | cons src rest =>
      rw [readRound] at halts
      dsimp only at halts
      split at halts
      case h_1 parsed =>
        refine ⟨false, explore_fails ?_⟩
        rw [includesOf_eq n, parsed]
        rfl
      case h_2 => cases halts

/-! ### Chains of include directives -/

variable (fs) in
/-- A file parses, and so does every file that it includes, directly or not. -/
def AllParse (f : Bytes) : Prop :=
  ∀ g, Relation.ReflTransGen (Includes fs) f g → (parseOne fs g 0).isSome

variable (fs) in
/-- The file `f` has an include directive for `g`, and the files that it includes before
`g` parse, with all that they include. -/
def LeadsTo (f g : Bytes) : Prop :=
  ∃ file pre post, parseOne fs f 0 = some file ∧ file.includeList = pre ++ g :: post ∧
    ∀ h ∈ pre, AllParse fs h

theorem clears_iff_allParse {f : Bytes} : Clears (includesOf fs) f ↔ AllParse fs f := by
  have edges : Edge (includesOf fs) = Includes fs := by
    funext f g
    exact propext edge_iff_includes
  rw [Clears, AllParse, edges]
  simp only [includesOf, Option.isSome_map]

theorem leads_iff_leadsTo {f g : Bytes} : Leads (includesOf fs) f g ↔ LeadsTo fs f g := by
  constructor
  · rintro ⟨pre, post, expands, clear⟩
    obtain ⟨file, parsed, list⟩ := Option.map_eq_some_iff.mp expands
    exact ⟨file, pre, post, parsed, list, fun h member => clears_iff_allParse.mp (clear h member)⟩
  · rintro ⟨file, pre, post, parsed, list, parse⟩
    exact ⟨pre, post, by rw [includesOf, parsed, Option.map_some, list],
      fun h member => clears_iff_allParse.mpr (parse h member)⟩

/-- With finitely many files, the queue of `Parser::Parse` is worked off, or a file fails,
exactly when no chain of include directives from the main file on comes back to itself. -/
theorem parse_terminates_iff (finite : {p | (fs.read p).isSome}.Finite) (main : Bytes) :
    Terminates (readRound fs) { astList := [], srcQueue := [main], nextUid := 0 } ↔
      ∀ f, Relation.ReflTransGen (LeadsTo fs) main f →
        ¬ Relation.TransGen (LeadsTo fs) f f := by
  have finite' : {f | (includesOf fs f).isSome}.Finite := by
    apply finite.subset
    intro f parses
    rw [Set.mem_ofPred_eq, includesOf, Option.isSome_map, parseOne] at parses
    cases read : fs.read f with
    | none =>
      rw [read] at parses
      cases parses
    | some _ => exact Option.isSome_iff_exists.mpr ⟨_, read⟩
  have edges : Leads (includesOf fs) = LeadsTo fs := by
    funext f g
    exact propext leads_iff_leadsTo
  rw [terminates_readRound_iff, terminates_explore_iff finite', edges]

end

/-! ### Examples -/

theorem finite_files (texts : List (Bytes × Bytes)) :
    {p | ((FileSystem.files texts).read p).isSome}.Finite := by
  apply (texts.map Prod.fst).toFinset.finite_toSet.subset
  intro p reads
  obtain ⟨text, found⟩ := Option.isSome_iff_exists.mp
    (Option.isSome_map.symm.trans reads : (texts.lookup p).isSome = true)
  obtain ⟨pre, post, rfl, -⟩ := List.lookup_eq_some_iff.mp found
  simp

/-- A file that includes itself. -/
def selfInclude : FileSystem :=
  .files [(ascii "/main", ascii "#include \"/main\" root \x7b module = \"m\"; \x7d")]

theorem not_terminates_selfInclude :
    {p | (selfInclude.read p).isSome}.Finite ∧
      ¬ Terminates (readRound selfInclude)
        { astList := [], srcQueue := [ascii "/main"], nextUid := 0 } := by
  refine ⟨finite_files _, ?_⟩
  have self : Leads (includesOf selfInclude) (ascii "/main") (ascii "/main") :=
    ⟨[], [], by decide +kernel, fun _ member => absurd member List.not_mem_nil⟩
  rw [terminates_readRound_iff]
  exact not_terminates_of_cycle .refl (.single self)

theorem parse_terminates_iff_nestedIncludes :
    Terminates (readRound nestedIncludes)
        { astList := [], srcQueue := [ascii "/main"], nextUid := 0 } ↔
      ∀ f, Relation.ReflTransGen (LeadsTo nestedIncludes) (ascii "/main") f →
        ¬ Relation.TransGen (LeadsTo nestedIncludes) f f :=
  parse_terminates_iff (finite_files _) _

end Hdf.HcGen
