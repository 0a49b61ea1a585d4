import Hdf.HcGen.Evaluation
import Hdf.HcGen.Overlay

/-!
# Which file wins

`Parser::Parse` reads a file before the files it includes, which it puts in
front of its queue, and merges the files in reading order with the main file
moved to the end. Of two files that define a term the one merged later wins. So
the main file wins over everything it includes, but any other file loses to the
files it includes.

## Main results

* `mergedFrom_iff`: merged ASTs come from a reading
* `Reading.after`: included files are read after the file that includes them
* `termValue_overlay`: the last definition of a term counts
* `includer_wins_iff`: when the value of an including file survives
-/

namespace Hdf.HcGen

open Transition
open Hdf.Tree hiding node leaf

/-- The files that are read from a queue, with their ASTs, and the next free
address afterwards. -/
inductive Reading (fs : FileSystem) : List Bytes → ℕ → List (Bytes × Ast) → ℕ → Prop
  | nil {n} : Reading fs [] n [] n
  | cons {src queue n file files m} (parsed : parseOne fs src n = some file)
    (rest : Reading fs (file.includeList ++ queue) file.nextUid files m) :
    Reading fs (src :: queue) n ((src, file.ast) :: files) m

/-- The file `f` has an include directive for the file `g`. -/
def Includes (fs : FileSystem) (f g : Bytes) : Prop :=
  ∃ n file, parseOne fs f n = some file ∧ g ∈ file.includeList

section

variable {fs : FileSystem} {queue : List Bytes} {n m : ℕ} {files pre post : List (Bytes × Ast)}
  {f g : Bytes}

/-! ### Reading -/

theorem reading_of_returns {asts result : List Ast}
    (h : Returns (readRound fs) ⟨asts, queue, n⟩ (some (result, m))) :
    ∃ files, Reading fs queue n files m ∧ result = asts ++ files.map Prod.snd := by
  obtain ⟨last, steps, halts⟩ := h
  generalize first : (⟨asts, queue, n⟩ : WorkList) = work at steps
  induction steps using Relation.ReflTransGen.head_induction_on generalizing asts queue n with
  | refl =>
    subst first
    cases queue with
    | nil =>
      rw [readRound] at halts
      cases halts
      exact ⟨[], .nil, (List.append_nil _).symm⟩
    | cons src queue =>
      rw [readRound] at halts
      dsimp only at halts
      split at halts <;> cases halts
  | head goes _ ih =>
    subst first
    cases queue with
    | nil => cases goes
    | cons src queue =>
      rw [readRound] at goes
      dsimp only at goes
      split at goes
      case h_1 => cases goes
      case h_2 file parsed =>
        cases goes
        obtain ⟨files, reading, same⟩ := ih rfl
        exact ⟨_, .cons parsed reading, by rw [same]; simp⟩

theorem Reading.returns (h : Reading fs queue n files m) (asts : List Ast) :
    Returns (readRound fs) ⟨asts, queue, n⟩ (some (asts ++ files.map Prod.snd, m)) := by
  induction h generalizing asts with
  | nil => exact .of_halt (by simp [readRound])
  | @cons src queue n file files m parsed rest ih =>
    have goes : readRound fs ⟨asts, src :: queue, n⟩ =
        .next ⟨asts ++ [file.ast], file.includeList ++ queue, file.nextUid⟩ := by
      rw [readRound]
      dsimp only
      rw [parsed]
    have later := ih (asts ++ [file.ast])
    rw [List.append_assoc] at later
    exact .of_steps (.single goes) later

theorem mergedFrom_iff {main : Bytes} {ast : Ast} :
    MergedFrom fs main ast m ↔
      ∃ files, Reading fs [main] 0 files m ∧ mergeFiles (files.map Prod.snd) = some ast := by
  constructor
  · rintro ⟨astList, reads, merges⟩
    obtain ⟨files, reading, same⟩ := reading_of_returns reads
    rw [List.nil_append] at same
    exact ⟨files, reading, same ▸ merges⟩
  · rintro ⟨files, reading, merges⟩
    exact ⟨_, reading.returns [], merges⟩

/-! ### Include directives do not depend on addresses -/

theorem ParseState.lex_setUid (st : ParseState) (k : ℕ) :
    ParseState.lex { st with nextUid := k } = st.lex.map fun st' => { st' with nextUid := k } := by
  rw [ParseState.lex, ParseState.lex, Option.map_map]
  rfl

theorem processInclude_setUid (src : Bytes) (rounds : ℕ) (includeList : List Bytes)
    (st : ParseState) (k : ℕ) :
    processInclude fs src rounds includeList { st with nextUid := k } =
      (processInclude fs src rounds includeList st).map fun r =>
        (r.1, { r.2 with nextUid := k }) := by
  induction rounds generalizing includeList st with
  | zero => rfl
  | succ rounds ih =>
    rw [processInclude, processInclude, ParseState.lex_setUid]
    cases st.lex with
    | none => rfl
    | some st₁ =>
      have kind (t : TokenKind) : ParseState.is { st₁ with nextUid := k } t = st₁.is t := rfl
      simp only [Option.map_some, Option.bind_eq_bind, Option.bind_some, kind]
      by_cases string : st₁.is (.token .string) = true
      · simp only [string, Bool.not_true, Bool.false_eq_true, if_false]
        cases includePath fs src st₁.current.strval with
        | none => rfl
        | some path =>
          simp only [Option.bind_some, ParseState.lex_setUid]
          cases st₁.lex with
          | none => rfl
          | some st₂ =>
            have kind (t : TokenKind) : ParseState.is { st₂ with nextUid := k } t = st₂.is t := rfl
            simp only [Option.map_some, Option.bind_some, kind]
            by_cases again : st₂.is (.token .include) = true
            · rw [if_pos again, if_pos again, ih]
            · rw [if_neg again, if_neg again]
              rfl
      · simp [string]

theorem parseIncludes_setUid (src : Bytes) (rounds : ℕ) (st : ParseState) (k : ℕ) :
    parseIncludes fs src rounds { st with nextUid := k } =
      (parseIncludes fs src rounds st).map fun r => (r.1, { r.2 with nextUid := k }) := by
  have kind (t : TokenKind) : ParseState.is { st with nextUid := k } t = st.is t := rfl
  rw [parseIncludes, parseIncludes, kind, processInclude_setUid]
  split <;> rfl

/-- A file has the same include directives whenever it is read. -/
theorem parseOne_includeList {src : Bytes} {file file' : ParsedFile}
    (h : parseOne fs src n = some file) (h' : parseOne fs src m = some file') :
    file.includeList = file'.includeList := by
  unfold parseOne at h h'
  obtain ⟨blocks, read, h⟩ := Option.bind_eq_some_iff.mp h
  obtain ⟨blocks', read', h'⟩ := Option.bind_eq_some_iff.mp h'
  cases read.symm.trans read'
  obtain ⟨st, lexed, h⟩ := Option.bind_eq_some_iff.mp h
  obtain ⟨st', lexed', h'⟩ := Option.bind_eq_some_iff.mp h'
  obtain ⟨⟨includes, st₁⟩, includes_eq, h⟩ := Option.bind_eq_some_iff.mp h
  obtain ⟨⟨includes', st₁'⟩, includes_eq', h'⟩ := Option.bind_eq_some_iff.mp h'
  have start : st' = { st with nextUid := m } := by
    have moved := ParseState.lex_setUid { lexer := { blocks := blocks }, nextUid := n } m
    rw [lexed] at moved
    exact Option.some.inj (lexed'.symm.trans moved)
  rw [start, parseIncludes_setUid, includes_eq] at includes_eq'
  have same : includes = includes' := congrArg Prod.fst (Option.some.inj includes_eq')
  obtain ⟨_, _, h⟩ := Option.bind_eq_some_iff.mp h
  obtain ⟨_, _, h⟩ := Option.bind_eq_some_iff.mp h
  obtain ⟨_, _, h'⟩ := Option.bind_eq_some_iff.mp h'
  obtain ⟨_, _, h'⟩ := Option.bind_eq_some_iff.mp h'
  split at h
  · split at h'
    · cases h
      cases h'
      exact same
    · cases h'
  · cases h

/-! ### The order of reading -/

theorem Reading.mem_of_queue (h : Reading fs queue n files m) :
    ∀ src ∈ queue, src ∈ files.map Prod.fst := by
  induction h with
  | nil => exact fun _ member => member
  | cons parsed rest ih =>
    intro src member
    rcases List.mem_cons.mp member with rfl | later
    · exact List.mem_cons_self
    · exact List.mem_cons_of_mem _ (ih src (List.mem_append_right _ later))

theorem Reading.suffix (h : Reading fs queue n (pre ++ post) m) :
    ∃ queue' n', Reading fs queue' n' post m := by
  induction pre generalizing queue n with
  | nil => exact ⟨queue, n, h⟩
  | cons e pre ih =>
    cases h with
    | cons parsed rest => exact ih rest

/-- Files that a file includes, directly or not, are read after it. -/
theorem Reading.after {a : Ast} (h : Reading fs queue n (pre ++ (f, a) :: post) m)
    (includes : Relation.TransGen (Includes fs) f g) : g ∈ post.map Prod.fst := by
  have direct {pre post : List (Bytes × Ast)} {f g : Bytes} {a : Ast}
      (h : Reading fs queue n (pre ++ (f, a) :: post) m) (includes : Includes fs f g) :
      g ∈ post.map Prod.fst := by
    obtain ⟨queue', n', reading⟩ := h.suffix
    obtain ⟨k, file, parsed, member⟩ := includes
    cases reading with
    | cons parsed' rest =>
      rw [parseOne_includeList parsed parsed'] at member
      exact rest.mem_of_queue g (List.mem_append_left _ member)
  induction includes using Relation.TransGen.head_induction_on generalizing pre post a with
  | single includes => exact direct h includes
  | @head f mid includes _ ih =>
    obtain ⟨⟨mid', b⟩, member, same⟩ := List.mem_map.mp (direct h includes)
    obtain rfl : mid' = mid := same
    obtain ⟨between, later, rfl⟩ := List.append_of_mem member
    have again : Reading fs queue n ((pre ++ (f, a) :: between) ++ (mid', b) :: later) m := by
      simpa using h
    have deeper := ih again
    simp only [List.map_append, List.map_cons, List.mem_append, List.mem_cons]
    exact .inr (.inr deeper)

end

/-! ### Values of terms -/

/-- The path of a term below the nodes with the given names. -/
def termPath (nodes : List Bytes) (term : Bytes) : Path :=
  nodes.map (fun node => (node, .confNode)) ++ [(term, .confTerm)]

/-- The value of a term. -/
def termValue : Option Label → Option Value
  | some (.inr (.term term)) => some term.value
  | _ => none

/-- The value that an AST gives the term at a path. -/
def Ast.value (ast : Ast) (path : Path) : Option Value := termValue (ast.define path)

section

variable {asts : List Ast} {nodes : List Bytes} {x : Bytes}

theorem exists_term_of_key {l : Label} (h : Label.key l = (x, .confTerm)) :
    ∃ term, l = .inr (.term term) := by
  have typed : Label.type l = .confTerm := congrArg Prod.snd h
  rcases l with node | leaf
  · cases typed
  · cases leaf with
    | term term => exact ⟨term, rfl⟩
    | value v =>
      cases v with
      | datum d => cases d <;> cases typed
      | nodeRef path | delete | array _ _ _ => cases typed

/-- The overlay gives a term the value that the last AST gives it. -/
theorem termValue_overlay :
    termValue (overlay asts (termPath nodes x)) =
      (asts.filterMap fun ast => ast.value (termPath nodes x)).getLast? := by
  induction asts using List.reverseRecOn with
  | nil => rfl
  | append_singleton asts ast ih =>
    rw [overlay_append, List.filterMap_append, List.getLast?_append, ← ih]
    cases top : ast.define (termPath nodes x) with
    | none => simp [Ast.value, top, termValue]
    | some l =>
      obtain ⟨src, rfl⟩ := exists_term_of_key (key_of_define top)
      have value : ast.value (termPath nodes x) = some src.value := by rw [Ast.value, top]; rfl
      cases below : overlay asts (termPath nodes x) with
      | none => simp [value, override, termValue]
      | some l =>
        obtain ⟨this, rfl⟩ := exists_term_of_key (key_of_overlay below)
        simp [value, override, mergeLabel, mergeLeaf, termValue]

end

/-- Every file is read once, and `f` and `g` alone define a term. -/
structure Contested (files : List (Bytes × Ast)) (f g : Bytes) (path : Path)
    (valueF valueG : Value) : Prop where
  once : (files.map Prod.fst).Nodup
  definesF : ∃ astF, (f, astF) ∈ files ∧ astF.value path = some valueF
  definesG : ∃ astG, (g, astG) ∈ files ∧ astG.value path = some valueG
  others : ∀ e ∈ files, e.1 ≠ f → e.1 ≠ g → e.2.define path = none

section

variable {fs : FileSystem} {main f g x : Bytes} {nodes : List Bytes} {fresh : ℕ}
  {files : List (Bytes × Ast)} {ast : Ast}

theorem readRound_parsed_files (reading : Reading fs [main] 0 files fresh) :
    ∀ a ∈ files.map Prod.snd, a.Parsed := by
  have reads := reading.returns []
  rw [List.nil_append] at reads
  exact readRound_parsed reads

/-- The value of a term in the merged AST is the one that the file merged last gives it. -/
theorem value_mergeFiles (reading : Reading fs [main] 0 files fresh)
    (merges : mergeFiles (files.map Prod.snd) = some ast) :
    ast.value (termPath nodes x) =
      ((mergeOrder (files.map Prod.snd)).filterMap
        fun a => a.value (termPath nodes x)).getLast? := by
  rw [Ast.value, define_mergeFiles merges (readRound_parsed_files reading), termValue_overlay]

private theorem filterMap_eq_nil {asts : List (Bytes × Ast)} {path : Path}
    (nowhere : ∀ e ∈ asts, e.2.define path = none) :
    (asts.map Prod.snd).filterMap (fun a => a.value path) = [] := by
  rw [List.filterMap_eq_nil_iff]
  intro a member
  obtain ⟨e, inside, rfl⟩ := List.mem_map.mp member
  rw [Ast.value, nowhere e inside]
  rfl

/-- When only `f` and a file `g` that it includes, directly or not, define a term,
the merged AST has the value of `f` exactly when `f` is the main file or both
values are the same. -/
theorem includer_wins_iff {valueF valueG : Value} (reading : Reading fs [main] 0 files fresh)
    (merges : mergeFiles (files.map Prod.snd) = some ast)
    (includes : Relation.TransGen (Includes fs) f g)
    (contested : Contested files f g (termPath nodes x) valueF valueG) :
    ast.value (termPath nodes x) = some valueF ↔ f = main ∨ valueF = valueG := by
  obtain ⟨once, ⟨astF, readF, definesF⟩, ⟨astG, readG, definesG⟩, others⟩ := contested
  rw [value_mergeFiles reading merges]
  obtain ⟨pre, post, rfl⟩ := List.append_of_mem readF
  -- `g` is read after `f`, and neither is read twice
  have later := reading.after includes
  rw [List.map_append, List.map_cons, List.nodup_append, List.nodup_cons] at once
  obtain ⟨_, ⟨onceF, onceIn⟩, apart⟩ := once
  have readG : (g, astG) ∈ post := by
    rcases List.mem_append.mp readG with before | here
    · exact absurd rfl (apart g (List.mem_map_of_mem before) g (List.mem_cons_of_mem _ later))
    · rcases List.mem_cons.mp here with same | after
      · cases same
        exact absurd later onceF
      · exact after
  obtain ⟨mid, rest, rfl⟩ := List.append_of_mem readG
  rw [List.map_append, List.map_cons, List.nodup_append, List.nodup_cons] at onceIn
  obtain ⟨_, ⟨onceG, _⟩, apartIn⟩ := onceIn
  have nothing (part : List (Bytes × Ast)) (inside : ∀ e ∈ part,
      e ∈ pre ++ (f, astF) :: (mid ++ (g, astG) :: rest) ∧ e.1 ≠ f ∧ e.1 ≠ g) :
      (part.map Prod.snd).filterMap (fun a => a.value (termPath nodes x)) = [] :=
    filterMap_eq_nil fun e member => others e (inside e member).1 (inside e member).2.1
      (inside e member).2.2
  have noneMid := nothing mid fun e member => ⟨by simp [member],
    fun same => onceF (by simp [← same, List.mem_map_of_mem member]),
    fun same => apartIn _ (List.mem_map_of_mem member) g List.mem_cons_self same⟩
  have noneRest := nothing rest fun e member => ⟨by simp [member],
    fun same => onceF (by simp [← same, List.mem_map_of_mem member]),
    fun same => by
      have again := List.mem_map_of_mem (f := Prod.fst) member
      rw [same] at again
      exact onceG again⟩
  have nonePre := nothing pre fun e member => ⟨by simp [member],
    fun same => apart _ (List.mem_map_of_mem member) f List.mem_cons_self same,
    fun same => apart _ (List.mem_map_of_mem member) g (List.mem_cons_of_mem _ later) same⟩
  cases pre with
  | nil =>
    obtain rfl : f = main := by
      cases reading
      rfl
    simp [mergeOrder, List.filterMap_append, noneMid, noneRest, definesF, definesG]
  | cons first pre =>
    obtain ⟨main', ast'⟩ := first
    obtain rfl : main' = main := by
      cases reading
      rfl
    have notMain : f ≠ main' :=
      fun same => apart main' List.mem_cons_self f List.mem_cons_self same.symm
    rw [List.map_cons, List.filterMap_cons] at nonePre
    cases value : ast'.value (termPath nodes x) with
    | some v => simp [value] at nonePre
    | none =>
      rw [value] at nonePre
      dsimp only at nonePre
      simp [mergeOrder, List.filterMap_append, nonePre, noneMid, noneRest, definesF,
        definesG, value, notMain, eq_comm]

end

/-! ### Examples -/

/-- The files read from a queue within a number of rounds. -/
def readFiles (fs : FileSystem) : ℕ → List Bytes → ℕ → Option (List (Bytes × Ast) × ℕ)
  | _, [], n => some ([], n)
  | 0, _ :: _, _ => none
  | rounds + 1, src :: queue, n =>
    match parseOne fs src n with
    | none => none
    | some file =>
      (readFiles fs rounds (file.includeList ++ queue) file.nextUid).map fun r =>
        ((src, file.ast) :: r.1, r.2)

theorem reading_of_readFiles {fs : FileSystem} {rounds n m : ℕ} {queue : List Bytes}
    {files : List (Bytes × Ast)} (h : readFiles fs rounds queue n = some (files, m)) :
    Reading fs queue n files m := by
  induction rounds generalizing queue n files with
  | zero =>
    cases queue with
    | nil => cases h; exact .nil
    | cons src queue => cases h
  | succ rounds ih =>
    cases queue with
    | nil => cases h; exact .nil
    | cons src queue =>
      rw [readFiles] at h
      split at h
      case h_1 => cases h
      case h_2 file parsed =>
        obtain ⟨⟨rest, last⟩, later, same⟩ := Option.map_eq_some_iff.mp h
        cases same
        exact .cons parsed (ih later)

/-- Reads and merges, and tests the files and the merged AST. -/
def mergePasses (fs : FileSystem) (main : Bytes) (rounds : ℕ)
    (test : List (Bytes × Ast) → Ast → Bool) : Bool :=
  match readFiles fs rounds [main] 0 with
  | none => false
  | some (files, _) =>
    match mergeFiles (files.map Prod.snd) with
    | none => false
    | some ast => test files ast

theorem exists_merge {fs : FileSystem} {main : Bytes} {rounds : ℕ}
    {test : List (Bytes × Ast) → Ast → Bool} (h : mergePasses fs main rounds test = true) :
    ∃ files fresh ast, Reading fs [main] 0 files fresh ∧
      mergeFiles (files.map Prod.snd) = some ast ∧ test files ast = true := by
  unfold mergePasses at h
  split at h
  case h_1 => cases h
  case h_2 files fresh reads =>
    split at h
    case h_1 => cases h
    case h_2 ast merges => exact ⟨files, fresh, ast, reading_of_readFiles reads, merges, h⟩

theorem includes_of_any {fs : FileSystem} {f g : Bytes}
    (h : ((parseOne fs f 0).any fun file => file.includeList.contains g) = true) :
    Includes fs f g := by
  obtain ⟨file, parsed, member⟩ := (Option.any_eq_true _ _).mp h
  exact ⟨0, file, parsed, by simpa using member⟩

/-- Decides `Contested`. -/
def isContested (files : List (Bytes × Ast)) (f g : Bytes) (path : Path) (valueF valueG : Value) :
    Bool :=
  decide (files.map Prod.fst).Nodup &&
    ((files.lookup f).any fun ast => ast.value path == some valueF) &&
    ((files.lookup g).any fun ast => ast.value path == some valueG) &&
    files.all fun e => e.1 == f || e.1 == g || (e.2.define path).isNone

theorem contested_of_isContested {files : List (Bytes × Ast)} {f g : Bytes} {path : Path}
    {valueF valueG : Value} (h : isContested files f g path valueF valueG = true) :
    Contested files f g path valueF valueG := by
  have mem {f : Bytes} {v : Value}
      (h : ((files.lookup f).any fun ast => ast.value path == some v) = true) :
      ∃ ast, (f, ast) ∈ files ∧ ast.value path = some v := by
    obtain ⟨ast, found, value⟩ := (Option.any_eq_true _ _).mp h
    obtain ⟨_, _, rfl, _⟩ := List.lookup_eq_some_iff.mp found
    exact ⟨ast, by simp, by simpa using value⟩
  simp only [isContested, Bool.and_eq_true, decide_eq_true_eq] at h
  obtain ⟨⟨⟨once, definesF⟩, definesG⟩, others⟩ := h
  refine ⟨once, mem definesF, mem definesG, fun e member notF notG => ?_⟩
  have rest := List.all_eq_true.mp others e member
  simpa [notF, notG] using rest

/-- The main file includes a file that overrides a term of the file it includes itself. -/
def nestedIncludes : FileSystem :=
  .files [
    (ascii "/main", ascii "#include \"/a\" root \x7b module = \"m\"; u = 3; \x7d"),
    (ascii "/a", ascii "#include \"/b\" root \x7b t = 1; \x7d"),
    (ascii "/b", ascii "root \x7b t = 2; u = 4; \x7d")]

/-- The value of a number term that fits into a byte. -/
def Value.byte (n : UInt64) : Value := .datum (.number .uint8 n)

/-- What the two terms of the innermost file are overridden by. -/
private def overrides (files : List (Bytes × Ast)) (ast : Ast) : Bool :=
  (isContested files (ascii "/a") (ascii "/b") (termPath [] (ascii "t")) (.byte 1) (.byte 2) &&
    ast.value (termPath [] (ascii "t")) != some (.byte 1)) &&
    isContested files (ascii "/main") (ascii "/b") (termPath [] (ascii "u")) (.byte 3) (.byte 4)

private theorem overrides_nestedIncludes :
    mergePasses nestedIncludes (ascii "/main") 5 overrides = true ∧
      ((parseOne nestedIncludes (ascii "/main") 0).any
        fun file => file.includeList.contains (ascii "/a")) = true ∧
      ((parseOne nestedIncludes (ascii "/a") 0).any
        fun file => file.includeList.contains (ascii "/b")) = true := by
  rw [nestedIncludes]
  iterate 4 rw [ascii_ofList]
  decide +kernel

theorem includer_loses :
    ∃ files fresh ast, Reading nestedIncludes [ascii "/main"] 0 files fresh ∧
      mergeFiles (files.map Prod.snd) = some ast ∧
      Relation.TransGen (Includes nestedIncludes) (ascii "/a") (ascii "/b") ∧
      Contested files (ascii "/a") (ascii "/b") (termPath [] (ascii "t")) (.byte 1) (.byte 2) ∧
      ast.value (termPath [] (ascii "t")) ≠ some (.byte 1) := by
  obtain ⟨evaluated, -, inner⟩ := overrides_nestedIncludes
  obtain ⟨files, fresh, ast, reading, merges, test⟩ := exists_merge evaluated
  obtain ⟨contested, loses⟩ := Bool.and_eq_true_iff.mp (Bool.and_eq_true_iff.mp test).1
  exact ⟨files, fresh, ast, reading, merges,
    .single (includes_of_any inner),
    contested_of_isContested contested, by simpa using loses⟩

theorem includer_wins_iff_nestedIncludes :
    ∃ files fresh ast, Reading nestedIncludes [ascii "/main"] 0 files fresh ∧
      mergeFiles (files.map Prod.snd) = some ast ∧
      (ast.value (termPath [] (ascii "u")) = some (.byte 3) ↔
        ascii "/main" = ascii "/main" ∨ Value.byte 3 = .byte 4) := by
  obtain ⟨evaluated, outer, inner⟩ := overrides_nestedIncludes
  obtain ⟨files, fresh, ast, reading, merges, test⟩ := exists_merge evaluated
  have includes : Relation.TransGen (Includes nestedIncludes) (ascii "/main") (ascii "/b") :=
    .head (includes_of_any outer) (.single (includes_of_any inner))
  exact ⟨files, fresh, ast, reading, merges, includer_wins_iff reading merges includes
    (contested_of_isContested (Bool.and_eq_true_iff.mp test).2)⟩

end Hdf.HcGen
