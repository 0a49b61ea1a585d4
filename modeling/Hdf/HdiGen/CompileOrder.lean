import Hdf.Lib.DependencyOrder
import Mathlib.Data.Finset.SDiff

/-!
# The order in which IDL files are compiled

Once every IDL file has been scanned for its package and its imports, the module
parser looks for an order in which each file comes after the files it imports. It
takes away, from all files, the imports of the files already ordered, and queues a
file as soon as no import of it is left. The files are then compiled in that order,
and an import statement looks up the tree of a file compiled before.

## Main results

* `drain_spec`: the search orders the files whose imports it can serve, and only those
* `checkCircularReference_spec`: the search succeeds just for complete imports without
  cycles, and then no import fails to find its tree
-/

namespace Hdf.HdiGen

open DependencyOrder Relation

structure FileDetail where
  idlFilePath : String
  packageName : String
  idlName : String
  imports : Finset String
deriving DecidableEq

namespace FileDetail

def getFullName (file : FileDetail) : String := file.packageName ++ "." ++ file.idlName

def getImportSize (file : FileDetail) : ℕ := file.imports.card

def addImport (file : FileDetail) (packageName : String) : FileDetail :=
  { file with imports := insert packageName file.imports }

def delImport (file : FileDetail) (packageName : String) : FileDetail :=
  { file with imports := file.imports.erase packageName }

end FileDetail

/-! ### The search for an order -/

/-- One pass over the source files after `name` has been ordered: the files as they are
then, and those that the pass queues. -/
def scan (name : String) : List FileDetail → List FileDetail × List FileDetail
  | [] => ([], [])
  | fileNode :: rest =>
    let scanned := scan name rest
    if 0 < fileNode.getImportSize then
      let fileNode := fileNode.delImport name
      if fileNode.getImportSize = 0 then
        (fileNode :: scanned.1, fileNode :: scanned.2)
      else
        (fileNode :: scanned.1, scanned.2)
    else
      (fileNode :: scanned.1, scanned.2)

/-- The files that still have imports. -/
def waiting (sourceFiles : List FileDetail) : ℕ :=
  sourceFiles.countP fun file => 0 < file.getImportSize

theorem waiting_scan (name : String) (sourceFiles : List FileDetail) :
    waiting (scan name sourceFiles).1 + (scan name sourceFiles).2.length = waiting sourceFiles := by
  induction sourceFiles with
  | nil => rfl
  | cons file rest ih =>
    unfold waiting at ih ⊢
    unfold scan
    dsimp only
    split_ifs with some none
    · have left : ¬ 0 < (file.delImport name).getImportSize := by omega
      simp only [List.countP_cons, some, left, List.length_cons, decide_true, decide_false, if_true]
      simp only [Bool.false_eq_true, if_false]
      omega
    · have left : 0 < (file.delImport name).getImportSize := by omega
      simp only [List.countP_cons, some, left, decide_true, if_true]
      omega
    · simp only [List.countP_cons, some, decide_false, Bool.false_eq_true, if_false]
      omega

/-- The loop over the queue: the paths that it appends to the compilation order. -/
def drain (sourceFiles : List FileDetail) : List FileDetail → List String
  | [] => []
  | importFile :: fileQueue =>
    importFile.idlFilePath ::
      drain (scan importFile.getFullName sourceFiles).1
        (fileQueue ++ (scan importFile.getFullName sourceFiles).2)
termination_by fileQueue => waiting sourceFiles + fileQueue.length
decreasing_by
  have same := waiting_scan importFile.getFullName sourceFiles
  simp only [List.length_append, List.length_cons]
  omega

/-- The answer of the search and the order found. -/
def checkCircularReference (sourceFiles : List FileDetail) : Bool × List String :=
  let compileFiles := drain sourceFiles (sourceFiles.filter fun file => file.getImportSize = 0)
  (!decide (compileFiles.length < sourceFiles.length), compileFiles)

/-! ### What holds between two rounds -/

/-- A file without the imports that have been ordered. -/
def FileDetail.released (names : Finset String) (file : FileDetail) : FileDetail :=
  { file with imports := file.imports \ names }

/-- The files whose last imports are served by one more file. -/
def fresh (sourceFiles : List FileDetail) (names : Finset String) (name : String) :
    List FileDetail :=
  sourceFiles.filter fun file => ¬ file.imports ⊆ names ∧ file.imports ⊆ insert name names

@[simp] theorem released_idlFilePath (names : Finset String) (file : FileDetail) :
    (file.released names).idlFilePath = file.idlFilePath := rfl

@[simp] theorem released_getFullName (names : Finset String) (file : FileDetail) :
    (file.released names).getFullName = file.getFullName := rfl

theorem released_empty (file : FileDetail) : file.released ∅ = file := by
  simp [FileDetail.released]

theorem released_delImport (names : Finset String) (name : String) (file : FileDetail) :
    (file.released names).delImport name = file.released (insert name names) := by
  simp only [FileDetail.released, FileDetail.delImport, Finset.sdiff_insert]

theorem getImportSize_released (names : Finset String) (file : FileDetail) :
    (file.released names).getImportSize = 0 ↔ file.imports ⊆ names := by
  simp [FileDetail.released, FileDetail.getImportSize]

/-- Nothing changes in a file without imports. -/
theorem released_of_subset {names more : Finset String} {file : FileDetail}
    (served : file.imports ⊆ names) (grown : names ⊆ more) :
    file.released names = file.released more := by
  have none : file.imports \ names = ∅ := Finset.sdiff_eq_empty_iff_subset.mpr served
  have noneMore : file.imports \ more = ∅ :=
    Finset.sdiff_eq_empty_iff_subset.mpr (served.trans grown)
  simp only [FileDetail.released, none, noneMore]

theorem scan_released (name : String) (names : Finset String) (sourceFiles : List FileDetail) :
    scan name (sourceFiles.map (·.released names)) =
      (sourceFiles.map (·.released (insert name names)),
        (fresh sourceFiles names name).map (·.released (insert name names))) := by
  induction sourceFiles with
  | nil => rfl
  | cons file rest ih =>
    have size := getImportSize_released names file
    have sizeAfter := getImportSize_released (insert name names) file
    simp only [List.map_cons, scan, ih, released_delImport, fresh, List.filter_cons]
    by_cases served : file.imports ⊆ names
    · have unchanged := released_of_subset served (Finset.subset_insert name names)
      have zero := size.mpr served
      simp [zero, served, ← unchanged]
    · have positive : 0 < (file.released names).getImportSize :=
        Nat.pos_of_ne_zero fun zero => served (size.mp zero)
      by_cases servedNow : file.imports ⊆ insert name names
      · simp [positive, served, servedNow, sizeAfter.mpr servedNow]
      · have left : (file.released (insert name names)).getImportSize ≠ 0 :=
          fun zero => servedNow (sizeAfter.mp zero)
        simp [positive, left, servedNow]

/-- Between two rounds: the ordered and the queued files are those whose imports have
been ordered, and the ordered ones come after what they import. -/
structure Progress (sourceFiles ordered queued : List FileDetail) : Prop where
  served : (ordered ++ queued).Perm
    (sourceFiles.filter fun file => file.imports ⊆ namesOf FileDetail.getFullName ordered)
  inOrder : InOrder FileDetail.getFullName FileDetail.imports ordered

theorem Progress.length_le {sourceFiles ordered queued : List FileDetail}
    (progress : Progress sourceFiles ordered queued) :
    (ordered ++ queued).length ≤ sourceFiles.length :=
  progress.served.length_eq.trans_le (List.length_filter_le _ _)

theorem namesOf_concat (ordered : List FileDetail) (file : FileDetail) :
    namesOf FileDetail.getFullName (ordered ++ [file]) =
      insert file.getFullName (namesOf FileDetail.getFullName ordered) := by
  rw [namesOf_append, Finset.union_comm]
  rfl

theorem Progress.round {sourceFiles ordered queued : List FileDetail} {file : FileDetail}
    (progress : Progress sourceFiles ordered (file :: queued)) :
    Progress sourceFiles (ordered ++ [file])
      (queued ++ fresh sourceFiles (namesOf FileDetail.getFullName ordered) file.getFullName) := by
  set names := namesOf FileDetail.getFullName ordered with namesEq
  have free : file ∈ sourceFiles.filter fun file => file.imports ⊆ names :=
    progress.served.mem_iff.mp (by simp)
  refine ⟨?_, progress.inOrder.concat (by simpa using (List.mem_filter.mp free).2)⟩
  rw [namesOf_concat, ← namesEq]
  -- the files served after the round are those served before it and the fresh ones
  have parts : ((sourceFiles.filter fun file => file.imports ⊆ names) ++
      fresh sourceFiles names file.getFullName).Perm
        (sourceFiles.filter fun g => g.imports ⊆ insert file.getFullName names) := by
    have split := List.filter_append_perm (fun g : FileDetail => decide (g.imports ⊆ names))
      (sourceFiles.filter fun g => g.imports ⊆ insert file.getFullName names)
    rw [List.filter_filter, List.filter_filter] at split
    have old : ∀ g : FileDetail, (decide (g.imports ⊆ names) &&
        decide (g.imports ⊆ insert file.getFullName names)) = decide (g.imports ⊆ names) := by
      intro g
      by_cases served : g.imports ⊆ names
      · simp [served, served.trans (Finset.subset_insert _ names)]
      · simp [served]
    simp only [old] at split
    simpa [fresh] using split
  have same : ordered ++ [file] ++ (queued ++ fresh sourceFiles names file.getFullName) =
      ordered ++ (file :: queued) ++ fresh sourceFiles names file.getFullName := by simp
  rw [same]
  exact (progress.served.append_right _).trans parts

/-- The queued files as the loop holds them do not change in a round. -/
theorem Progress.queue_released {sourceFiles ordered queued : List FileDetail}
    {file : FileDetail} (progress : Progress sourceFiles ordered (file :: queued)) :
    queued.map (·.released (namesOf FileDetail.getFullName ordered)) =
      queued.map (·.released (namesOf FileDetail.getFullName (ordered ++ [file]))) := by
  refine List.map_congr_left fun g member => ?_
  have free : g ∈ sourceFiles.filter fun file =>
      file.imports ⊆ namesOf FileDetail.getFullName ordered :=
    progress.served.mem_iff.mp (by simp [member])
  refine released_of_subset (by simpa using (List.mem_filter.mp free).2) ?_
  rw [namesOf_concat]
  exact Finset.subset_insert _ _

/-- The search appends the paths of files that it can order, until no other file can be. -/
theorem drain_spec {sourceFiles ordered queued : List FileDetail}
    (progress : Progress sourceFiles ordered queued) :
    ∃ order, Progress sourceFiles order [] ∧
      ordered.map FileDetail.idlFilePath ++
        drain (sourceFiles.map (·.released (namesOf FileDetail.getFullName ordered)))
          (queued.map (·.released (namesOf FileDetail.getFullName ordered))) =
        order.map FileDetail.idlFilePath := by
  -- each round orders one more of the source files
  induction h : sourceFiles.length - ordered.length using Nat.strong_induction_on
    generalizing ordered queued with
  | _ left ih =>
    cases queued with
    | nil => exact ⟨ordered, progress, by rw [List.map_nil, drain, List.append_nil]⟩
    | cons file queued =>
      have few := progress.length_le
      rw [List.length_append, List.length_cons] at few
      obtain ⟨order, done, same⟩ := ih _ (by rw [List.length_append, List.length_singleton]; omega)
        progress.round rfl
      refine ⟨order, done, ?_⟩
      rw [← same, List.map_cons, drain, released_getFullName, scan_released,
        progress.queue_released, ← namesOf_concat, ← List.map_append]
      simp

/-! ### When the search succeeds -/

/-- The source files, which the parser keeps under their full names, in any order. -/
structure SourceFiles where
  files : List FileDetail
  distinct : (files.map FileDetail.getFullName).Nodup

/-- Every imported name is the full name of one of the files. -/
def SourceFiles.ImportsKnown (sources : SourceFiles) : Prop :=
  ∀ file ∈ sources.files, ∀ name ∈ file.imports,
    ∃ imported ∈ sources.files, imported.getFullName = name

/-- One of the files imports another one. -/
def SourceFiles.Imports (sources : SourceFiles) : FileDetail → FileDetail → Prop :=
  Needs FileDetail.getFullName FileDetail.imports sources.files

theorem Progress.start (sourceFiles : List FileDetail) :
    Progress sourceFiles [] (sourceFiles.filter fun file => file.getImportSize = 0) := by
  refine ⟨?_, inOrder_nil⟩
  have same : ∀ file : FileDetail, decide (file.getImportSize = 0) =
      decide (file.imports ⊆ namesOf FileDetail.getFullName []) := by
    intro file
    simp [FileDetail.getImportSize, namesOf]
  simp only [same, List.nil_append]
  exact List.Perm.refl _

/-- The search stops with an order of the files whose imports it can serve, and it
succeeds if these are all files. -/
theorem checkCircularReference_eq (sourceFiles : List FileDetail) :
    ∃ order, Progress sourceFiles order [] ∧
      (checkCircularReference sourceFiles).2 = order.map FileDetail.idlFilePath ∧
      ((checkCircularReference sourceFiles).1 = true ↔ order.Perm sourceFiles) := by
  obtain ⟨order, progress, same⟩ := drain_spec (Progress.start sourceFiles)
  have start : ∀ files : List FileDetail,
      files.map (·.released (namesOf FileDetail.getFullName [])) = files := by
    simp [namesOf, released_empty]
  rw [start, start, List.map_nil, List.nil_append] at same
  refine ⟨order, progress, same, ?_⟩
  have served := progress.served
  rw [List.append_nil] at served
  simp only [checkCircularReference, same, List.length_map, Bool.not_eq_true',
    decide_eq_false_iff_not, not_lt]
  constructor
  · intro many
    have none : (sourceFiles.filter fun file =>
        file.imports ⊆ namesOf FileDetail.getFullName order).length = sourceFiles.length :=
      le_antisymm (List.length_filter_le _ _) (served.length_eq ▸ many)
    rwa [List.filter_eq_self.mpr (List.length_filter_eq_length_iff.mp none)] at served
  · exact fun perm => perm.length_eq.ge

theorem checkCircularReference_iff (sources : SourceFiles) :
    (checkCircularReference sources.files).1 = true ↔
      sources.ImportsKnown ∧ ∀ file, ¬ TransGen sources.Imports file file := by
  obtain ⟨order, progress, -, succeeds⟩ := checkCircularReference_eq sources.files
  have served := progress.served
  rw [List.append_nil] at served
  rw [succeeds]
  constructor
  · intro all
    constructor
    · intro file listed name imported
      obtain ⟨before, after, split⟩ := List.append_of_mem (all.mem_iff.mpr listed)
      obtain ⟨g, earlier, same⟩ :=
        mem_namesOf.mp (progress.inOrder before file after split imported)
      exact ⟨g, all.mem_iff.mp (split ▸ List.mem_append_left _ earlier), same⟩
    · intro file cycle
      refine progress.inOrder.acyclic (all.map _ |>.nodup_iff.mpr sources.distinct) file ?_
      refine cycle.lift id ?_
      rintro f g ⟨inF, inG, imported⟩
      exact ⟨all.mem_iff.mpr inF, all.mem_iff.mpr inG, imported⟩
  · rintro ⟨known, acyclic⟩
    have every : ∀ file ∈ sources.files, file ∈ order :=
      mem_of_acyclic known acyclic fun file listed covered =>
        served.mem_iff.mpr (List.mem_filter.mpr ⟨listed, decide_eq_true covered⟩)
    have all : sources.files.filter (fun file =>
        file.imports ⊆ namesOf FileDetail.getFullName order) = sources.files :=
      List.filter_eq_self.mpr fun file listed =>
        (List.mem_filter.mp (served.mem_iff.mp (every file listed))).2
    rwa [all] at served

/-! ### The compilation -/

/-- A statement of an IDL file, as far as the order of compilation goes. Of a package
statement, the compilation also matches the version. -/
inductive Statement where
  | packageName (name : String) (matchesVersion : Bool)
  | importName (name : String)
  | other (succeeds : Bool)

/-- The tree of a file: of its imports the full names. -/
structure AST where
  packageName : String
  name : String
  imports : Finset String

def AST.getFullName (ast : AST) : String := ast.packageName ++ "." ++ ast.name

/-- The trees of a module by their full names. -/
abbrev ASTModule := String → Option AST

/-- A file under compilation, with the imports whose tree was not found. -/
structure Parsing where
  ast : AST
  ret : Bool
  missing : List String

namespace Parsing

def parsePackageName (parsing : Parsing) (name : String) (matchesVersion : Bool) : Parsing :=
  if matchesVersion then { parsing with ast := { parsing.ast with packageName := name } }
  else { parsing with ret := false }

def parseImport (astModule : ASTModule) (parsing : Parsing) (name : String) : Parsing :=
  match astModule name with
  | none => { parsing with ret := false, missing := parsing.missing ++ [name] }
  | some importAst =>
    if importAst.getFullName ∈ parsing.ast.imports then { parsing with ret := false }
    else { parsing with
      ast := { parsing.ast with imports := insert importAst.getFullName parsing.ast.imports } }

def parseStatement (astModule : ASTModule) (parsing : Parsing) : Statement → Parsing
  | .packageName name matchesVersion => parsing.parsePackageName name matchesVersion
  | .importName name => parsing.parseImport astModule name
  | .other succeeds => { parsing with ret := parsing.ret && succeeds }

end Parsing

/-- The IDL files by their paths: their statements, the name that a path gives to a file,
and whether the integrity check accepts a tree. -/
structure Project where
  text : String → List Statement
  idlName : String → String
  checkIntegrity : AST → Bool

namespace Project

variable (project : Project)

def parseIdlStatement (file : FileDetail) : Statement → FileDetail
  | .packageName name _ => { file with packageName := name }
  | .importName name => file.addImport name
  | .other _ => file

/-- The first scan of a file. -/
def parseIdlDetail (path : String) : FileDetail :=
  (project.text path).foldl parseIdlStatement ⟨path, "", project.idlName path, ∅⟩

def parseFile (astModule : ASTModule) (path : String) : Parsing :=
  (project.text path).foldl (Parsing.parseStatement astModule)
    ⟨⟨"", project.idlName path, ∅⟩, true, []⟩

/-- The compilation of a list of files, with the imports that fail to find their tree. A
file that fails ends it; its tree has been added by then. -/
def compileFiles (astModule : ASTModule) : List String → Bool × List String
  | [] => (true, [])
  | filePath :: rest =>
    let parsing := project.parseFile astModule filePath
    let added := Function.update astModule parsing.ast.getFullName (some parsing.ast)
    if project.checkIntegrity parsing.ast && parsing.ret then
      let compiled := compileFiles added rest
      (compiled.1, parsing.missing ++ compiled.2)
    else
      (false, parsing.missing)

variable {project}

theorem parseStatement_ret {astModule : ASTModule} {parsing : Parsing} {statement : Statement}
    (succeeds : (parsing.parseStatement astModule statement).ret = true) :
    parsing.ret = true := by
  cases statement with
  | packageName name matchesVersion =>
    rw [Parsing.parseStatement, Parsing.parsePackageName] at succeeds
    split at succeeds
    · exact succeeds
    · cases succeeds
  | importName name =>
    rw [Parsing.parseStatement, Parsing.parseImport] at succeeds
    split at succeeds
    · cases succeeds
    · split at succeeds
      · cases succeeds
      · exact succeeds
  | other result => exact (Bool.and_eq_true_iff.mp succeeds).1

theorem parse_ret {astModule : ASTModule} {statements : List Statement} {parsing : Parsing}
    (succeeds : (statements.foldl (Parsing.parseStatement astModule) parsing).ret = true) :
    parsing.ret = true := by
  induction statements generalizing parsing with
  | nil => exact succeeds
  | cons statement rest ih => exact parseStatement_ret (ih succeeds)

/-- A file that is compiled without failure is named as the first scan names it. -/
theorem getFullName_parse {astModule : ASTModule} {statements : List Statement}
    {parsing : Parsing} {file : FileDetail}
    (succeeds : (statements.foldl (Parsing.parseStatement astModule) parsing).ret = true)
    (same : parsing.ast.getFullName = file.getFullName)
    (sameName : parsing.ast.name = file.idlName) :
    (statements.foldl (Parsing.parseStatement astModule) parsing).ast.getFullName =
      (statements.foldl parseIdlStatement file).getFullName := by
  induction statements generalizing parsing file with
  | nil => exact same
  | cons statement rest ih =>
    have here : (parsing.parseStatement astModule statement).ret = true := parse_ret succeeds
    cases statement with
    | packageName name matchesVersion =>
      cases matchesVersion with
      | false => cases here
      | true =>
        refine ih succeeds ?_ sameName
        change name ++ "." ++ parsing.ast.name = name ++ "." ++ file.idlName
        rw [sameName]
    | importName name =>
      refine ih succeeds ?_ ?_
      all_goals
        rw [Parsing.parseStatement, Parsing.parseImport]
        split
        · first | exact same | exact sameName
        · split <;> first | exact same | exact sameName
    | other result => exact ih succeeds same sameName

/-- The imports that the first scan has found stay in the set. -/
theorem imports_parseIdl {statements : List Statement} {file : FileDetail} :
    file.imports ⊆ (statements.foldl parseIdlStatement file).imports := by
  induction statements generalizing file with
  | nil => exact Finset.Subset.refl _
  | cons statement rest ih =>
    refine Finset.Subset.trans ?_ ih
    cases statement with
    | packageName => exact Finset.Subset.refl _
    | importName name => exact Finset.subset_insert _ _
    | other => exact Finset.Subset.refl _

theorem importName_mem {statements : List Statement} {file : FileDetail} {name : String}
    (listed : .importName name ∈ statements) :
    name ∈ (statements.foldl parseIdlStatement file).imports := by
  induction statements generalizing file with
  | nil => cases listed
  | cons statement rest ih =>
    rcases List.mem_cons.mp listed with rfl | later
    · have added : name ∈ (file.addImport name).imports := Finset.mem_insert_self _ _
      rw [List.foldl_cons]
      exact imports_parseIdl added
    · exact ih later

theorem missing_parse {astModule : ASTModule} {statements : List Statement} {parsing : Parsing}
    (found : ∀ name, .importName name ∈ statements → astModule name ≠ none) :
    (statements.foldl (Parsing.parseStatement astModule) parsing).missing = parsing.missing := by
  induction statements generalizing parsing with
  | nil => rfl
  | cons statement rest ih =>
    rw [List.foldl_cons, ih fun name later => found name (List.mem_cons_of_mem _ later)]
    cases statement with
    | packageName name matchesVersion =>
      rw [Parsing.parseStatement, Parsing.parsePackageName]
      split <;> rfl
    | importName name =>
      have there := found name (List.mem_cons_self)
      rw [Parsing.parseStatement, Parsing.parseImport]
      split
      · contradiction
      · split <;> rfl
    | other => rfl

/-- A file whose imports all have trees finds them. -/
theorem parseFile_missing {astModule : ASTModule} {path : String}
    (found : ∀ name ∈ (project.parseIdlDetail path).imports, astModule name ≠ none) :
    (project.parseFile astModule path).missing = [] :=
  missing_parse fun name listed => found name (importName_mem listed)

theorem parseFile_getFullName {astModule : ASTModule} {path : String}
    (succeeds : (project.parseFile astModule path).ret = true) :
    (project.parseFile astModule path).ast.getFullName =
      (project.parseIdlDetail path).getFullName :=
  getFullName_parse succeeds rfl rfl

/-- Files in an order that serves their imports all find the trees they import. -/
theorem compileFiles_missing {compiled rest : List FileDetail} {astModule : ASTModule}
    (described : ∀ file ∈ rest, file = project.parseIdlDetail file.idlFilePath)
    (inOrder : InOrder FileDetail.getFullName FileDetail.imports (compiled ++ rest))
    (trees : ∀ file ∈ compiled, astModule file.getFullName ≠ none) :
    (project.compileFiles astModule (rest.map FileDetail.idlFilePath)).2 = [] := by
  induction rest generalizing compiled astModule with
  | nil => rfl
  | cons file rest ih =>
    have this := described file List.mem_cons_self
    have found : (project.parseFile astModule file.idlFilePath).missing = [] := by
      refine parseFile_missing fun name imported => ?_
      rw [← this] at imported
      obtain ⟨g, earlier, rfl⟩ := mem_namesOf.mp (inOrder compiled file rest rfl imported)
      exact trees g earlier
    rw [List.map_cons, compileFiles]
    dsimp only
    split
    · rename_i succeeds
      rw [found, List.nil_append]
      refine @ih (compiled ++ [file]) _
        (fun g later => described g (List.mem_cons_of_mem _ later)) (by simpa using inOrder) ?_
      have named := parseFile_getFullName (Bool.and_eq_true_iff.mp succeeds).2
      rw [← this] at named
      intro g member
      by_cases same : g.getFullName = file.getFullName
      · rw [named, same, Function.update_self]
        exact Option.some_ne_none _
      · rw [named, Function.update_of_ne same]
        rcases List.mem_append.mp member with earlier | here
        · exact trees g earlier
        · exact absurd (congrArg FileDetail.getFullName (List.mem_singleton.mp here)) same
    · exact found

end Project

/-- The search succeeds just for complete imports without cycles; its order then has every
file once, after the files it imports, and in the compilation every import statement finds
the tree it asks for. -/
theorem checkCircularReference_spec (sources : SourceFiles) :
    ((checkCircularReference sources.files).1 = true ↔
      sources.ImportsKnown ∧ ∀ file, ¬ TransGen sources.Imports file file) ∧
    ((checkCircularReference sources.files).1 = true →
      ∃ order, order.Perm sources.files ∧
        (checkCircularReference sources.files).2 = order.map FileDetail.idlFilePath ∧
        InOrder FileDetail.getFullName FileDetail.imports order ∧
        ∀ project : Project,
          (∀ file ∈ sources.files, file = project.parseIdlDetail file.idlFilePath) →
          (project.compileFiles (fun _ => none) (checkCircularReference sources.files).2).2 =
            []) := by
  refine ⟨checkCircularReference_iff sources, fun success => ?_⟩
  obtain ⟨order, progress, paths, succeeds⟩ := checkCircularReference_eq sources.files
  have all := succeeds.mp success
  refine ⟨order, all, paths, progress.inOrder, fun project described => ?_⟩
  rw [paths]
  exact @Project.compileFiles_missing project [] order _
    (fun file listed => described file (all.mem_iff.mp listed)) progress.inOrder
    (fun _ none => absurd none List.not_mem_nil)

/-- One file imports the other. -/
def twoFiles : SourceFiles where
  files := [⟨"a", "p", "A", {"p.B"}⟩, ⟨"b", "p", "B", ∅⟩]
  distinct := by decide

/-- The files with their statements. -/
def twoProject : Project where
  text path := .packageName "p" true :: if path = "a" then [.importName "p.B"] else []
  idlName path := if path = "a" then "A" else "B"
  checkIntegrity _ := true

theorem checkCircularReference_spec_two :
    (twoProject.compileFiles (fun _ => none) (checkCircularReference twoFiles.files).2).2 = [] := by
  obtain ⟨order, -, -, -, served⟩ :=
    (checkCircularReference_spec twoFiles).2 (by decide +kernel)
  exact served twoProject (by decide +kernel)

end Hdf.HdiGen
