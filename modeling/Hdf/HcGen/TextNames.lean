import Hdf.HcGen.TextGen
import Hdf.Lib.Occurrences

/-!
# The variables of the C file

The text generator writes two kinds of variables beside the root: an array for every
array term in a node that inherits, and a table for every template that some node inherits
from. Their names are made of the name of the term or template in camel case, and of a
number that counts the objects of that name: the first table goes without, the first array
has the number one. A first walk over the AST gives the numbers, and writes the arrays; a
second one writes the tables.

The numbers tell objects of one name apart, but nothing stands between the name and the
number: a template `aB2` has the table of the second one that is an `AB`.

An object is known by its position and comes with its name. The counters are natural
numbers, since an AST has less than `2 ^ 32` objects.

## Main definitions

* `genTemplateVariableName`, `genArrayName`, `Symbols`: the names and what they depend on
* `variableNames`: the names of the arrays and tables that are defined
* `Clear`: no numbered name is another one

## Main results

* `nodup_variableNames_iff`: when the names are distinct
-/

namespace Hdf.HcGen.TextGen

/-! ### Names -/

/-- `std::to_string`. -/
def decimal (n : ℕ) : Bytes := (Nat.toDigits 10 n).map fun c => UInt8.ofNat c.toNat

/-- The prefix that `TextGen::Initialize` takes from the options. -/
def prefixOf (symbolPrefix : Bytes) : Bytes :=
  toLowerCamelString (if symbolPrefix = [] then ascii "HdfConfig" else symbolPrefix)

/-- A template or an array term, with its name. -/
inductive Named where
  | template (pos : Pos) (name : Bytes)
  | array (pos : Pos) (name : Bytes)
  deriving DecidableEq, Repr

def Named.isArray : Named → Bool
  | template _ _ => false
  | array _ _ => true

/-- The name in the map of symbols. -/
def Named.symbol : Named → Bytes
  | template _ name => toUpperCamelString name
  | array _ name => ascii "g_hcsConfigArray" ++ toUpperCamelString name

/-- `struct TextGen::Symbol`. -/
structure Symbol where
  object : Named
  duplicateCount : ℕ
  deriving DecidableEq, Repr

/-- The map of symbols, and the numbers `templateSignNum_` and `signNum_` in the objects. -/
structure Symbols where
  symMap : Bytes → Option Symbol
  signNum : Named → ℕ

/-- No symbols, and no object with a number. -/
def Symbols.empty : Symbols where
  symMap := fun _ => none
  signNum := fun _ => 0

/-- `TextGen::SymbolAdd` for a new name. -/
def Symbols.add (s : Symbols) (object : Named) : Symbols :=
  { s with symMap := Function.update s.symMap object.symbol (some ⟨object, 1⟩) }

/-- The next number of a symbol is given to an object. -/
def Symbols.number (s : Symbols) (object : Named) (sym : Symbol) : Symbols where
  symMap := Function.update s.symMap object.symbol
    (some { sym with duplicateCount := sym.duplicateCount + 1 })
  signNum := Function.update s.signNum object (sym.duplicateCount + 1)

/-- The name of an object that has its number, if any. -/
def nameOf (prefix_ : Bytes) (object : Named) (signNum : ℕ) : Bytes :=
  match object with
  | .template _ name =>
    if signNum ≠ 0 then ascii "g_" ++ prefix_ ++ toUpperCamelString name ++ decimal signNum
    else ascii "g_" ++ prefix_ ++ toUpperCamelString name
  | .array _ name => ascii "g_hcsConfigArray" ++ toUpperCamelString name ++ decimal signNum

/-- `TextGen::GenTemplateVariableName`, up to the name itself. -/
def signTemplate (object : Named) (s : Symbols) : Symbols :=
  match s.symMap object.symbol with
  | none => s.add object
  | some sym =>
    if sym.object ≠ object ∧ s.signNum object = 0 then s.number object sym else s

/-- `TextGen::GenArrayName`, up to the name itself. -/
def signArray (object : Named) (s : Symbols) : Symbols :=
  match s.symMap object.symbol with
  | none => { s.add object with signNum := Function.update s.signNum object 1 }
  | some sym => if s.signNum object = 0 then s.number object sym else s

/-- `TextGen::GenTemplateVariableName` or `TextGen::GenArrayName`, as far as it gives numbers. -/
def sign (object : Named) (s : Symbols) : Symbols :=
  if object.isArray then signArray object s else signTemplate object s

/-- `TextGen::GenTemplateVariableName` or `TextGen::GenArrayName`. -/
def genName (prefix_ : Bytes) (object : Named) (s : Symbols) : Bytes × Symbols :=
  let s := sign object s
  (nameOf prefix_ object (s.signNum object), s)

/-! ### The walks -/

/-- An object on a walk. -/
structure Visit where
  pos : Pos
  place : Place
  object : AstObject

mutual

/-- The objects in the order of `Ast::WalkBackward`. -/
def visitsFrom (place : Place) (p : Pos) : AstObject → List Visit
  | .leaf leaf => [⟨p, place, .leaf leaf⟩]
  | .node node children =>
    visitsList (place.enter node) p 0 children ++ [⟨p, place.enter node, .node node children⟩]

def visitsList (place : Place) (p : Pos) (i : ℕ) : List AstObject → List Visit
  | [] => []
  | child :: rest => visitsFrom place (i :: p) child ++ visitsList place p (i + 1) rest

end

/-- The objects of an AST in the order of `Ast::WalkBackward`. -/
def visits (root : AstObject) : List Visit := visitsFrom ⟨false, false⟩ [] root

/-- The object for which `TextGen::OutputTemplateVariablesDeclare` makes a name. -/
def Visit.declared (visit : Visit) : Option Named :=
  match visit.object with
  | .leaf (.term term) =>
    match term.value with
    | .array .. => if visit.place.inSubClass then some (.array visit.pos term.name) else none
    | _ => none
  | .leaf (.value _) => none
  | .node node _ =>
    if node.nodeType = .template ∧ node.inheritCount ≠ 0 then some (.template visit.pos node.name)
    else none

/-- `TextGen::OutputTemplateVariablesDeclare`. -/
def outputTemplateVariablesDeclare (root : AstObject) : List Named :=
  (visits root).filterMap Visit.declared

mutual

/-- The objects for which `TextGen::ObjectImplementGen` makes a name. -/
def implementNames (inSubClass : Bool) (p : Pos) : AstObject → List Named
  | .leaf (.term term) =>
    match term.value with
    | .array .. => if inSubClass then [.array p term.name] else []
    | _ => []
  | .leaf (.value _) => []
  | .node node children =>
    match node.nodeType with
    | .noref => implementNamesList inSubClass p 0 children
    | .template => [.template p node.name]
    | _ => []

def implementNamesList (inSubClass : Bool) (p : Pos) (i : ℕ) : List AstObject → List Named
  | [] => []
  | child :: rest =>
    implementNames inSubClass (i :: p) child ++ implementNamesList inSubClass p (i + 1) rest

end

/-- The node at an address. -/
def visitAt (root : AstObject) (uid : ℕ) : Option Visit :=
  (visits root).find? fun visit =>
    match visit.object with
    | .node node _ => node.uid == uid
    | .leaf _ => false

/-- `TextGen::OutputTemplateImpl` for one template: its table, and the names in it. -/
def Visit.implemented (root : AstObject) (visit : Visit) : List (Bool × Named) :=
  match visit.object with
  | .leaf _ => []
  | .node node _ =>
    if node.nodeType = .template ∧ node.inheritCount ≠ 0 then
      (true, .template visit.pos node.name) ::
        (node.subClasses.filterMap (visitAt root)).flatMap fun heir =>
          (implementNamesList heir.place.inSubClass heir.pos 0 heir.object.children).map
            fun object => (false, object)
    else []

/-- The names that `TextGen::ImplOutput` makes up to the last definition, in order, and whether
something is defined under them: arrays in the first walk, tables in the second one. -/
def genNames (root : AstObject) : List (Bool × Named) :=
  (outputTemplateVariablesDeclare root).map (fun object => (object.isArray, object)) ++
    (visits root).flatMap (Visit.implemented root)

/-- The names under which something is defined. -/
def definedNames (prefix_ : Bytes) : List (Bool × Named) → Symbols → List Bytes
  | [], _ => []
  | (defines, object) :: rest, s =>
    let (name, s) := genName prefix_ object s
    if defines then name :: definedNames prefix_ rest s else definedNames prefix_ rest s

/-- The names of the arrays and tables that are defined in the C file. -/
def variableNames (symbolPrefix : Bytes) (root : AstObject) : List Bytes :=
  definedNames (prefixOf symbolPrefix) (genNames root) .empty

/-! ### Conditions -/

/-- The name of an object in camel case. -/
def Named.camelName : Named → Bytes
  | template _ name => toUpperCamelString name
  | array _ name => toUpperCamelString name

/-- The names in camel case of the arrays, or of the tables. -/
def objectNames (arrays : Bool) (root : AstObject) : List Bytes :=
  ((outputTemplateVariablesDeclare root).filter fun object => object.isArray == arrays).map
    Named.camelName

/-- The number of an array behind `n` others of its name. -/
def arrayNumber (n : ℕ) : Bytes := decimal (n + 1)

/-- The number of a table behind `n` others of its name. -/
def tableNumber (n : ℕ) : Bytes := if n = 0 then [] else decimal (n + 1)

/-- No name with a number up to how often it occurs is another name with such a number. -/
structure Clear (prefix_ : Bytes) (root : AstObject) : Prop where
  arrays : ∀ x y i j, i < (objectNames true root).count x → j < (objectNames true root).count y →
    x ++ arrayNumber i = y ++ arrayNumber j → x = y
  tables : ∀ x y i j, i < (objectNames false root).count x → j < (objectNames false root).count y →
    x ++ tableNumber i = y ++ tableNumber j → x = y
  apart : ∀ x y i j, i < (objectNames false root).count x → j < (objectNames true root).count y →
    prefix_ ++ x ++ tableNumber i ≠ ascii "hcsConfigArray" ++ y ++ arrayNumber j

/-! ### Numbers -/

/-- The digits are read back from their bytes. -/
theorem map_decimal (n : ℕ) :
    (decimal n).map (fun byte => Char.ofNat byte.toNat) = Nat.toDigits 10 n := by
  rw [decimal, List.map_map]
  refine (List.map_congr_left fun c member => ?_).trans (List.map_id _)
  have digit : c.isDigit := Nat.isDigit_of_mem_toDigits (by decide) (by decide) member
  have small : c.toNat < 256 := by
    simp only [Char.isDigit, Bool.and_eq_true, decide_eq_true_eq, UInt32.le_iff_toNat_le] at digit
    exact Nat.lt_of_le_of_lt digit.2 (by decide)
  rw [Function.comp_apply, UInt8.toNat_ofNat', Nat.mod_eq_of_lt small, Char.ofNat_toNat]
  rfl

theorem decimal_injective {m n : ℕ} (same : decimal m = decimal n) : m = n := by
  have texts : Nat.toDigits 10 m = Nat.toDigits 10 n := by
    rw [← map_decimal, same, map_decimal]
  have values := congrArg (fun text => Nat.ofDigitChars 10 text 0) texts
  simpa only [Nat.ofDigitChars_toDigits (by decide : 1 < 10) (Nat.le_refl 10)] using values

theorem decimal_ne_nil (n : ℕ) : decimal n ≠ [] := by
  simp [decimal, Nat.toDigits_ne_nil]

theorem arrayNumber_injective {i j : ℕ} (same : arrayNumber i = arrayNumber j) : i = j :=
  Nat.succ.inj (decimal_injective same)

theorem tableNumber_injective {i j : ℕ} (same : tableNumber i = tableNumber j) : i = j := by
  rw [tableNumber, tableNumber] at same
  split at same <;> split at same
  · omega
  · exact absurd same.symm (decimal_ne_nil _)
  · exact absurd same (decimal_ne_nil _)
  · exact Nat.succ.inj (decimal_injective same)

/-! ### Signs -/

section

variable {prefix_ : Bytes} {s : Symbols} {object other : Named}

/-- An object that has its number, or goes without as the first of its name. -/
def Made (s : Symbols) (object : Named) : Prop :=
  ∃ sym, s.symMap object.symbol = some sym ∧
    (s.signNum object ≠ 0 ∨ object.isArray = false ∧ sym.object = object)

/-- The three things that may happen to the symbols. -/
theorem sign_cases (s : Symbols) (object : Named) :
    (sign object s = s ∧ Made s object) ∨
      (s.symMap object.symbol = none ∧ sign object s = { s.add object with
        signNum := if object.isArray then Function.update s.signNum object 1 else s.signNum }) ∨
      ∃ sym, s.symMap object.symbol = some sym ∧ s.signNum object = 0 ∧
        (object.isArray = false → sym.object ≠ object) ∧
        sign object s = s.number object sym := by
  cases found : s.symMap object.symbol with
  | none =>
    refine .inr (.inl ⟨rfl, ?_⟩)
    cases array : object.isArray with
    | true => simp [sign, array, signArray, found]
    | false => simp [sign, array, signTemplate, found, Symbols.add]
  | some sym =>
    by_cases numbered : s.signNum object = 0
    · cases array : object.isArray with
      | true =>
        refine .inr (.inr ⟨sym, rfl, numbered, nofun, ?_⟩)
        simp [sign, array, signArray, found, numbered]
      | false =>
        by_cases own : sym.object = object
        · refine .inl ⟨?_, sym, found, .inr ⟨array, own⟩⟩
          simp [sign, array, signTemplate, found, own]
        · refine .inr (.inr ⟨sym, rfl, numbered, fun _ => own, ?_⟩)
          simp [sign, array, signTemplate, found, own, numbered]
    · refine .inl ⟨?_, sym, found, .inl numbered⟩
      cases array : object.isArray <;>
        simp [sign, array, signArray, signTemplate, found, numbered]

/-- A number stays. -/
theorem made_sign (made : Made s object) (other : Named) :
    Made (sign other s) object ∧ (sign other s).signNum object = s.signNum object := by
  obtain ⟨sym, found, numbered⟩ := made
  rcases sign_cases s other with ⟨same, -⟩ | ⟨missing, added⟩ | ⟨sym', found', zero, new, added⟩
  · rw [same]
    exact ⟨⟨sym, found, numbered⟩, rfl⟩
  · have different : object.symbol ≠ other.symbol := fun same => by
      rw [same, missing] at found
      cases found
    have apart : object ≠ other := fun same => different (congrArg Named.symbol same)
    have number : (sign other s).signNum object = s.signNum object := by
      rw [added]
      dsimp only
      split
      · exact Function.update_of_ne apart ..
      · rfl
    refine ⟨⟨sym, ?_, number.symm ▸ numbered⟩, number⟩
    rw [added]
    exact (Function.update_of_ne different ..).trans found
  · have apart : object ≠ other := by
      rintro rfl
      cases found.symm.trans found'
      rcases numbered with nonzero | ⟨template, own⟩
      · exact nonzero zero
      · exact new template own
    have number : (sign other s).signNum object = s.signNum object := by
      rw [added]
      exact Function.update_of_ne apart ..
    refine ⟨?_, number⟩
    rw [Made, number, added]
    by_cases same : object.symbol = other.symbol
    · rw [same] at found ⊢
      cases found.symm.trans found'
      exact ⟨_, Function.update_self .., numbered⟩
    · exact ⟨sym, (Function.update_of_ne same ..).trans found, numbered⟩

/-- After its name is made an object has its number. -/
theorem made_sign_self (s : Symbols) (object : Named) : Made (sign object s) object := by
  rcases sign_cases s object with ⟨same, made⟩ | ⟨-, added⟩ | ⟨sym, -, -, -, added⟩
  · rw [same]
    exact made
  · rw [added]
    refine ⟨⟨object, 1⟩, Function.update_self .., ?_⟩
    cases array : object.isArray with
    | true =>
      refine .inl ?_
      simp
    | false => exact .inr ⟨rfl, rfl⟩
  · rw [added]
    refine ⟨_, Function.update_self .., .inl ?_⟩
    exact (Function.update_self ..).trans_ne (Nat.succ_ne_zero _)

/-- What is left of the symbols after names are made. -/
def signs (objects : List Named) (s : Symbols) : Symbols :=
  objects.foldl (fun s object => sign object s) s

theorem signs_cons (objects : List Named) :
    signs (object :: objects) s = signs objects (sign object s) := rfl

theorem made_signs (made : Made s object) (objects : List Named) :
    Made (signs objects s) object ∧ (signs objects s).signNum object = s.signNum object := by
  induction objects generalizing s with
  | nil => exact ⟨made, rfl⟩
  | cons other rest ih =>
    obtain ⟨made', number⟩ := made_sign made other
    obtain ⟨made'', number'⟩ := ih made'
    exact ⟨made'', number'.trans number⟩

/-- The names that are defined are those with the numbers that the objects have in the end. -/
theorem definedNames_eq (calls : List (Bool × Named)) (s : Symbols) :
    definedNames prefix_ calls s = ((calls.filter Prod.fst).map Prod.snd).map fun object =>
      nameOf prefix_ object ((signs (calls.map Prod.snd) s).signNum object) := by
  induction calls generalizing s with
  | nil => rfl
  | cons call rest ih =>
    obtain ⟨defines, object⟩ := call
    have number := (made_signs (made_sign_self s object) (rest.map Prod.snd)).2
    rw [definedNames]
    cases defines with
    | true =>
      simp only [genName, if_true, List.filter_cons_of_pos, List.map_cons, ih]
      rw [signs_cons, number]
    | false =>
      simp only [genName, Bool.false_eq_true, if_false, ih]
      rfl

/-! ### Numbers in the first walk -/

/-- Arrays or tables of one name. -/
structure Kind where
  isArray : Bool
  camelName : Bytes
  deriving DecidableEq

def Named.kind (object : Named) : Kind := ⟨object.isArray, object.camelName⟩

/-- No name in camel case is the start of the name of an array. -/
theorem toUpperCamelString_ne (name text : Bytes) :
    toUpperCamelString name ≠ ascii "g_hcsConfigArray" ++ text := by
  have head : ascii "g_hcsConfigArray" ++ text = 103 :: (ascii "_hcsConfigArray" ++ text) := rfl
  have upper (c : UInt8) : toupper c ≠ 103 := by
    intro same
    rw [toupper] at same
    split at same
    · rename_i lower
      have small := UInt8.le_iff_toNat_le.mp lower.2
      have same := congrArg UInt8.toNat same
      rw [UInt8.toNat_sub_of_le _ _ (UInt8.le_iff_toNat_le.mpr
        ((UInt8.le_iff_toNat_le.mp lower.1).trans' (by decide)))] at same
      simp only [UInt8.reduceToNat] at small same
      omega
    · rename_i other
      subst same
      exact other ⟨by decide, by decide⟩
  rw [head, toUpperCamelString]
  split
  · exact fun same => nomatch same
  · exact fun same => upper _ (List.cons.inj same).1

theorem symbol_eq_iff : object.symbol = other.symbol ↔ object.kind = other.kind := by
  cases object <;> cases other
  · simp [Named.symbol, Named.kind, Named.isArray, Named.camelName]
  · refine iff_of_false (toUpperCamelString_ne _ _) ?_
    simp [Named.kind, Named.isArray]
  · refine iff_of_false (toUpperCamelString_ne _ _).symm ?_
    simp [Named.kind, Named.isArray]
  · simp [Named.symbol, Named.kind, Named.isArray, Named.camelName]

/-- The number of an object behind `n` others of its kind. -/
def signAt (array : Bool) (n : ℕ) : ℕ := if array then n + 1 else if n = 0 then 0 else n + 1

/-- The symbols when some objects have their names: each kind of them is counted. -/
structure Counted (done : List Named) (s : Symbols) : Prop where
  counts : ∀ object : Named, (s.symMap object.symbol).map Symbol.duplicateCount =
    if (done.map Named.kind).count object.kind = 0 then none
    else some ((done.map Named.kind).count object.kind)
  known : ∀ key sym, s.symMap key = some sym → sym.object ∈ done
  fresh : ∀ object ∉ done, s.signNum object = 0

theorem counted_empty : Counted [] .empty where
  counts _ := rfl
  known _ _ found := nomatch found
  fresh _ _ := rfl

/-- A new object gets the next number of its kind. -/
theorem counted_sign {done : List Named} (counted : Counted done s) (new : object ∉ done) :
    Counted (done ++ [object]) (sign object s) ∧ (sign object s).signNum object =
      signAt object.isArray ((done.map Named.kind).count object.kind) := by
  have zero := counted.fresh object new
  have own := counted.counts object
  have count (other : Named) : ((done ++ [object]).map Named.kind).count other.kind =
      (done.map Named.kind).count other.kind + if object.symbol = other.symbol then 1 else 0 := by
    rw [List.map_append, List.count_append, List.map_singleton, List.count_singleton]
    simp only [beq_iff_eq, symbol_eq_iff]
  rcases sign_cases s object with
    ⟨-, sym, found, numbered | ⟨-, same⟩⟩ | ⟨missing, added⟩ | ⟨sym, found, -, -, added⟩
  · exact absurd zero numbered
  · exact absurd (counted.known _ _ found) (same ▸ new)
  · rw [missing, Option.map_none] at own
    have first : (done.map Named.kind).count object.kind = 0 := by
      by_contra some_before
      rw [if_neg some_before] at own
      cases own
    rw [added, first]
    refine ⟨⟨fun other => ?_, fun key sym found => ?_, fun other absent => ?_⟩, ?_⟩
    · rw [count other]
      by_cases same : object.symbol = other.symbol
      · rw [if_pos same, ← symbol_eq_iff.mp same, first]
        simp [Symbols.add, same]
      · rw [if_neg same, Nat.add_zero, ← counted.counts other]
        exact congrArg _ (Function.update_of_ne (Ne.symm same) ..)
    · simp only [Symbols.add, Function.update_apply] at found
      split at found
      · cases found
        exact List.mem_append_right _ List.mem_cons_self
      · exact List.mem_append_left _ (counted.known key sym found)
    · obtain ⟨before, different⟩ := not_or.mp (mt List.mem_append.mpr absent)
      dsimp only
      split
      · rw [Function.update_of_ne fun same => different (List.mem_singleton.mpr same)]
        exact counted.fresh other before
      · exact counted.fresh other before
    · dsimp only [signAt]
      split
      · rw [Function.update_self]
      · rw [if_pos rfl]
        exact zero
  · rw [found, Option.map_some] at own
    have later : (done.map Named.kind).count object.kind ≠ 0 := by
      intro none_before
      rw [if_pos none_before] at own
      cases own
    rw [if_neg later] at own
    have amount := Option.some.inj own
    rw [added]
    refine ⟨⟨fun other => ?_, fun key sym' found' => ?_, fun other absent => ?_⟩, ?_⟩
    · rw [count other]
      by_cases same : object.symbol = other.symbol
      · rw [if_pos same, ← symbol_eq_iff.mp same, if_neg (Nat.succ_ne_zero _), ← amount]
        simp [Symbols.number, same]
      · rw [if_neg same, Nat.add_zero, ← counted.counts other]
        exact congrArg _ (Function.update_of_ne (Ne.symm same) ..)
    · simp only [Symbols.number, Function.update_apply] at found'
      split at found'
      · cases found'
        exact List.mem_append_left _ (counted.known _ sym found)
      · exact List.mem_append_left _ (counted.known key sym' found')
    · obtain ⟨before, different⟩ := not_or.mp (mt List.mem_append.mpr absent)
      refine (Function.update_of_ne ?_ ..).trans (counted.fresh other before)
      exact fun same => different (List.mem_singleton.mpr same)
    · refine (Function.update_self ..).trans ?_
      rw [amount, signAt, if_neg later, ite_self]

/-- The first walk numbers the objects by their occurrences. -/
theorem map_signs {done objects : List Named} (counted : Counted done s)
    (distinct : (done ++ objects).Nodup) :
    objects.map (fun object => (object.kind, (signs objects s).signNum object)) =
      (occurrencesBehind (done.map Named.kind) (objects.map Named.kind)).map
        fun counted => (counted.1, signAt counted.1.isArray counted.2) := by
  induction objects generalizing done s with
  | nil => rfl
  | cons object rest ih =>
    have new : object ∉ done := fun before =>
      (List.nodup_append.mp distinct).2.2 object before object List.mem_cons_self rfl
    obtain ⟨counted', number⟩ := counted_sign counted new
    have stays := (made_signs (made_sign_self s object) rest).2
    have later := ih counted' (by rwa [List.append_assoc, List.singleton_append])
    rw [List.map_append, List.map_singleton] at later
    rw [signs_cons, List.map_cons, List.map_cons, occurrencesBehind, List.map_cons, later, stays,
      number]
    rfl

end

/-! ### Positions on the walks -/

mutual

/-- A walk stays below the object that it starts from. -/
theorem exists_pos_visitsFrom (place : Place) (p : Pos) :
    ∀ object, ∀ visit ∈ visitsFrom place p object, ∃ r, visit.pos = r ++ p
  | .leaf _, visit, member => by
    rw [visitsFrom, List.mem_singleton] at member
    exact ⟨[], member ▸ rfl⟩
  | .node node children, visit, member => by
    rw [visitsFrom, List.mem_append, List.mem_singleton] at member
    rcases member with inside | rfl
    · obtain ⟨j, r, -, below⟩ :=
        exists_pos_visitsList (place.enter node) p 0 children visit inside
      exact ⟨r ++ [j], by rw [below, List.append_assoc]; rfl⟩
    · exact ⟨[], rfl⟩

theorem exists_pos_visitsList (place : Place) (p : Pos) (i : ℕ) :
    ∀ children, ∀ visit ∈ visitsList place p i children,
      ∃ j r, i ≤ j ∧ visit.pos = r ++ j :: p
  | [], visit, member => by
    rw [visitsList] at member
    exact absurd member List.not_mem_nil
  | child :: rest, visit, member => by
    rw [visitsList, List.mem_append] at member
    rcases member with here | later
    · obtain ⟨r, below⟩ := exists_pos_visitsFrom place (i :: p) child visit here
      exact ⟨i, r, Nat.le_refl i, below⟩
    · obtain ⟨j, r, behind, below⟩ := exists_pos_visitsList place p (i + 1) rest visit later
      exact ⟨j, r, Nat.le_of_succ_le behind, below⟩

end

mutual

/-- A walk comes to every position once. -/
theorem pairwise_visitsFrom (place : Place) (p : Pos) :
    ∀ object, (visitsFrom place p object).Pairwise fun a b => a.pos ≠ b.pos
  | .leaf _ => by
    rw [visitsFrom]
    exact List.pairwise_singleton ..
  | .node node children => by
    rw [visitsFrom, List.pairwise_append]
    refine ⟨pairwise_visitsList (place.enter node) p 0 children, List.pairwise_singleton ..,
      fun a inside b self same => ?_⟩
    obtain ⟨j, r, -, below⟩ := exists_pos_visitsList (place.enter node) p 0 children a inside
    cases List.mem_singleton.mp self
    have lengths : (r ++ j :: p).length = p.length := congrArg List.length (below.symm.trans same)
    rw [List.length_append, List.length_cons] at lengths
    omega

theorem pairwise_visitsList (place : Place) (p : Pos) (i : ℕ) :
    ∀ children, (visitsList place p i children).Pairwise fun a b => a.pos ≠ b.pos
  | [] => by
    rw [visitsList]
    exact .nil
  | child :: rest => by
    rw [visitsList, List.pairwise_append]
    refine ⟨pairwise_visitsFrom place (i :: p) child, pairwise_visitsList place p (i + 1) rest,
      fun a here b later same => ?_⟩
    obtain ⟨r, below⟩ := exists_pos_visitsFrom place (i :: p) child a here
    obtain ⟨j, r', behind, below'⟩ := exists_pos_visitsList place p (i + 1) rest b later
    have different : i ≠ j := by omega
    have through : r ++ i :: p = r' ++ j :: p := below.symm.trans (same.trans below')
    exact Tree.not_suffix_of_ne different ⟨r, through⟩

end

def Named.pos : Named → Pos
  | template pos _ => pos
  | array pos _ => pos

theorem pos_of_declared {visit : Visit} {object : Named} (declared : visit.declared = some object) :
    object.pos = visit.pos := by
  rw [Visit.declared] at declared
  split at declared
  · split at declared
    · split at declared
      · cases declared
        rfl
      · cases declared
    · cases declared
  · cases declared
  · split at declared
    · cases declared
      rfl
    · cases declared

/-- The first walk makes the name of an object once. -/
theorem nodup_outputTemplateVariablesDeclare (root : AstObject) :
    (outputTemplateVariablesDeclare root).Nodup := by
  refine List.Pairwise.filterMap _ ?_ (pairwise_visitsFrom ⟨false, false⟩ [] root)
  rintro a b different object declared _ declared' rfl
  exact different ((pos_of_declared declared).symm.trans (pos_of_declared declared'))

/-! ### Arrays and tables -/

/-- What is defined for an object in the second walk is a table with a name from the first. -/
theorem filter_implemented (root : AstObject) (visit : Visit) :
    ((visit.implemented root).filter Prod.fst).map Prod.snd =
      visit.declared.toList.filter fun object => !object.isArray := by
  have refers (objects : List Named) :
      (objects.map fun object => (false, object)).filter Prod.fst = [] := by
    simp [List.filter_map]
  rw [Visit.implemented, Visit.declared]
  cases visit.object with
  | leaf leaf =>
    cases leaf with
    | value value => rfl
    | term term =>
      dsimp only
      split
      · split <;> rfl
      · rfl
  | node node children =>
    dsimp only
    split
    · rw [List.filter_cons_of_pos rfl, List.filter_flatMap, List.map_cons]
      simp [refers, Named.isArray]
    · rfl

/-- Every declared object is defined once. -/
theorem perm_defined (root : AstObject) :
    (((genNames root).filter Prod.fst).map Prod.snd).Perm
      (outputTemplateVariablesDeclare root) := by
  have arrays : (((outputTemplateVariablesDeclare root).map
      fun object => (object.isArray, object)).filter Prod.fst).map Prod.snd =
      (outputTemplateVariablesDeclare root).filter Named.isArray := by
    rw [List.filter_map, List.map_map]
    exact List.map_id _
  have tables : (((visits root).flatMap (Visit.implemented root)).filter Prod.fst).map Prod.snd =
      (outputTemplateVariablesDeclare root).filter fun object => !object.isArray := by
    rw [List.filter_flatMap, List.map_flatMap, outputTemplateVariablesDeclare,
      List.filterMap_eq_flatMap_toList, List.filter_flatMap]
    exact List.flatMap_congr fun visit _ => filter_implemented root visit
  rw [genNames, List.filter_append, List.map_append, arrays, tables]
  exact List.filter_append_perm ..

/-! ### Distinct names -/

/-- The name that objects of a kind get with a number. -/
def Kind.name (prefix_ : Bytes) (kind : Kind) (signNum : ℕ) : Bytes :=
  if kind.isArray then ascii "g_hcsConfigArray" ++ kind.camelName ++ decimal signNum
  else if signNum ≠ 0 then ascii "g_" ++ prefix_ ++ kind.camelName ++ decimal signNum
  else ascii "g_" ++ prefix_ ++ kind.camelName

theorem nameOf_eq (prefix_ : Bytes) (object : Named) (signNum : ℕ) :
    nameOf prefix_ object signNum = object.kind.name prefix_ signNum := by
  cases object <;> rfl

theorem name_array (prefix_ x : Bytes) (n : ℕ) :
    Kind.name prefix_ ⟨true, x⟩ (signAt true n) =
      ascii "g_hcsConfigArray" ++ (x ++ arrayNumber n) := by
  rw [← List.append_assoc]
  rfl

theorem name_table (prefix_ x : Bytes) (n : ℕ) :
    Kind.name prefix_ ⟨false, x⟩ (signAt false n) =
      ascii "g_" ++ prefix_ ++ (x ++ tableNumber n) := by
  rw [← List.append_assoc]
  by_cases first : n = 0
  · subst first
    simp [Kind.name, signAt, tableNumber]
  · simp [Kind.name, signAt, tableNumber, first]

/-- The kinds are counted as the names of the arrays or of the tables. -/
theorem count_kinds (root : AstObject) (arrays : Bool) (x : Bytes) :
    ((outputTemplateVariablesDeclare root).map Named.kind).count ⟨arrays, x⟩ =
      (objectNames arrays root).count x := by
  rw [objectNames, List.count, List.count, List.countP_map, List.countP_map, List.countP_filter]
  refine List.countP_congr fun object _ => ?_
  simp [Named.kind, and_comm]

theorem made_of_mem {objects : List Named} {object : Named} (member : object ∈ objects)
    (s : Symbols) : Made (signs objects s) object := by
  induction objects generalizing s with
  | nil => exact absurd member List.not_mem_nil
  | cons other rest ih =>
    rcases List.mem_cons.mp member with rfl | later
    · exact (made_signs (made_sign_self s object) rest).1
    · exact ih later _

/-- The names are, in another order, those of the counted kinds. -/
theorem perm_variableNames (symbolPrefix : Bytes) (root : AstObject) :
    (variableNames symbolPrefix root).Perm
      ((occurrences ((outputTemplateVariablesDeclare root).map Named.kind)).map fun counted =>
        counted.1.name (prefixOf symbolPrefix) (signAt counted.1.isArray counted.2)) := by
  have calls : (genNames root).map Prod.snd = outputTemplateVariablesDeclare root ++
      ((visits root).flatMap (Visit.implemented root)).map Prod.snd := by
    rw [genNames, List.map_append, List.map_map]
    exact congrArg (· ++ _) (List.map_id _)
  have first := @map_signs _ [] _ counted_empty (nodup_outputTemplateVariablesDeclare root)
  have names := congrArg
    (List.map fun counted : Kind × ℕ => counted.1.name (prefixOf symbolPrefix) counted.2) first
  rw [List.map_map, List.map_map] at names
  rw [variableNames, definedNames_eq]
  refine ((perm_defined root).map _).trans (.of_eq (Eq.trans ?_ names))
  refine List.map_congr_left fun object member => ?_
  rw [calls, signs, List.foldl_append, ← signs, nameOf_eq]
  exact congrArg _ (made_signs (made_of_mem member _) _).2

/-- A table has the name of an array just if they agree behind the common start. -/
theorem name_table_eq_iff (prefix_ x y : Bytes) (i j : ℕ) :
    Kind.name prefix_ ⟨false, x⟩ (signAt false i) = Kind.name prefix_ ⟨true, y⟩ (signAt true j) ↔
      prefix_ ++ x ++ tableNumber i = ascii "hcsConfigArray" ++ y ++ arrayNumber j := by
  have start : ascii "g_hcsConfigArray" = ascii "g_" ++ ascii "hcsConfigArray" := rfl
  rw [name_table, name_array, start, List.append_assoc, List.append_assoc,
    List.append_cancel_left_eq, List.append_assoc, List.append_assoc]

/-- The names of the arrays and tables are distinct where no numbered name is another one. -/
theorem nodup_variableNames_iff (symbolPrefix : Bytes) (root : AstObject) :
    (variableNames symbolPrefix root).Nodup ↔ Clear (prefixOf symbolPrefix) root := by
  rw [(perm_variableNames symbolPrefix root).nodup_iff, nodup_map_occurrences_iff]
  constructor
  · intro distinct
    refine ⟨fun x y i j first second same => ?_, fun x y i j first second same => ?_,
      fun x y i j first second same => ?_⟩
    · have kinds := (distinct ⟨true, x⟩ ⟨true, y⟩ i j (count_kinds .. ▸ first)
        (count_kinds .. ▸ second) (by rw [name_array, name_array, same])).1
      exact (Kind.mk.inj kinds).2
    · have kinds := (distinct ⟨false, x⟩ ⟨false, y⟩ i j (count_kinds .. ▸ first)
        (count_kinds .. ▸ second) (by rw [name_table, name_table, same])).1
      exact (Kind.mk.inj kinds).2
    · have kinds := (distinct ⟨false, x⟩ ⟨true, y⟩ i j (count_kinds .. ▸ first)
        (count_kinds .. ▸ second) ((name_table_eq_iff ..).mpr same)).1
      exact absurd (Kind.mk.inj kinds).1 Bool.false_ne_true
  · rintro clear ⟨arrays, x⟩ ⟨arrays', y⟩ i j first second same
    rw [count_kinds] at first second
    -- arrays or tables of one name have different numbers
    cases arrays <;> cases arrays'
    · rw [name_table, name_table, List.append_cancel_left_eq] at same
      obtain rfl := clear.tables x y i j first second same
      exact ⟨rfl, tableNumber_injective (List.append_cancel_left same)⟩
    · exact absurd ((name_table_eq_iff ..).mp same) (clear.apart x y i j first second)
    · exact absurd ((name_table_eq_iff ..).mp same.symm) (clear.apart y x j i second first)
    · rw [name_array, name_array, List.append_cancel_left_eq] at same
      obtain rfl := clear.arrays x y i j first second same
      exact ⟨rfl, arrayNumber_injective (List.append_cancel_left same)⟩

end Hdf.HcGen.TextGen
