import Hdf.HdiGen.Strings
import Mathlib.Data.List.Nodup
import Mathlib.Data.List.Perm.Basic

/-!
# Where packages lie

The options `-r root:path` tell where the packages under a root lie. Three functions
look for the root of a package, one of them for the first option whose root is a prefix
and one for the last, and the path comes of replacing the root by its path wherever it
occurs in the package name and then every dot by a separator. The options are kept in a
hash map, so no order of them can be relied on.

## Main results

* `getPackagePath_iff`: the path that comes of one option
* `mapsPackage_of_plain`, `plain_of_mapsPackage`: when packages are mapped as they should be
-/

namespace Hdf.HdiGen

open Substrings

namespace Str

/-- `StartsWith`. -/
def startsWith (s other : Str) : Bool :=
  if other.isNull || s.isNull then false
  else if other.isEmpty && s.isEmpty then true
  else if s.getLength < other.getLength then false
  else s.bytes.take other.getLength == other.bytes

/-- `EndsWith` for a character. -/
def endsWithChar (s : Str) (c : UInt8) : Bool :=
  if s.isNull || s.getLength < 1 then false else s.bytes[s.getLength - 1]? == some c

theorem startsWith_iff {s other : Str} (present : s.isNull = false)
    (otherPresent : other.isNull = false) :
    s.startsWith other = true ↔ other.bytes <+: s.bytes := by
  have none : ¬ (other.isNull || s.isNull) = true := by simp [present, otherPresent]
  rw [startsWith, if_neg none]
  split
  · rename_i empty
    have nothing := isEmpty_iff.mp (Bool.and_eq_true_iff.mp empty).1
    exact iff_of_true rfl (nothing ▸ List.nil_prefix)
  · split
    · rename_i short
      exact iff_of_false nofun fun isPrefix => absurd isPrefix.length_le (Nat.not_le.mpr short)
    · rw [beq_iff_eq, List.prefix_iff_eq_take, eq_comm]
      rfl

theorem bytes_replaceChar (s : Str) (oldChar newChar : UInt8) (valid : newChar ≠ 0) :
    (s.replaceChar oldChar newChar valid).bytes =
      s.bytes.map fun c => if c = oldChar then newChar else c := by
  change (s.string.map _).getD [] = (s.string.getD []).map _
  cases s.string <;> rfl

end Str

/-- `File::pathSeparator`. -/
def pathSeparator : UInt8 := 47

def dot : UInt8 := 46

/-- An option `-r root:path`. -/
structure PackageOption where
  root : Str
  path : Str
  rootPresent : root.isNull = false
  pathPresent : path.isNull = false

/-- `String("")`. -/
def emptyString : Str := ⟨some [], by simp, by simp⟩

def getRootPackage (packagePaths : List PackageOption) (package : Str) : Str :=
  match packagePaths.find? fun packageRoot => package.startsWith packageRoot.root with
  | some packageRoot => packageRoot.root
  | none => emptyString

def getSubPackage (packagePaths : List PackageOption) (package : Str) : Str :=
  let rootPackage := getRootPackage packagePaths package
  if rootPackage.isEmpty then package else package.substringFrom (rootPackage.getLength + 1)

/-- `Replace('.', File::pathSeparator)`. -/
def slashed (s : Str) : Str := s.replaceChar dot pathSeparator (by decide)

/-- A path without the separator at its end. -/
def withoutSeparator (rootPath : Str) : Str :=
  if rootPath.endsWithChar pathSeparator then rootPath.substring 0 (rootPath.getLength - 1)
  else rootPath

/-- The loop of `GetPackagePath`: the root and the path of the last option that matches. -/
def lastMatch (package : Str) : List PackageOption → Str × Str → Str × Str
  | [], found => found
  | packageRoot :: rest, found =>
    lastMatch package rest
      (if package.startsWith packageRoot.root then (packageRoot.root, packageRoot.path) else found)

/-- `GetPackagePath`. It is not defined when the string builder is overrun. -/
def getPackagePath (packagePaths : List PackageOption) (package : Str) : Option Str :=
  let found := lastMatch package packagePaths (emptyString, emptyString)
  if found.1.isEmpty then some (slashed package)
  else (package.replace found.1 (withoutSeparator found.2)).map slashed

/-! ### What is to come of a package name -/

/-- Dots turned into separators. -/
def slashes (bytes : List UInt8) : List UInt8 :=
  bytes.map fun c => if c = dot then pathSeparator else c

/-- A path without the separator at its end. -/
def PackageOption.directory (option : PackageOption) : List UInt8 :=
  if option.path.bytes.getLast? = some pathSeparator then option.path.bytes.dropLast
  else option.path.bytes

/-- The options: distinct roots, none of them a dotted prefix of another one. -/
structure Options where
  packagePaths : List PackageOption
  distinct : (packagePaths.map (·.root.bytes)).Nodup
  separate : ∀ a ∈ packagePaths, ∀ b ∈ packagePaths,
    ¬ a.root.bytes ++ [dot] <+: b.root.bytes

/-- The package is the root of an option, a dot and a rest. -/
def Under (package : List UInt8) (option : PackageOption) (sub : List UInt8) : Prop :=
  package = option.root.bytes ++ dot :: sub

/-- In whichever order the options are kept, a package under a root has that root, the rest
as its sub-package and the path of the root followed by that of the rest; any other
package has the path of its own name. -/
structure MapsPackage (options : Options) (package : Target) : Prop where
  under : ∀ order, order.Perm options.packagePaths →
    ∀ option ∈ options.packagePaths, ∀ sub, Under package.bytes option sub →
      (getRootPackage order package.toStr).bytes = option.root.bytes ∧
      (getSubPackage order package.toStr).bytes = sub ∧
      ∃ path, getPackagePath order package.toStr = some path ∧
        path.bytes = option.directory ++ pathSeparator :: slashes sub
  other : (∀ option ∈ options.packagePaths, ∀ sub, ¬ Under package.bytes option sub) →
    ∀ order, order.Perm options.packagePaths →
      ∃ path, getPackagePath order package.toStr = some path ∧ path.bytes = slashes package.bytes

/-- The string builder takes the parts of a package name with the root replaced. -/
def PackageOption.Fits (option : PackageOption) (package : List UInt8) : Prop :=
  HdiGen.Fits 0 0 ((parts option.root.bytes option.directory package).map List.length)

/-- What the functions need: the root of the package is the only one that is a prefix, its
path has no dot, and the root does not occur again; another package begins with a root only
if its path is that of the root. -/
structure Plain (options : Options) (package : Target) : Prop where
  under : ∀ option ∈ options.packagePaths, ∀ sub, Under package.bytes option sub →
    option.root.bytes ≠ [] ∧
    (∀ another ∈ options.packagePaths, another.root.bytes <+: package.bytes →
      another.root.bytes = option.root.bytes) ∧
    dot ∉ option.directory ∧
    ((∀ i, ¬ OccursAt option.root.bytes (dot :: sub) i) ∨
      slashes option.directory = slashes option.root.bytes) ∧
    option.Fits package.bytes
  other : (∀ option ∈ options.packagePaths, ∀ sub, ¬ Under package.bytes option sub) →
    ∀ option ∈ options.packagePaths, option.root.bytes <+: package.bytes →
      option.root.bytes = [] ∨
        slashes option.directory = slashes option.root.bytes ∧ option.Fits package.bytes

/-! ### The path of one option -/

theorem bytes_slashed (s : Str) : (slashed s).bytes = slashes s.bytes :=
  s.bytes_replaceChar dot pathSeparator (by decide)

theorem Target.isNull (package : Target) : package.isNull = false := by
  cases none : package.string with
  | none => exact absurd (by rw [Str.bytes, none]; rfl) package.nonempty
  | some text => simp [Str.isNull, none]

theorem Target.startsWith_iff (package : Target) (option : PackageOption) :
    package.startsWith option.root = true ↔ option.root.bytes <+: package.bytes :=
  Str.startsWith_iff package.isNull option.rootPresent

theorem bytes_withoutSeparator (option : PackageOption) :
    (withoutSeparator option.path).bytes = option.directory := by
  have ends : option.path.endsWithChar pathSeparator = true ↔
      option.path.bytes.getLast? = some pathSeparator := by
    rw [Str.endsWithChar, List.getLast?_eq_getElem?]
    by_cases empty : option.path.getLength < 1
    · have none : option.path.bytes = [] :=
        Str.getLength_eq_zero_iff.mp (Nat.lt_one_iff.mp empty)
      simp [empty, none]
    · rw [if_neg (by simp [option.pathPresent, empty]), beq_iff_eq]
      rfl
  rw [withoutSeparator, PackageOption.directory]
  by_cases ending : option.path.bytes.getLast? = some pathSeparator
  · rw [if_pos (ends.mpr ending), if_pos ending,
      Str.bytes_substring (Nat.zero_le _) (Nat.sub_le _ _), List.drop_zero,
      List.dropLast_eq_take]
    rfl
  · rw [if_neg (mt ends.mp ending), if_neg ending]

theorem isNull_withoutSeparator (option : PackageOption) :
    (withoutSeparator option.path).isNull = false := by
  rw [withoutSeparator]
  split
  · rw [Str.substring, if_neg (by omega)]
    change (option.path.string.map _).isNone = false
    rw [Option.isNone_map]
    exact option.pathPresent
  · exact option.pathPresent

section

variable {option : PackageOption} {package : Target}

/-- The path that `GetPackagePath` makes of an option that matches. -/
def pathOf (option : PackageOption) (package : Target) : Option Str :=
  (package.replace option.root (withoutSeparator option.path)).map slashed

theorem pathOf_eq (nonempty : option.root.bytes ≠ []) (fits : option.Fits package.bytes) :
    ∃ path, pathOf option package = some path ∧
      path.bytes = slashes (replaceAll option.root.bytes option.directory package.bytes) := by
  rw [PackageOption.Fits, ← bytes_withoutSeparator] at fits
  obtain ⟨result, replaced, same⟩ :=
    (Str.replace_iff nonempty).mpr (.inr ⟨isNull_withoutSeparator option, fits⟩)
  refine ⟨slashed result, by rw [pathOf, replaced, Option.map_some], ?_⟩
  rw [bytes_slashed, same, bytes_withoutSeparator]

theorem pathOf_iff (nonempty : option.root.bytes ≠ []) (fits : option.Fits package.bytes)
    (expected : List UInt8) :
    (∃ path, pathOf option package = some path ∧ path.bytes = expected) ↔
      slashes (replaceAll option.root.bytes option.directory package.bytes) = expected := by
  obtain ⟨path, made, same⟩ := @pathOf_eq option package nonempty fits
  rw [made, ← same]
  simp

theorem slashes_eq_self_iff {bytes : List UInt8} : slashes bytes = bytes ↔ dot ∉ bytes := by
  have each : slashes bytes = bytes ↔
      ∀ c ∈ bytes, (if c = dot then pathSeparator else c) = c := by
    conv_lhs => rw [slashes, ← List.map_id bytes, List.map_map]
    exact List.map_inj_left
  rw [each]
  constructor
  · intro same there
    exact absurd (same dot there) (by decide)
  · intro none c there
    refine if_neg fun isDot => none ?_
    rwa [isDot] at there

/-- Under a root, the path is right if it has no dot and nothing else is replaced. -/
theorem slashes_replaceAll_under {sub : List UInt8} (nonempty : option.root.bytes ≠ [])
    (under : Under package.bytes option sub) :
    slashes (replaceAll option.root.bytes option.directory package.bytes) =
        option.directory ++ pathSeparator :: slashes sub ↔
      dot ∉ option.directory ∧ ((∀ i, ¬ OccursAt option.root.bytes (dot :: sub) i) ∨
        slashes option.directory = slashes option.root.bytes) := by
  have rest : pathSeparator :: slashes sub = slashes (dot :: sub) := rfl
  rw [Under] at under
  rw [under, replaceAll_append nonempty, rest, ← slashes_eq_self_iff]
  unfold slashes
  rw [List.map_append, ← map_replaceAll_eq_iff nonempty]
  constructor
  · intro same
    exact List.append_inj same (List.length_map _)
  · rintro ⟨front, behind⟩
    rw [front, behind]

theorem slashes_replaceAll_other (nonempty : option.root.bytes ≠ [])
    (isPrefix : option.root.bytes <+: package.bytes) :
    slashes (replaceAll option.root.bytes option.directory package.bytes) =
      slashes package.bytes ↔ slashes option.directory = slashes option.root.bytes := by
  unfold slashes
  rw [map_replaceAll_eq_iff nonempty, or_iff_right]
  exact fun never => never 0 isPrefix

end

/-! ### The searches for an option -/

theorem getRootPackage_eq (order : List PackageOption) (package : Target) :
    (∃ option ∈ order, option.root.bytes <+: package.bytes ∧
      getRootPackage order package.toStr = option.root) ∨
    (∀ option ∈ order, ¬ option.root.bytes <+: package.bytes) := by
  cases found : order.find? fun packageRoot => package.startsWith packageRoot.root with
  | some option =>
    left
    have matching := List.find?_some found
    refine ⟨option, List.mem_of_find?_eq_some found,
      (package.startsWith_iff option).mp matching, ?_⟩
    rw [getRootPackage, found]
  | none =>
    right
    intro option listed isPrefix
    exact List.find?_eq_none.mp found option listed ((package.startsWith_iff option).mpr isPrefix)

theorem lastMatch_eq (order : List PackageOption) (package : Target) (found : Str × Str) :
    (∃ option ∈ order, option.root.bytes <+: package.bytes ∧
      lastMatch package.toStr order found = (option.root, option.path)) ∨
    (∀ option ∈ order, ¬ option.root.bytes <+: package.bytes) ∧
      lastMatch package.toStr order found = found := by
  induction order generalizing found with
  | nil => exact .inr ⟨nofun, rfl⟩
  | cons option rest ih =>
    rw [lastMatch]
    rcases ih (if package.startsWith option.root then (option.root, option.path) else found) with
      ⟨later, listed, isPrefix, same⟩ | ⟨never, same⟩
    · exact .inl ⟨later, List.mem_cons_of_mem _ listed, isPrefix, same⟩
    · rw [same]
      by_cases here : package.startsWith option.root = true
      · rw [if_pos here]
        exact .inl ⟨option, List.mem_cons_self, (package.startsWith_iff option).mp here, rfl⟩
      · rw [if_neg here]
        refine .inr ⟨fun other listed => ?_, rfl⟩
        rcases List.mem_cons.mp listed with rfl | later
        · exact mt (package.startsWith_iff other).mpr here
        · exact never other later

theorem getPackagePath_of_lastMatch {order : List PackageOption} {package : Target}
    {option : PackageOption} (nonempty : option.root.bytes ≠ [])
    (last : lastMatch package.toStr order (emptyString, emptyString) =
      (option.root, option.path)) :
    getPackagePath order package.toStr = pathOf option package := by
  rw [getPackagePath, last]
  exact if_neg fun empty => nonempty (Str.isEmpty_iff.mp empty)

theorem getPackagePath_of_empty {order : List PackageOption} {package : Target}
    (none : (lastMatch package.toStr order (emptyString, emptyString)).1.bytes = []) :
    getPackagePath order package.toStr = some (slashed package.toStr) := by
  rw [getPackagePath]
  exact if_pos (Str.isEmpty_iff.mpr none)

/-! ### When packages are mapped -/

theorem mapsPackage_of_plain {options : Options} {package : Target}
    (plain : Plain options package) : MapsPackage options package := by
  constructor
  · intro order same option listed sub under
    obtain ⟨nonempty, only, noDot, replaced, fits⟩ := plain.under option listed sub under
    have isPrefix : option.root.bytes <+: package.bytes := ⟨dot :: sub, under.symm⟩
    have unique : ∀ another ∈ order, another.root.bytes <+: package.bytes →
        another = option := by
      intro another other matching
      have there := same.mem_iff.mp other
      exact List.inj_on_of_nodup_map options.distinct there listed (only another there matching)
    have root : getRootPackage order package.toStr = option.root := by
      rcases getRootPackage_eq order package with ⟨another, other, matching, found⟩ | never
      · rw [found, unique another other matching]
      · exact absurd isPrefix (never option (same.mem_iff.mpr listed))
    have last : lastMatch package.toStr order (emptyString, emptyString) =
        (option.root, option.path) := by
      rcases lastMatch_eq order package (emptyString, emptyString) with
        ⟨another, other, matching, found⟩ | ⟨never, -⟩
      · rw [found, unique another other matching]
      · exact absurd isPrefix (never option (same.mem_iff.mpr listed))
    refine ⟨congrArg Str.bytes root, ?_, ?_⟩
    · rw [getSubPackage, root, if_neg fun empty => nonempty (Str.isEmpty_iff.mp empty),
        Str.bytes_substringFrom, under, Str.getLength, ← List.drop_drop, List.drop_left]
      rfl
    · rw [getPackagePath_of_lastMatch nonempty last, pathOf_iff nonempty fits,
        slashes_replaceAll_under nonempty under]
      exact ⟨noDot, replaced⟩
  · intro nowhere order same
    have ownName : (lastMatch package.toStr order (emptyString, emptyString)).1.bytes = [] →
        ∃ path, getPackagePath order package.toStr = some path ∧
          path.bytes = slashes package.bytes :=
      fun none => ⟨_, getPackagePath_of_empty none, bytes_slashed _⟩
    rcases lastMatch_eq order package (emptyString, emptyString) with
      ⟨option, listed, matching, found⟩ | ⟨-, found⟩
    · by_cases empty : option.root.bytes = []
      · exact ownName (by rw [found]; exact empty)
      · obtain ⟨equal, fits⟩ :=
          (plain.other nowhere option (same.mem_iff.mp listed) matching).resolve_left empty
        rw [getPackagePath_of_lastMatch empty found, pathOf_iff empty fits,
          slashes_replaceAll_other empty matching]
        exact equal
    · exact ownName (by rw [found]; rfl)

/-- No root that is a prefix of the package makes it too long for a string. -/
def Short (options : Options) (package : Target) : Prop :=
  ∀ option ∈ options.packagePaths, option.root.bytes ≠ [] →
    option.root.bytes <+: package.bytes →
      (replaceAll option.root.bytes option.directory package.bytes).length < maxSize

theorem Short.fits {options : Options} {package : Target} (short : Short options package)
    {option : PackageOption} (listed : option ∈ options.packagePaths)
    (nonempty : option.root.bytes ≠ []) (isPrefix : option.root.bytes <+: package.bytes) :
    option.Fits package.bytes := by
  refine fits_of_lt le_rfl (Nat.zero_le _) ?_
  rw [Nat.zero_add, ← List.length_flatten, flatten_parts nonempty]
  exact short option listed nonempty isPrefix

/-- The searches in the orders in which one option comes first and last. -/
theorem getRootPackage_first {order : List PackageOption} {package : Target}
    {option : PackageOption} (isPrefix : option.root.bytes <+: package.bytes) :
    getRootPackage (option :: order) package.toStr = option.root := by
  have here := (package.startsWith_iff option).mpr isPrefix
  simp only [getRootPackage, List.find?_cons, here]

theorem lastMatch_last {order : List PackageOption} {package : Target} {option : PackageOption}
    (isPrefix : option.root.bytes <+: package.bytes) (found : Str × Str) :
    lastMatch package.toStr (order ++ [option]) found = (option.root, option.path) := by
  induction order generalizing found with
  | nil =>
    rw [List.nil_append, lastMatch, lastMatch,
      if_pos ((package.startsWith_iff option).mpr isPrefix)]
  | cons another rest ih => exact ih _

theorem plain_of_mapsPackage {options : Options} {package : Target}
    (short : Short options package) (maps : MapsPackage options package) :
    Plain options package := by
  have lastOrder : ∀ option ∈ options.packagePaths, option.root.bytes <+: package.bytes →
      ∃ order, order.Perm options.packagePaths ∧
        lastMatch package.toStr order (emptyString, emptyString) =
          (option.root, option.path) := by
    intro option listed isPrefix
    obtain ⟨before, after, split⟩ := List.append_of_mem listed
    refine ⟨before ++ after ++ [option], ?_, lastMatch_last isPrefix _⟩
    rw [split]
    have swapped : (before ++ after ++ [option]).Perm (option :: (before ++ after)) :=
      List.perm_append_comm
    exact swapped.trans List.perm_middle.symm
  constructor
  · intro option listed sub under
    have isPrefix : option.root.bytes <+: package.bytes := ⟨dot :: sub, under.symm⟩
    have nonempty : option.root.bytes ≠ [] := by
      intro empty
      obtain ⟨root, rest, -⟩ := maps.under _ (List.Perm.refl _) option listed sub under
      rw [getSubPackage, if_pos (Str.isEmpty_iff.mpr (root.trans empty)), under, empty] at rest
      exact absurd (congrArg List.length rest) (Nat.succ_ne_self _)
    obtain ⟨order, same, last⟩ := lastOrder option listed isPrefix
    obtain ⟨-, -, path⟩ := maps.under order same option listed sub under
    rw [getPackagePath_of_lastMatch nonempty last,
      pathOf_iff nonempty (short.fits listed nonempty isPrefix),
      slashes_replaceAll_under nonempty under] at path
    refine ⟨nonempty, fun another other matching => ?_, path.1, path.2,
      short.fits listed nonempty isPrefix⟩
    obtain ⟨before, after, split⟩ := List.append_of_mem other
    have first : (another :: (before ++ after)).Perm options.packagePaths := by
      rw [split]
      exact List.perm_middle.symm
    have root := (maps.under _ first option listed sub under).1
    rwa [getRootPackage_first matching] at root
  · intro nowhere option listed isPrefix
    by_cases nonempty : option.root.bytes = []
    · exact .inl nonempty
    · right
      obtain ⟨order, same, last⟩ := lastOrder option listed isPrefix
      have path := maps.other nowhere order same
      rw [getPackagePath_of_lastMatch nonempty last,
        pathOf_iff nonempty (short.fits listed nonempty isPrefix),
        slashes_replaceAll_other nonempty isPrefix] at path
      exact ⟨path, short.fits listed nonempty isPrefix⟩

/-- The path of `a.b` under `-r a:x.y` is not `x.y/b`. -/
theorem turns_dots_of_path :
    ¬ ∀ (options : Options) (package : Target), MapsPackage options package := by
  intro all
  let option : PackageOption := ⟨⟨some [97], by simp, by simp [maxSize]⟩,
    ⟨some [120, 46, 121], by simp, by simp [maxSize]⟩, rfl, rfl⟩
  let options : Options := ⟨[option], by simp, by simp [option, Str.bytes]⟩
  let package : Target := ⟨⟨some [97, 46, 98], by simp, by simp [maxSize]⟩, by simp [Str.bytes]⟩
  have short : Short options package := by
    intro other listed nonempty isPrefix
    obtain rfl : other = option := List.mem_singleton.mp listed
    have same : replaceAll [(97 : UInt8)] [120, 46, 121] ([97] ++ [46, 98]) =
        [120, 46, 121, 46, 98] := by
      rw [replaceAll_append (List.cons_ne_nil 97 []), replaceAll_of_find_none (by decide)]
      rfl
    have directory : option.directory = [120, 46, 121] := by decide
    rw [directory]
    exact (congrArg List.length same).trans_lt (show 5 < maxSize by decide)
  have plain := (plain_of_mapsPackage short (all options package)).under option
    (List.mem_singleton.mpr rfl) [98] rfl
  exact plain.2.2.1 (by decide)

/-- Package names that meet the condition are mapped as they should be, and no others are,
up to those whose replaced name is too long for a string. -/
theorem mapsPackage_iff (options : Options) (package : Target) :
    (Plain options package → MapsPackage options package) ∧
      (Short options package → MapsPackage options package → Plain options package) :=
  ⟨mapsPackage_of_plain, plain_of_mapsPackage⟩

end Hdf.HdiGen
