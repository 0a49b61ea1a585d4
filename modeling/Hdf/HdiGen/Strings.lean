import Hdf.Lib.Substrings
import Mathlib.Algebra.BigOperators.Group.List.Basic
import Mathlib.Algebra.Order.Ring.Nat
import Mathlib.Data.Int.Order.Basic

/-!
# The strings of hdi-gen

A `String` is a null pointer or a text that ends with a zero and has at most
`MAX_SIZE` characters. A `StringBuilder` collects a text in a buffer that grows up
to that size. Memory is taken to be there when it is asked for.

## Main results

* `appendAll_eq_some_iff`: a builder collects what fits, and drops something otherwise
* `fits_of_lt`: what is shorter than a string can be fits
-/

namespace Hdf.HdiGen

open Substrings

/-- `String::MAX_SIZE`. -/
def maxSize : ℕ := 262144

/-- `String`: no text behind a null pointer. -/
@[ext]
structure Str where
  string : Option (List UInt8)
  noNul : ∀ bytes ∈ string, 0 ∉ bytes
  length_le : ∀ bytes ∈ string, bytes.length ≤ maxSize

namespace Str

def bytes (s : Str) : List UInt8 := s.string.getD []

def null : Str := ⟨none, nofun, nofun⟩

def isNull (s : Str) : Bool := s.string.isNone

def isEmpty (s : Str) : Bool := s.bytes.isEmpty

def getLength (s : Str) : ℕ := s.bytes.length

theorem isEmpty_iff {s : Str} : s.isEmpty = true ↔ s.bytes = [] := List.isEmpty_iff

theorem getLength_eq_zero_iff {s : Str} : s.getLength = 0 ↔ s.bytes = [] :=
  List.length_eq_zero_iff

theorem zero_notMem_bytes (s : Str) : 0 ∉ s.bytes := by
  rcases h : s.string with _ | text
  · simp [bytes, h]
  · simpa [bytes, h] using s.noNul text h

/-! ### Searches -/

/-- The loop of `IndexOf` for a character: the rest of the text, and its index. -/
def scanUp (c : UInt8) : List UInt8 → ℕ → Option ℕ
  | [], _ => none
  | b :: rest, p => if b = c then some p else scanUp c rest (p + 1)

/-- `IndexOf` for a character. There is no index for -1. -/
def indexOfChar (s : Str) (c : UInt8) (fromIndex : ℤ) : Option ℕ :=
  if s.isEmpty ∨ c = 0 then none
  else if (s.getLength : ℤ) ≤ fromIndex then none
  else scanUp c (s.bytes.drop fromIndex.toNat) fromIndex.toNat

/-- `IndexOf` for a text. -/
def indexOf (s other : Str) (fromIndex : ℤ) : Option ℕ :=
  if s.isEmpty ∨ other.isEmpty then none
  else if (s.getLength : ℤ) ≤ fromIndex then none
  else findFrom other.bytes s.bytes fromIndex.toNat

/-- Where a backward search starts: at the end of the text when no index is given. -/
def lastIndex (s : Str) (fromIndex : ℤ) : ℤ :=
  if fromIndex = 0 ∨ (s.getLength : ℤ) ≤ fromIndex then s.getLength - 1 else fromIndex

/-- The loop of `LastIndexOf` for a character. It does not look at the first one. -/
def scanDown (bytes : List UInt8) (c : UInt8) : ℕ → Option ℕ
  | 0 => none
  | p + 1 => if bytes[p + 1]? = some c then some (p + 1) else scanDown bytes c p

/-- `LastIndexOf` for a character. -/
def lastIndexOfChar (s : Str) (c : UInt8) (fromIndex : ℤ) : Option ℕ :=
  if s.isEmpty ∨ c = 0 then none
  else if fromIndex < 0 then none
  else scanDown s.bytes c (s.lastIndex fromIndex).toNat

/-- The character at an index. -/
def charAt (bytes : List UInt8) (index : ℤ) : UInt8 := bytes.getD index.toNat 0

/-- The comparison in `LastIndexOfInternal`: where `compareIndex` stops, with `left`
characters still to compare. -/
def compareDown (bytes target : List UInt8) (start : ℤ) : ℕ → ℤ
  | 0 => start
  | left + 1 =>
    if charAt bytes (start + (left + 1)) ≠ charAt target left then start + left
    else compareDown bytes target start left

/-- The loop of `LastIndexOfInternal`. -/
def searchDown (bytes target : List UInt8) (index : ℤ) : Option ℕ :=
  if index < target.length - 1 then none
  else if charAt bytes index ≠ charAt target (target.length - 1) then
    searchDown bytes target (index - 1)
  else
    let start := index - target.length
    if compareDown bytes target start (target.length - 1) = start then some (start + 1).toNat
    else searchDown bytes target (index - 1)
termination_by (index + 2 - target.length).toNat

/-- `LastIndexOfInternal`. -/
def lastIndexOfInternal (s target : Str) (fromIndex : ℤ) : Option ℕ :=
  let rightIndex : ℤ := s.getLength - target.getLength
  searchDown s.bytes target.bytes (target.getLength - 1 + min fromIndex rightIndex)

/-- `LastIndexOf` for a text. -/
def lastIndexOf (s other : Str) (fromIndex : ℤ) : Option ℕ :=
  if s.isEmpty ∨ other.isEmpty then none
  else if fromIndex < 0 then none
  else s.lastIndexOfInternal other (s.lastIndex fromIndex)

/-! ### Parts of strings -/

/-- `Substring`, without an end and with one. -/
def substringFrom (s : Str) (start : ℕ) : Str :=
  if s.getLength ≤ start then null
  else ⟨s.string.map (·.drop start), by
    rintro bytes isPart zero
    obtain ⟨text, here, rfl⟩ := Option.map_eq_some_iff.mp isPart
    exact s.noNul text here (List.mem_of_mem_drop zero), by
    rintro bytes isPart
    obtain ⟨text, here, rfl⟩ := Option.map_eq_some_iff.mp isPart
    rw [List.length_drop]
    exact (Nat.sub_le _ _).trans (s.length_le text here)⟩

def substring (s : Str) (start stop : ℕ) : Str :=
  if s.getLength < stop ∨ stop < start then null
  else ⟨s.string.map fun text => (text.take stop).drop start, by
    rintro bytes isPart zero
    obtain ⟨text, here, rfl⟩ := Option.map_eq_some_iff.mp isPart
    exact s.noNul text here (List.mem_of_mem_take (List.mem_of_mem_drop zero)), by
    rintro bytes isPart
    obtain ⟨text, here, rfl⟩ := Option.map_eq_some_iff.mp isPart
    rw [List.length_drop, List.length_take]
    exact (Nat.sub_le _ _).trans ((Nat.min_le_right _ _).trans (s.length_le text here))⟩

theorem bytes_substringFrom (s : Str) (start : ℕ) :
    (s.substringFrom start).bytes = s.bytes.drop start := by
  rw [substringFrom]
  split
  · rename_i past
    rw [List.drop_eq_nil_of_le past]
    rfl
  · change (s.string.map (·.drop start)).getD [] = (s.string.getD []).drop start
    cases s.string <;> simp

theorem bytes_substring {s : Str} {start stop : ℕ} (inside : start ≤ stop)
    (within : stop ≤ s.getLength) :
    (s.substring start stop).bytes = (s.bytes.take stop).drop start := by
  rw [substring, if_neg (by omega)]
  change (s.string.map fun text => (text.take stop).drop start).getD [] =
    ((s.string.getD []).take stop).drop start
  cases s.string <;> simp

end Str

/-- A text that is not empty. -/
structure Target extends Str where
  nonempty : toStr.bytes ≠ []

/-! ### String builders -/

/-- `StringBuilder`: the characters before `position_`, and the size of the buffer. -/
structure StringBuilder where
  buffer : List UInt8
  capacity : ℕ
  noNul : 0 ∉ buffer
  length_le : buffer.length ≤ capacity
  capacity_le : capacity ≤ maxSize

/-- The default capacity of a buffer, or twice its capacity. -/
def doubled (capacity : ℕ) : ℕ := if capacity = 0 then 256 else capacity * 2

/-- `StringBuilder::Grow`: the size of the new buffer, none when there is no larger one. -/
def grow (capacity size : ℕ) : Option ℕ :=
  let newSize := min maxSize (max (doubled capacity) (capacity + size))
  if maxSize < capacity ∨ newSize ≤ capacity then none else some newSize

/-- The size of the buffer that is to take `size` characters at a position, if it has room
or can grow. -/
def room (position capacity size : ℕ) : Option ℕ :=
  if position + size < capacity then some capacity else grow capacity size

theorem room_le {position capacity size newSize : ℕ} (enough : capacity ≤ maxSize)
    (grown : room position capacity size = some newSize) : newSize ≤ maxSize := by
  rw [room] at grown
  split at grown
  · cases grown
    exact enough
  · rw [grow] at grown
    split at grown
    · cases grown
    · cases grown
      exact Nat.min_le_left _ _

namespace StringBuilder

def empty : StringBuilder := ⟨[], 0, List.not_mem_nil, le_rfl, Nat.zero_le _⟩

/-- `Append`. What the buffer cannot grow for is left out. Nothing is defined once the
buffer has grown and is still too small: the position is then behind its end. -/
def append (sb : StringBuilder) (string : Str) : Option StringBuilder :=
  if string.isEmpty then some sb
  else
    match grown : room sb.buffer.length sb.capacity string.getLength with
    | none => some sb
    | some capacity =>
      if inside : sb.buffer.length + string.getLength ≤ capacity then
        some ⟨sb.buffer ++ string.bytes, capacity,
          fun zero => (List.mem_append.mp zero).elim sb.noNul string.zero_notMem_bytes,
          List.length_append ▸ inside, room_le sb.capacity_le grown⟩
      else none

/-- `Append` for several strings in turn. -/
def appendAll (sb : StringBuilder) : List Str → Option StringBuilder
  | [] => some sb
  | string :: rest => (sb.append string).bind (·.appendAll rest)

/-- `ToString`. -/
def toString (sb : StringBuilder) : Str :=
  if sb.capacity = 0 then .null
  else ⟨some sb.buffer, by rintro _ ⟨⟩; exact sb.noNul, by
    rintro _ ⟨⟩
    exact sb.length_le.trans sb.capacity_le⟩

theorem bytes_toString (sb : StringBuilder) : sb.toString.bytes = sb.buffer := by
  rw [toString]
  split
  · rename_i none
    have short := sb.length_le
    rw [none, Nat.le_zero, List.length_eq_zero_iff] at short
    rw [short]
    rfl
  · rfl

end StringBuilder

/-- A buffer takes texts of these lengths in turn, from a position on. -/
def Fits (position capacity : ℕ) : List ℕ → Prop
  | [] => True
  | 0 :: rest => Fits position capacity rest
  | size :: rest =>
    match room position capacity size with
    | none => False
    | some capacity => position + size ≤ capacity ∧ Fits (position + size) capacity rest

theorem room_of_lt {position capacity size : ℕ} (inside : position ≤ capacity)
    (enough : capacity ≤ maxSize) (positive : 0 < size) (short : position + size < maxSize) :
    ∃ newSize, room position capacity size = some newSize ∧ position + size ≤ newSize := by
  rw [room]
  split
  · rename_i fits
    exact ⟨capacity, rfl, fits.le⟩
  · rw [grow, if_neg (by omega)]
    exact ⟨_, rfl, by omega⟩

theorem fits_cons_iff {position capacity size : ℕ} {rest : List ℕ} (positive : size ≠ 0) :
    Fits position capacity (size :: rest) ↔
      ∃ newSize, room position capacity size = some newSize ∧ position + size ≤ newSize ∧
        Fits (position + size) newSize rest := by
  cases size with
  | zero => contradiction
  | succ size =>
    rw [Fits]
    · split
      · rename_i full
        simp [full]
      · rename_i newSize grown
        simp [grown]
    · exact positive

/-- What stays below the size of a string fits. -/
theorem fits_of_lt {position capacity : ℕ} {sizes : List ℕ} (inside : position ≤ capacity)
    (enough : capacity ≤ maxSize) (short : position + sizes.sum < maxSize) :
    Fits position capacity sizes := by
  induction sizes generalizing position capacity with
  | nil => trivial
  | cons size rest ih =>
    rw [List.sum_cons] at short
    cases size with
    | zero => exact ih inside enough (by omega)
    | succ size =>
      obtain ⟨newSize, grown, taken⟩ :=
        room_of_lt inside enough (Nat.succ_pos size) (by omega)
      exact (fits_cons_iff (Nat.succ_ne_zero size)).mpr
        ⟨newSize, grown, taken, ih taken (room_le enough grown) (by omega)⟩

namespace StringBuilder

theorem length_append_le {sb after : StringBuilder} {string : Str}
    (appended : sb.append string = some after) :
    after.buffer.length ≤ sb.buffer.length + string.getLength := by
  rw [append] at appended
  split at appended
  · cases appended
    omega
  · split at appended
    · cases appended
      omega
    · split at appended
      · cases appended
        rw [List.length_append]
        rfl
      · cases appended

theorem length_appendAll_le {sb after : StringBuilder} {strings : List Str}
    (appended : sb.appendAll strings = some after) :
    after.buffer.length ≤ sb.buffer.length + (strings.map Str.getLength).sum := by
  induction strings generalizing sb with
  | nil =>
    cases appended
    omega
  | cons string rest ih =>
    obtain ⟨next, here, later⟩ := Option.bind_eq_some_iff.mp appended
    have first := length_append_le here
    have others := ih later
    rw [List.map_cons, List.sum_cons]
    omega

theorem append_of_empty {sb : StringBuilder} {string : Str} (none : string.bytes = []) :
    sb.append string = some sb := by
  rw [append, if_pos (Str.isEmpty_iff.mpr none)]

section

variable {sb : StringBuilder} {string : Str}

theorem append_of_full (full : room sb.buffer.length sb.capacity string.getLength = none) :
    sb.append string = some sb := by
  rw [append, ite_eq_left_iff]
  intro nonempty
  split
  · rfl
  · rename_i newSize grown
    rw [full] at grown
    cases grown

theorem append_of_room {newSize : ℕ} (positive : string.getLength ≠ 0)
    (grown : room sb.buffer.length sb.capacity string.getLength = some newSize)
    (taken : sb.buffer.length + string.getLength ≤ newSize) :
    ∃ next, sb.append string = some next ∧ next.buffer = sb.buffer ++ string.bytes ∧
      next.capacity = newSize := by
  have nonempty : ¬ string.isEmpty = true := fun empty =>
    positive (Str.getLength_eq_zero_iff.mpr (Str.isEmpty_iff.mp empty))
  rw [append, if_neg nonempty]
  split
  · rename_i full
    rw [full] at grown
    cases grown
  · rename_i size same
    obtain rfl : size = newSize := Option.some.inj (same.symm.trans grown)
    rw [dif_pos taken]
    exact ⟨_, rfl, rfl, rfl⟩

theorem append_of_over {newSize : ℕ} (positive : string.getLength ≠ 0)
    (grown : room sb.buffer.length sb.capacity string.getLength = some newSize)
    (beyond : ¬ sb.buffer.length + string.getLength ≤ newSize) : sb.append string = none := by
  have nonempty : ¬ string.isEmpty = true := fun empty =>
    positive (Str.getLength_eq_zero_iff.mpr (Str.isEmpty_iff.mp empty))
  rw [append, if_neg nonempty]
  split
  · rename_i full
    rw [full] at grown
    cases grown
  · rename_i size same
    obtain rfl : size = newSize := Option.some.inj (same.symm.trans grown)
    rw [dif_neg beyond]

end

/-- A builder collects all strings if they fit. -/
theorem appendAll_iff {sb : StringBuilder} {strings : List Str} :
    (∃ after, sb.appendAll strings = some after ∧
      after.buffer = sb.buffer ++ (strings.map Str.bytes).flatten) ↔
      Fits sb.buffer.length sb.capacity (strings.map Str.getLength) := by
  induction strings generalizing sb with
  | nil => exact iff_of_true ⟨sb, rfl, by simp⟩ trivial
  | cons string rest ih =>
    rw [appendAll, List.map_cons, List.map_cons, List.flatten_cons]
    by_cases zero : string.getLength = 0
    · have none : string.bytes = [] := Str.getLength_eq_zero_iff.mp zero
      rw [append_of_empty none, Option.bind_some, none, zero, List.nil_append, ih]
      rfl
    rw [fits_cons_iff zero]
    cases grown : room sb.buffer.length sb.capacity string.getLength with
    | none =>
      -- the string is left out, and no later one makes up for its characters
      rw [append_of_full grown, Option.bind_some]
      refine iff_of_false ?_ fun ⟨_, taken, _⟩ => by cases taken
      rintro ⟨after, appended, whole⟩
      have short := length_appendAll_le appended
      have long := congrArg List.length whole
      rw [List.length_append, List.length_append, List.length_flatten, List.map_map] at long
      change _ = _ + (string.getLength + (rest.map Str.getLength).sum) at long
      omega
    | some newSize =>
      simp only [Option.some.injEq, exists_eq_left']
      by_cases taken : sb.buffer.length + string.getLength ≤ newSize
      · obtain ⟨next, appended, buffer, capacity⟩ := append_of_room zero grown taken
        have later := @ih next
        rw [buffer, capacity, List.length_append, List.append_assoc] at later
        rw [and_iff_right taken, appended, Option.bind_some, later]
        rfl
      · rw [append_of_over zero grown taken]
        refine iff_of_false ?_ fun fits => taken fits.1
        rintro ⟨after, undefined, -⟩
        cases undefined

end StringBuilder

/-! ### Replace and Split -/

namespace Str

theorem indexOf_eq {s other : Str} (nonempty : other.bytes ≠ []) (start : ℕ) :
    s.indexOf other start = findFrom other.bytes s.bytes start := by
  have none : s.getLength ≤ start → findFrom other.bytes s.bytes start = none := by
    intro past
    rw [findFrom, List.drop_eq_nil_of_le past, find, if_neg nonempty]
    rfl
  rw [indexOf]
  split
  · rename_i empty
    rcases empty with empty | empty
    · rw [none (by rw [getLength_eq_zero_iff.mpr (isEmpty_iff.mp empty)]; exact Nat.zero_le _)]
    · exact absurd (isEmpty_iff.mp empty) nonempty
  · split
    · rename_i past
      rw [none (by omega)]
    · rfl

/-- What a search finds lies in the text, at or after its start. -/
theorem indexOf_inside {s other : Str} {start index : ℕ}
    (found : s.indexOf other start = some index) :
    other.bytes ≠ [] ∧ start ≤ index ∧ index + other.getLength ≤ s.getLength := by
  have nonempty : other.bytes ≠ [] := by
    intro empty
    rw [indexOf, if_pos (.inr (isEmpty_iff.mpr empty))] at found
    cases found
  rw [indexOf_eq nonempty, findFrom_eq_some_iff nonempty] at found
  exact ⟨nonempty, found.1.1, found.1.2.add_length_le nonempty⟩

/-- The loop of `Replace` for texts, from `begin` on. -/
def replaceLoop (s target replacement : Str) (sb : StringBuilder) (start : ℕ) :
    Option StringBuilder :=
  match _found : s.indexOf target start with
  | none => sb.append (s.substringFrom start)
  | some index =>
    ((sb.append (s.substring start index)).bind (·.append replacement)).bind fun sb =>
      replaceLoop s target replacement sb (index + target.getLength)
termination_by s.getLength - start
decreasing_by
  obtain ⟨nonempty, after, inside⟩ := indexOf_inside _found
  have positive : 0 < target.getLength := List.length_pos_iff.mpr nonempty
  omega

/-- `Replace` for texts. It is not defined when the builder is overrun. -/
def replace (s target replacement : Str) : Option Str :=
  if target.isEmpty ∨ replacement.isNull then some s
  else
    match s.indexOf target 0 with
    | none => some s
    | some _ => (s.replaceLoop target replacement .empty 0).map (·.toString)

/-- `Replace` for characters. -/
def replaceChar (s : Str) (oldChar newChar : UInt8) (valid : newChar ≠ 0) : Str :=
  ⟨s.string.map (·.map fun c => if c = oldChar then newChar else c), by
    rintro bytes isText zero
    obtain ⟨text, here, rfl⟩ := Option.map_eq_some_iff.mp isText
    obtain ⟨c, listed, same⟩ := List.mem_map.mp zero
    split at same
    · exact valid same
    · exact s.noNul text here (same ▸ listed), by
    rintro bytes isText
    obtain ⟨text, here, rfl⟩ := Option.map_eq_some_iff.mp isText
    rw [List.length_map]
    exact s.length_le text here⟩

/-- The loop of `Split`, from `startIndex` on. -/
def splitLoop (s separator : Str) (startIndex : ℕ) : List Str :=
  match _found : s.indexOf separator startIndex with
  | none => if startIndex < s.getLength then [s.substringFrom startIndex] else []
  | some endIndex => s.substring startIndex endIndex :: splitLoop s separator (endIndex + 1)
termination_by s.getLength - startIndex
decreasing_by
  obtain ⟨nonempty, after, inside⟩ := indexOf_inside _found
  have positive : 0 < separator.getLength := List.length_pos_iff.mpr nonempty
  omega

/-- `Split`. -/
def split (s separator : Str) : List Str := if s.isEmpty then [] else s.splitLoop separator 0

/-- The loop of `Replace` appends the parts of the text with the target replaced. -/
theorem replaceLoop_eq {s target replacement : Str} (nonempty : target.bytes ≠ []) (start : ℕ) :
    ∃ strings : List Str,
      strings.map bytes = parts target.bytes replacement.bytes (s.bytes.drop start) ∧
      ∀ sb, s.replaceLoop target replacement sb start = sb.appendAll strings := by
  induction h : s.getLength - start using Nat.strong_induction_on generalizing start with
  | _ left ih =>
    have same := @indexOf_eq s _ nonempty start
    cases found : find target.bytes (s.bytes.drop start) with
    | none =>
      rw [findFrom, found, Option.map_none] at same
      refine ⟨[s.substringFrom start], ?_, fun sb => ?_⟩
      · rw [parts_of_find_none nonempty found, ← bytes_substringFrom]
        rfl
      · rw [replaceLoop]
        split
        · simp [StringBuilder.appendAll]
        · rename_i index there
          rw [same] at there
          cases there
    | some j =>
      rw [findFrom, found, Option.map_some] at same
      obtain ⟨-, after, inside⟩ := indexOf_inside same
      have positive : 0 < target.getLength := List.length_pos_iff.mpr nonempty
      obtain ⟨strings, rest, appends⟩ := ih _ (by omega) (j + start + target.getLength) rfl
      refine ⟨s.substring start (j + start) :: replacement :: strings, ?_, fun sb => ?_⟩
      · have before : (s.bytes.take (j + start)).drop start = (s.bytes.drop start).take j := by
          rw [List.drop_take, Nat.add_sub_cancel]
        have behind : (s.bytes.drop start).drop (j + target.bytes.length) =
            s.bytes.drop (j + start + target.getLength) := by
          rw [List.drop_drop, getLength]
          congr 1
          omega
        rw [parts_of_find nonempty found, List.map_cons, List.map_cons, rest,
          bytes_substring after (by omega), before, behind]
      · rw [replaceLoop]
        split
        · rename_i there
          rw [same] at there
          cases there
        · rename_i index there
          cases Option.some.inj (same.symm.trans there)
          simp only [StringBuilder.appendAll, appends, Option.bind_assoc]

/-- `Replace` gives the text with the target replaced, unless a null pointer is to replace
it or the builder has no room for the parts. -/
theorem replace_iff {s target replacement : Str} (nonempty : target.bytes ≠ []) :
    (∃ result, s.replace target replacement = some result ∧
      result.bytes = replaceAll target.bytes replacement.bytes s.bytes) ↔
      ((∀ i, ¬ OccursAt target.bytes s.bytes i) ∨ replacement.isNull = false ∧
        Fits 0 0 ((parts target.bytes replacement.bytes s.bytes).map List.length)) := by
  have same : s.indexOf target 0 = findFrom target.bytes s.bytes 0 := indexOf_eq nonempty 0
  have notEmpty : ¬ target.isEmpty = true := fun empty => nonempty (isEmpty_iff.mp empty)
  cases found : find target.bytes s.bytes with
  | none =>
    have never := (find_eq_none_iff nonempty).mp found
    refine iff_of_true ⟨s, ?_, (replaceAll_of_find_none found).symm⟩ (.inl never)
    rw [findFrom, List.drop_zero, found, Option.map_none] at same
    rw [replace, same]
    split <;> rfl
  | some i =>
    have occurs : ¬ ∀ i, ¬ OccursAt target.bytes s.bytes i := fun never =>
      never i ((find_eq_some_iff nonempty).mp found).1
    rw [findFrom, List.drop_zero, found, Option.map_some] at same
    rw [or_iff_right occurs]
    by_cases null : replacement.isNull = true
    · have none : replacement.bytes = [] := by
        rw [bytes, Option.isNone_iff_eq_none.mp null]
        rfl
      rw [replace, if_pos (.inr null), none]
      refine iff_of_false ?_ fun plain => by rw [null] at plain; cases plain.1
      rintro ⟨result, unchanged, equal⟩
      cases unchanged
      have short := length_replaceAll_eq nonempty found (congrArg List.length equal).symm
      exact nonempty (List.length_eq_zero_iff.mp short.symm)
    · rw [replace, if_neg (not_or.mpr ⟨notEmpty, null⟩), same]
      obtain ⟨strings, isParts, appends⟩ := @replaceLoop_eq s target replacement nonempty 0
      rw [List.drop_zero] at isParts
      have lengths : strings.map getLength =
          (parts target.bytes replacement.bytes s.bytes).map List.length := by
        rw [← isParts, List.map_map]
        rfl
      have collected := @StringBuilder.appendAll_iff .empty strings
      rw [isParts, flatten_parts nonempty, lengths] at collected
      rw [and_iff_right (Bool.eq_false_iff.mpr null)]
      refine Iff.trans ?_ collected
      dsimp only
      rw [appends]
      constructor
      · rintro ⟨result, built, equal⟩
        obtain ⟨after, appended, rfl⟩ := Option.map_eq_some_iff.mp built
        exact ⟨after, appended, by rw [← StringBuilder.bytes_toString, equal]; rfl⟩
      · rintro ⟨after, appended, equal⟩
        refine ⟨after.toString, Option.map_eq_some_iff.mpr ⟨after, appended, rfl⟩, ?_⟩
        rw [StringBuilder.bytes_toString, equal]
        rfl

end Str

end Hdf.HdiGen
