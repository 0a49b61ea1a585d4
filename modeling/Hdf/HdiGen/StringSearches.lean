import Hdf.HdiGen.Strings
import Mathlib.Order.Bounds.Basic

/-!
# Searches in the strings of hdi-gen

The forward searches find the first place. The backward search for a character never
looks at the first one of the text. The backward search for a text stops at a place
where only the first character differs, since the comparison then ends where it ends
after a match. Split goes on one character behind the start of a separator, whatever
its length.

## Main results

* `searchDown_spec`: the backward search ignores the first character
* `length_lt_join`: a separator of several characters leaves pieces that are too long
* `exact_iff`: the code is exact in these calls and in no others
-/

namespace Hdf.HdiGen.Str

open Substrings

/-- The result is the least index of a set, and none is given for the empty set. -/
def FindsLeast (places : Set ℕ) (result : Option ℕ) : Prop :=
  (∀ i, result = some i → IsLeast places i) ∧ (result = none ↔ places = ∅)

/-- The result is the greatest index of a set, and none is given for the empty set. -/
def FindsGreatest (places : Set ℕ) (result : Option ℕ) : Prop :=
  (∀ i, result = some i → IsGreatest places i) ∧ (result = none ↔ places = ∅)

/-! ### Forward searches -/

theorem findsLeast_indexOf {s t : Str} (nonempty : t.bytes ≠ []) (start : ℕ) :
    FindsLeast {i | start ≤ i ∧ OccursAt t.bytes s.bytes i} (s.indexOf t start) := by
  rw [indexOf_eq nonempty]
  exact ⟨fun i found => (findFrom_eq_some_iff nonempty).mp found, findFrom_eq_none_iff nonempty⟩

theorem occursAt_singleton {bytes : List UInt8} {c : UInt8} {i : ℕ} :
    OccursAt [c] bytes i ↔ bytes[i]? = some c := by
  rw [occursAt_iff_getElem?]
  constructor
  · intro same
    exact same 0 Nat.one_pos
  · intro same k inside
    obtain rfl : k = 0 := Nat.lt_one_iff.mp inside
    exact same

/-- The loop for a character searches for the text of that character. -/
theorem scanUp_eq (c : UInt8) (rest : List UInt8) (p : ℕ) :
    scanUp c rest p = (find [c] rest).map (· + p) := by
  induction rest generalizing p with
  | nil => rfl
  | cons b rest ih =>
    have first : [c] <+: b :: rest ↔ b = c := by
      rw [List.cons_prefix_cons, and_iff_left List.nil_prefix, eq_comm]
    rw [scanUp, find]
    by_cases same : b = c
    · rw [if_pos same, if_pos (first.mpr same), Option.map_some, Nat.zero_add]
    · rw [if_neg same, if_neg (mt first.mp same), ih, Option.map_map]
      congr 1
      funext i
      change i + (p + 1) = i + 1 + p
      omega

theorem findsLeast_indexOfChar (s : Str) (c : UInt8) (start : ℕ) :
    FindsLeast {i | start ≤ i ∧ s.bytes[i]? = some c} (s.indexOfChar c start) := by
  have same : s.indexOfChar c start = findFrom [c] s.bytes start := by
    have none : (∀ i, start ≤ i → s.bytes[i]? ≠ some c) →
        findFrom [c] s.bytes start = none := by
      intro never
      rw [findFrom_eq_none_iff (List.cons_ne_nil c []), Set.eq_empty_iff_forall_notMem]
      rintro i ⟨after, occurs⟩
      exact never i after (occursAt_singleton.mp occurs)
    rw [indexOfChar]
    split
    · rename_i excluded
      rw [none]
      rintro i - here
      rcases excluded with empty | rfl
      · rw [isEmpty_iff.mp empty] at here
        cases here
      · exact s.zero_notMem_bytes (List.mem_of_getElem? here)
    · split
      · rename_i past
        rw [none]
        intro i after here
        have inside := (List.getElem?_eq_some_iff.mp here).1
        rw [getLength] at past
        omega
      · exact scanUp_eq c _ _
  rw [same]
  simp only [← occursAt_singleton]
  exact ⟨fun i found => (findFrom_eq_some_iff (List.cons_ne_nil c [])).mp found,
    findFrom_eq_none_iff (List.cons_ne_nil c [])⟩

/-! ### Backward searches -/

section

variable {P : ℕ → Prop} {n : ℕ} {result : Option ℕ}

theorem findsGreatest_here (here : P n) : FindsGreatest {i | i ≤ n ∧ P i} (some n) := by
  refine ⟨fun i same => ?_, iff_of_false nofun fun none => ?_⟩
  · cases same
    exact ⟨⟨le_rfl, here⟩, fun j there => there.1⟩
  · exact Set.eq_empty_iff_forall_notMem.mp none n ⟨le_rfl, here⟩

theorem findsGreatest_succ (found : FindsGreatest {i | i ≤ n ∧ P i} result) (not : ¬ P (n + 1)) :
    FindsGreatest {i | i ≤ n + 1 ∧ P i} result := by
  have same : {i | i ≤ n + 1 ∧ P i} = {i | i ≤ n ∧ P i} := by
    ext i
    refine and_congr_left fun holds => ⟨fun low => ?_, fun low => by omega⟩
    have other : i ≠ n + 1 := fun equal => not (equal ▸ holds)
    omega
  rwa [same]

/-- A search in a larger set is exact for a set if what it finds is there. -/
theorem findsGreatest_iff {wide narrow : Set ℕ} (inside : narrow ⊆ wide)
    (found : FindsGreatest wide result) :
    FindsGreatest narrow result ↔ ∀ p, IsGreatest wide p → p ∈ narrow := by
  constructor
  · intro exact p greatest
    cases same : result with
    | none =>
      rw [found.2.mp same] at greatest
      exact absurd greatest.1 (Set.notMem_empty p)
    | some i =>
      rw [greatest.unique (found.1 i same)]
      exact (exact.1 i same).1
  · intro kept
    refine ⟨fun i same => ?_, fun none => ?_, fun none => ?_⟩
    · have greatest := found.1 i same
      exact ⟨kept i greatest, fun j there => greatest.2 (inside there)⟩
    · exact Set.subset_empty_iff.mp (found.2.mp none ▸ inside)
    · cases same : result with
      | none => rfl
      | some i =>
        have there := kept i (found.1 i same)
        rw [none] at there
        exact absurd there (Set.notMem_empty i)

/-- A search that leaves out the first index is exact unless that one is to be found. -/
theorem findsGreatest_positive_iff {places : Set ℕ}
    (found : FindsGreatest {i | i ∈ places ∧ 0 < i} result) :
    FindsGreatest places result ↔ ¬ IsGreatest places 0 := by
  constructor
  · intro exact greatest
    cases same : result with
    | none =>
      rw [exact.2.mp same] at greatest
      exact greatest.1
    | some i =>
      have positive := (found.1 i same).1.2
      rw [(exact.1 i same).unique greatest] at positive
      exact Nat.lt_irrefl 0 positive
  · intro notFirst
    refine ⟨fun i same => ?_, fun none => ?_, fun none => ?_⟩
    · have greatest := found.1 i same
      refine ⟨greatest.1.1, fun j there => ?_⟩
      rcases Nat.eq_zero_or_pos j with rfl | positive
      · exact Nat.zero_le i
      · exact greatest.2 ⟨there, positive⟩
    · have nowhere := Set.eq_empty_iff_forall_notMem.mp (found.2.mp none)
      refine Set.eq_empty_iff_forall_notMem.mpr fun i there => ?_
      have zero : i = 0 := by
        by_contra other
        exact nowhere i ⟨there, Nat.pos_of_ne_zero other⟩
      subst zero
      refine notFirst ⟨there, fun j other => ?_⟩
      by_contra later
      exact nowhere j ⟨other, by omega⟩
    · refine found.2.mpr (Set.eq_empty_iff_forall_notMem.mpr fun i there => ?_)
      rw [none] at there
      exact there.1

end

theorem scanDown_spec (bytes : List UInt8) (c : UInt8) (n : ℕ) :
    FindsGreatest {i | i ≤ n ∧ 0 < i ∧ bytes[i]? = some c} (scanDown bytes c n) := by
  induction n with
  | zero =>
    refine ⟨nofun, iff_of_true rfl ?_⟩
    ext i
    simp only [Set.mem_ofPred_eq, Set.mem_empty_iff_false, iff_false]
    omega
  | succ n ih =>
    rw [scanDown]
    split
    · rename_i here
      exact findsGreatest_here ⟨Nat.succ_pos n, here⟩
    · rename_i there
      exact findsGreatest_succ ih fun here => there here.2

/-- Where a backward search starts, among the places of the text. -/
theorem le_lastIndex_iff {s : Str} {start i : ℕ} (inside : i < s.getLength) :
    (start = 0 ∨ i ≤ start) ↔ i ≤ (s.lastIndex start).toNat := by
  rw [lastIndex]
  split <;> omega

/-- The search for a character is exact unless its only place is the first character. -/
theorem lastIndexOfChar_iff (s : Str) (c : UInt8) (start : ℕ) :
    FindsGreatest {i | (start = 0 ∨ i ≤ start) ∧ s.bytes[i]? = some c}
        (s.lastIndexOfChar c start) ↔
      ¬ IsGreatest {i | (start = 0 ∨ i ≤ start) ∧ s.bytes[i]? = some c} 0 := by
  refine findsGreatest_positive_iff ?_
  rw [lastIndexOfChar]
  split
  · rename_i excluded
    refine ⟨nofun, iff_of_true rfl (Set.eq_empty_iff_forall_notMem.mpr ?_)⟩
    rintro i ⟨⟨-, here⟩, -⟩
    rcases excluded with empty | rfl
    · rw [isEmpty_iff.mp empty] at here
      cases here
    · exact s.zero_notMem_bytes (List.mem_of_getElem? here)
  · rw [if_neg (by omega)]
    have same : {i | i ∈ {i | (start = 0 ∨ i ≤ start) ∧ s.bytes[i]? = some c} ∧ 0 < i} =
        {i | i ≤ (s.lastIndex start).toNat ∧ 0 < i ∧ s.bytes[i]? = some c} := by
      ext i
      have bound : s.bytes[i]? = some c →
          ((start = 0 ∨ i ≤ start) ↔ i ≤ (s.lastIndex start).toNat) := by
        intro here
        exact le_lastIndex_iff (List.getElem?_eq_some_iff.mp here).1
      simp only [Set.mem_ofPred_eq]
      constructor
      · rintro ⟨⟨low, here⟩, positive⟩
        exact ⟨(bound here).mp low, positive, here⟩
      · rintro ⟨low, positive, here⟩
        exact ⟨⟨(bound here).mpr low, here⟩, positive⟩
    rw [same]
    exact scanDown_spec _ _ _

/-- A text stands at an index but for its first character, if it has another one. -/
def AllButFirst (target bytes : List UInt8) (i : ℕ) : Prop :=
  ∀ k < target.length, 0 < k ∨ target.length = 1 → bytes[i + k]? = target[k]?

theorem charAt_eq_iff {bytes target : List UInt8} {i j : ℕ} (inI : i < bytes.length)
    (inJ : j < target.length) : charAt bytes i = charAt target j ↔ bytes[i]? = target[j]? := by
  rw [charAt, charAt, Int.toNat_natCast, Int.toNat_natCast, List.getD_eq_getElem?_getD,
    List.getD_eq_getElem?_getD, List.getElem?_eq_getElem inI, List.getElem?_eq_getElem inJ,
    Option.getD_some, Option.getD_some, Option.some.injEq]

/-- The comparison ends at its start after a match, and when only the first character differs. -/
theorem compareDown_iff (bytes target : List UInt8) (i n : ℕ) :
    compareDown bytes target (i - 1) n = i - 1 ↔
      ∀ k, 0 < k → k < n → charAt bytes (i + k : ℕ) = charAt target k := by
  induction n with
  | zero => exact iff_of_true rfl fun k _ low => absurd low (Nat.not_lt_zero k)
  | succ n ih =>
    have index : (i : ℤ) - 1 + (n + 1) = (i + n : ℕ) := by
      push_cast
      omega
    rw [compareDown, index]
    split
    · rename_i differs
      constructor
      · intro zero k positive low
        omega
      · intro same
        rcases Nat.eq_zero_or_pos n with rfl | positive
        · simp
        · exact absurd (same n positive (Nat.lt_succ_self n)) differs
    · rename_i equal
      rw [ih]
      refine ⟨fun same k positive low => ?_, fun same k positive low => same k positive (by omega)⟩
      rcases Nat.lt_succ_iff_lt_or_eq.mp low with before | rfl
      · exact same k positive before
      · exact not_not.mp equal

section

variable {bytes target : List UInt8} {i : ℕ}

/-- One place of the backward search: the first character is not compared. -/
theorem searchDown_eq (positive : 0 < target.length) (inside : i + target.length ≤ bytes.length) :
    (AllButFirst target bytes i ∧
      searchDown bytes target (i + target.length - 1) = some i) ∨
    (¬ AllButFirst target bytes i ∧
      searchDown bytes target (i + target.length - 1) =
        searchDown bytes target (i + target.length - 2)) := by
  have last : ((i : ℤ) + target.length - 1) = (i + (target.length - 1) : ℕ) := by omega
  have lastTarget : ((target.length : ℤ) - 1) = (target.length - 1 : ℕ) := by omega
  have before : ((i : ℤ) + target.length - 1 - 1) = i + target.length - 2 := by omega
  have start : ((i : ℤ) + target.length - 1 - target.length) = i - 1 := by omega
  have lastIff := @charAt_eq_iff bytes target (i + (target.length - 1)) (target.length - 1)
    (by omega) (by omega)
  rw [searchDown, if_neg (by omega), before, start, lastTarget]
  rw [last]
  by_cases equal : charAt bytes (i + (target.length - 1) : ℕ) =
      charAt target (target.length - 1 : ℕ)
  · rw [if_neg (not_not.mpr equal)]
    dsimp only
    have match_iff : compareDown bytes target (i - 1) (target.length - 1) = i - 1 ↔
        AllButFirst target bytes i := by
      rw [compareDown_iff]
      constructor
      · intro same k low counted
        by_cases isLast : k = target.length - 1
        · rw [isLast]
          exact lastIff.mp equal
        · exact (charAt_eq_iff (by omega) low).mp (same k (by omega) (by omega))
      · intro same k later low
        exact (charAt_eq_iff (by omega) (by omega)).mpr (same k (by omega) (.inl later))
    by_cases same : AllButFirst target bytes i
    · rw [if_pos (match_iff.mpr same)]
      exact .inl ⟨same, by simp⟩
    · rw [if_neg (mt match_iff.mp same)]
      exact .inr ⟨same, rfl⟩
  · rw [if_pos equal]
    refine .inr ⟨fun same => equal (lastIff.mpr (same _ (by omega) (by omega))), rfl⟩

/-- The backward search finds the greatest place where all but the first character fit. -/
theorem searchDown_spec (positive : 0 < target.length)
    (inside : i + target.length ≤ bytes.length) :
    FindsGreatest {p | p ≤ i ∧ AllButFirst target bytes p}
      (searchDown bytes target (i + target.length - 1)) := by
  induction i with
  | zero =>
    rcases searchDown_eq positive inside with ⟨here, found⟩ | ⟨there, next⟩
    · rw [found]
      exact findsGreatest_here here
    · have none : searchDown bytes target ((0 : ℕ) + target.length - 2) = none := by
        rw [searchDown, if_pos (by omega)]
      rw [next, none]
      refine ⟨nofun, iff_of_true rfl (Set.eq_empty_iff_forall_notMem.mpr ?_)⟩
      rintro p ⟨low, here⟩
      obtain rfl : p = 0 := Nat.le_zero.mp low
      exact there here
  | succ i ih =>
    rcases searchDown_eq positive inside with ⟨here, found⟩ | ⟨there, next⟩
    · rw [found]
      exact findsGreatest_here here
    · have index : (((i + 1 : ℕ) : ℤ) + target.length - 2) = i + target.length - 1 := by omega
      rw [next, index]
      exact findsGreatest_succ (ih (by omega)) there

end

section

variable {s t : Str} (nonempty : t.bytes ≠ []) (start : ℕ)
include nonempty

/-- What the backward search for a text finds. -/
theorem findsGreatest_lastIndexOf :
    FindsGreatest {i | (start = 0 ∨ i ≤ start) ∧ i + t.getLength ≤ s.getLength ∧
      AllButFirst t.bytes s.bytes i} (s.lastIndexOf t start) := by
  have positive : 0 < t.getLength := List.length_pos_iff.mpr nonempty
  have notEmpty : ¬ t.isEmpty = true := fun empty => nonempty (isEmpty_iff.mp empty)
  by_cases long : s.getLength < t.getLength
  · -- the text searched for is longer than the string
    have none : s.lastIndexOf t start = none := by
      rw [lastIndexOf, lastIndexOfInternal, ite_eq_left_iff]
      intro _
      rw [ite_eq_left_iff]
      intro _
      rw [searchDown, if_pos]
      change _ < (t.getLength : ℤ) - 1
      omega
    rw [none]
    refine ⟨nofun, iff_of_true rfl (Set.eq_empty_iff_forall_notMem.mpr ?_)⟩
    rintro i ⟨-, inside, -⟩
    omega
  · have full : ¬ (s.isEmpty = true ∨ t.isEmpty = true) := by
      rintro (empty | empty)
      · have zero := getLength_eq_zero_iff.mpr (isEmpty_iff.mp empty)
        omega
      · exact notEmpty empty
    obtain ⟨i, least⟩ : ∃ i : ℕ, (i : ℤ) = min (s.lastIndex start) (s.getLength - t.getLength) := by
      refine ⟨(min (s.lastIndex start) (s.getLength - t.getLength)).toNat, Int.toNat_of_nonneg ?_⟩
      rw [lastIndex]
      split <;> omega
    have places : {i | (start = 0 ∨ i ≤ start) ∧ i + t.getLength ≤ s.getLength ∧
        AllButFirst t.bytes s.bytes i} = {p | p ≤ i ∧ AllButFirst t.bytes s.bytes p} := by
      ext p
      rw [Set.mem_ofPred_eq, Set.mem_ofPred_eq, ← and_assoc]
      refine and_congr_left fun _ => ?_
      constructor
      · rintro ⟨low, inside⟩
        rw [@le_lastIndex_iff s start p (by omega)] at low
        omega
      · intro low
        rw [@le_lastIndex_iff s start p (by omega)]
        omega
    have index : (t.getLength : ℤ) - 1 + i = i + t.bytes.length - 1 := by
      change (t.getLength : ℤ) - 1 + i = i + t.getLength - 1
      omega
    rw [lastIndexOf, if_neg full, if_neg (by omega), lastIndexOfInternal, ← least, places, index]
    refine searchDown_spec positive ?_
    change i + t.getLength ≤ s.getLength
    omega

/-- A text stands where its first character and the others do. -/
theorem occursAt_iff_allButFirst {i : ℕ} : OccursAt t.bytes s.bytes i ↔
    (i + t.getLength ≤ s.getLength ∧ AllButFirst t.bytes s.bytes i) ∧
      s.bytes[i]? = t.bytes[0]? := by
  constructor
  · intro occurs
    have same := occursAt_iff_getElem?.mp occurs
    exact ⟨⟨occurs.add_length_le nonempty, fun k low _ => same k low⟩,
      same 0 (List.length_pos_iff.mpr nonempty)⟩
  · rintro ⟨⟨-, others⟩, first⟩
    refine occursAt_iff_getElem?.mpr fun k low => ?_
    rcases Nat.eq_zero_or_pos k with rfl | positive
    · exact first
    · exact others k low (.inl positive)

/-- Of a text of several characters, all but the first form its tail. -/
theorem tail_occursAt_iff (several : t.getLength ≠ 1) {i : ℕ} :
    OccursAt t.bytes.tail s.bytes (i + 1) ↔
      i + t.getLength ≤ s.getLength ∧ AllButFirst t.bytes s.bytes i := by
  have positive : 0 < t.getLength := List.length_pos_iff.mpr nonempty
  have length : t.bytes.tail.length = t.getLength - 1 := List.length_tail
  have rest : t.bytes.tail ≠ [] := by
    intro none
    rw [none, List.length_nil] at length
    omega
  constructor
  · intro occurs
    refine ⟨?_, fun k low counted => ?_⟩
    · have inside := occurs.add_length_le rest
      rw [length] at inside
      change _ ≤ s.getLength at inside
      omega
    · obtain ⟨j, rfl⟩ : ∃ j, k = j + 1 :=
        ⟨k - 1, (Nat.sub_add_cancel (counted.resolve_right several)).symm⟩
      have inside : j < t.bytes.tail.length := length ▸ Nat.lt_sub_of_add_lt low
      have same := occursAt_iff_getElem?.mp occurs j inside
      rwa [List.getElem?_tail, Nat.add_right_comm, Nat.add_assoc] at same
  · rintro ⟨-, others⟩
    refine occursAt_iff_getElem?.mpr fun j low => ?_
    rw [length] at low
    have same := others (j + 1) (Nat.add_lt_of_lt_sub low) (.inl (Nat.succ_pos j))
    rwa [List.getElem?_tail, Nat.add_right_comm, Nat.add_assoc]

/-- The search for a text is exact for one character, and otherwise if the first character
fits where the others do for the last time. -/
theorem lastIndexOf_iff :
    FindsGreatest {i | (start = 0 ∨ i ≤ start) ∧ OccursAt t.bytes s.bytes i}
        (s.lastIndexOf t start) ↔
      t.getLength = 1 ∨ ∀ i, IsGreatest {i | (start = 0 ∨ i ≤ start) ∧
        OccursAt t.bytes.tail s.bytes (i + 1)} i → s.bytes[i]? = t.bytes[0]? := by
  rw [findsGreatest_iff _ (findsGreatest_lastIndexOf nonempty start)]
  · by_cases one : t.getLength = 1
    · refine iff_of_true ?_ (.inl one)
      rintro i ⟨⟨low, inside, others⟩, -⟩
      have first := others 0 (List.length_pos_iff.mpr nonempty) (.inr one)
      exact ⟨low, (occursAt_iff_allButFirst nonempty).mpr ⟨⟨inside, others⟩, first⟩⟩
    · simp only [tail_occursAt_iff nonempty one, one, false_or]
      refine forall_congr' fun i => imp_congr_right fun greatest => ?_
      constructor
      · rintro ⟨-, occurs⟩
        exact ((occursAt_iff_allButFirst nonempty).mp occurs).2
      · intro first
        exact ⟨greatest.1.1, (occursAt_iff_allButFirst nonempty).mpr ⟨greatest.1.2, first⟩⟩
  · rintro i ⟨low, occurs⟩
    exact ⟨low, ((occursAt_iff_allButFirst nonempty).mp occurs).1⟩

end

/-! ### Split -/

/-- The pieces of a text with a separator between them. -/
def join (separator : Str) (pieces : List Str) : List UInt8 :=
  separator.bytes.intercalate (pieces.map bytes)

theorem join_cons {separator piece : Str} {pieces : List Str} (more : pieces ≠ []) :
    join separator (piece :: pieces) =
      piece.bytes ++ separator.bytes ++ join separator pieces :=
  List.intercalate_cons_of_ne_nil (mt List.map_eq_nil_iff.mp more)

section

variable {s separator : Str} {start index : ℕ}

theorem splitLoop_of_none (never : s.indexOf separator start = none) :
    s.splitLoop separator start =
      if start < s.getLength then [s.substringFrom start] else [] := by
  rw [splitLoop]
  split
  · rfl
  · rename_i found
    rw [never] at found
    cases found

theorem splitLoop_of_some (found : s.indexOf separator start = some index) :
    s.splitLoop separator start =
      s.substring start index :: s.splitLoop separator (index + 1) := by
  rw [splitLoop]
  split
  · rename_i never
    rw [never] at found
    cases found
  · rename_i other same
    cases Option.some.inj (same.symm.trans found)
    rfl

theorem splitLoop_eq_nil_iff : s.splitLoop separator start = [] ↔ s.getLength ≤ start := by
  cases found : s.indexOf separator start with
  | none =>
    rw [splitLoop_of_none found, ite_eq_right_iff]
    constructor
    · intro short
      by_contra inside
      cases short (Nat.not_le.mp inside)
    · intro past inside
      omega
  | some index =>
    obtain ⟨nonempty, after, inside⟩ := indexOf_inside found
    have positive : 0 < separator.getLength := List.length_pos_iff.mpr nonempty
    rw [splitLoop_of_some found]
    exact iff_of_false (List.cons_ne_nil _ _) (by omega)

/-- What comes before a separator that was found, the separator and the rest. -/
theorem drop_of_found (found : s.indexOf separator start = some index) :
    s.bytes.drop start = (s.substring start index).bytes ++ separator.bytes ++
      s.bytes.drop (index + separator.getLength) := by
  obtain ⟨nonempty, after, inside⟩ := indexOf_inside found
  rw [indexOf_eq nonempty, findFrom_eq_some_iff nonempty] at found
  obtain ⟨behind, same⟩ := found.1.2
  have rest : s.bytes.drop (index + separator.getLength) = behind := by
    rw [← List.drop_drop, ← same]
    exact List.drop_left
  have skipped : s.bytes.drop index = (s.bytes.drop start).drop (index - start) := by
    rw [List.drop_drop, Nat.add_sub_cancel' after]
  rw [bytes_substring after (by omega), rest, List.append_assoc, same, skipped, List.drop_take,
    List.take_append_drop]

/-- A separator of one character: the pieces join to the text, up to a separator at its end. -/
theorem join_splitLoop (one : separator.getLength = 1) :
    join separator (s.splitLoop separator start) = s.bytes.drop start ∨
      join separator (s.splitLoop separator start) ++ separator.bytes = s.bytes.drop start := by
  induction h : s.getLength - start using Nat.strong_induction_on generalizing start with
  | _ left ih =>
    cases found : s.indexOf separator start with
    | none =>
      left
      rw [splitLoop_of_none found]
      split
      · exact List.intercalate_singleton.trans (bytes_substringFrom s start)
      · rename_i past
        rw [List.drop_eq_nil_of_le (Nat.not_lt.mp past)]
        rfl
    | some index =>
      obtain ⟨nonempty, after, inside⟩ := indexOf_inside found
      have whole := drop_of_found found
      rw [one] at whole
      rw [splitLoop_of_some found, whole]
      by_cases last : s.splitLoop separator (index + 1) = []
      · right
        rw [last, List.drop_eq_nil_of_le (splitLoop_eq_nil_iff.mp last), List.append_nil]
        exact congrArg (· ++ separator.bytes) List.intercalate_singleton
      · rw [join_cons last]
        rcases @ih (s.getLength - (index + 1)) (by omega) (index + 1) rfl with same | same
        · exact .inl (congrArg _ same)
        · right
          rw [List.append_assoc, same]

/-- A separator of several characters: the pieces join to more than the text. -/
theorem length_lt_join (several : 1 < separator.getLength) (inside : start < s.getLength) :
    s.getLength - start ≤ (join separator (s.splitLoop separator start)).length ∧
      (s.indexOf separator start ≠ none →
        s.getLength - start < (join separator (s.splitLoop separator start)).length) := by
  induction h : s.getLength - start using Nat.strong_induction_on generalizing start with
  | _ left ih =>
    cases found : s.indexOf separator start with
    | none =>
      refine ⟨?_, fun some => absurd rfl some⟩
      have joined : join separator [s.substringFrom start] = s.bytes.drop start :=
        List.intercalate_singleton.trans (bytes_substringFrom s start)
      rw [splitLoop_of_none found, if_pos inside, joined, List.length_drop]
      exact h.ge
    | some index =>
      obtain ⟨-, after, within⟩ := indexOf_inside found
      -- the rest of the separator stays behind, so there is another piece
      have more : s.splitLoop separator (index + 1) ≠ [] :=
        mt splitLoop_eq_nil_iff.mp (by omega)
      have rest := (@ih (s.getLength - (index + 1)) (by omega) (index + 1) (by omega) rfl).1
      have piece : (s.substring start index).bytes.length = index - start := by
        rw [bytes_substring after (by omega), List.length_drop, List.length_take]
        change min index s.getLength - start = _
        omega
      have longer : left < (join separator (s.splitLoop separator start)).length := by
        rw [splitLoop_of_some found, join_cons more, List.length_append, List.length_append, piece]
        change _ < _ + separator.getLength + _
        omega
      exact ⟨longer.le, fun _ => longer⟩

end

/-! ### All searches -/

/-- The searches are exact, `Replace` replaces, and the pieces of `Split` join to the text. -/
structure Exact (s : Str) (c : UInt8) (t : Target) (r : Str) (start : ℕ) : Prop where
  indexOfChar : FindsLeast {i | start ≤ i ∧ s.bytes[i]? = some c} (s.indexOfChar c start)
  indexOf : FindsLeast {i | start ≤ i ∧ OccursAt t.bytes s.bytes i} (s.indexOf t.toStr start)
  lastIndexOfChar : FindsGreatest {i | (start = 0 ∨ i ≤ start) ∧ s.bytes[i]? = some c}
    (s.lastIndexOfChar c start)
  lastIndexOf : FindsGreatest {i | (start = 0 ∨ i ≤ start) ∧ OccursAt t.bytes s.bytes i}
    (s.lastIndexOf t.toStr start)
  replace : ∃ result, s.replace t.toStr r = some result ∧
    result.bytes = replaceAll t.bytes r.bytes s.bytes
  split : (∃ i, OccursAt t.bytes s.bytes i) →
    join t.toStr (s.split t.toStr) = s.bytes ∨
      join t.toStr (s.split t.toStr) ++ t.bytes = s.bytes

/-- What the code needs to be exact. -/
structure Searchable (s : Str) (c : UInt8) (t : Target) (r : Str) (start : ℕ) : Prop where
  /-- The last place of the character is not the first character of the text. -/
  char : ¬ IsGreatest {i | (start = 0 ∨ i ≤ start) ∧ s.bytes[i]? = some c} 0
  /-- Where all but the first character fit for the last time, the first one fits as well. -/
  text : t.getLength = 1 ∨ ∀ i, IsGreatest {i | (start = 0 ∨ i ≤ start) ∧
    OccursAt t.bytes.tail s.bytes (i + 1)} i → s.bytes[i]? = t.bytes[0]?
  /-- The builder has room for what stays and for what replaces. -/
  room : (∀ i, ¬ OccursAt t.bytes s.bytes i) ∨ r.isNull = false ∧
    Fits 0 0 ((parts t.bytes r.bytes s.bytes).map List.length)
  separator : (∃ i, OccursAt t.bytes s.bytes i) → t.getLength = 1

theorem split_iff {s : Str} {t : Target} (occurs : ∃ i, OccursAt t.bytes s.bytes i) :
    (join t.toStr (s.split t.toStr) = s.bytes ∨
      join t.toStr (s.split t.toStr) ++ t.bytes = s.bytes) ↔ t.getLength = 1 := by
  obtain ⟨i, there⟩ := occurs
  have positive : 0 < t.getLength := List.length_pos_iff.mpr t.nonempty
  have inside := there.add_length_le t.nonempty
  change i + t.getLength ≤ s.getLength at inside
  have notEmpty : ¬ s.isEmpty = true := by
    intro empty
    have zero := getLength_eq_zero_iff.mpr (isEmpty_iff.mp empty)
    omega
  rw [Str.split, if_neg notEmpty]
  constructor
  · intro joins
    by_contra several
    have found : s.indexOf t.toStr (0 : ℕ) ≠ none := by
      rw [indexOf_eq t.nonempty, Ne, findFrom_eq_none_iff t.nonempty]
      exact fun none => Set.eq_empty_iff_forall_notMem.mp none i ⟨Nat.zero_le i, there⟩
    have long := (@length_lt_join s t.toStr 0 (by omega) (by omega)).2 found
    rcases joins with same | same
    · have length := congrArg List.length same
      change _ = s.getLength at length
      omega
    · have length := congrArg List.length same
      rw [List.length_append] at length
      change _ = s.getLength at length
      omega
  · intro one
    exact @join_splitLoop s t.toStr 0 one

/-- The strings are searched, replaced and split as they should be in exactly these calls. -/
theorem exact_iff (s : Str) (c : UInt8) (t : Target) (r : Str) (start : ℕ) :
    Exact s c t r start ↔ Searchable s c t r start := by
  constructor
  · intro exact
    exact ⟨(lastIndexOfChar_iff s c start).mp exact.lastIndexOfChar,
      (lastIndexOf_iff t.nonempty start).mp exact.lastIndexOf,
      (replace_iff t.nonempty).mp exact.replace,
      fun occurs => (split_iff occurs).mp (exact.split occurs)⟩
  · intro searchable
    exact ⟨findsLeast_indexOfChar s c start, findsLeast_indexOf t.nonempty start,
      (lastIndexOfChar_iff s c start).mpr searchable.char,
      (lastIndexOf_iff t.nonempty start).mpr searchable.text,
      (replace_iff t.nonempty).mpr searchable.room,
      fun occurs => (split_iff occurs).mpr (searchable.separator occurs)⟩

/-- The last slash of `/a` is not found. -/
theorem misses_first_slash : ¬ ∀ s c t r start, Exact s c t r start := by
  intro all
  have exact := (all ⟨some [47, 97], by simp, by simp [maxSize]⟩ 47
    ⟨⟨some [97], by simp, by simp [maxSize]⟩, by simp [bytes]⟩ null 0).lastIndexOfChar
  refine (lastIndexOfChar_iff _ _ _).mp exact ⟨⟨.inl rfl, rfl⟩, ?_⟩
  rintro i ⟨-, here⟩
  rcases i with _ | _ | i
  · exact le_rfl
  · cases here
  · cases here

end Hdf.HdiGen.Str
