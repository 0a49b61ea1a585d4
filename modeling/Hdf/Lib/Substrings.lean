import Mathlib.Data.List.Infix
import Mathlib.Data.List.Lemmas
import Mathlib.Order.Bounds.Defs
import Mathlib.Data.Nat.Notation

/-!
# Lists inside lists

Where a list occurs in another one, and what comes of replacing its occurrences from
left to right.

## Main results

* `findFrom_eq_some_iff`, `findFrom_eq_none_iff`: a search finds the least index
* `replaceAll_of_find`: what comes before the first occurrence stays
* `flatten_parts`: the parts are those of the list with the occurrences replaced
* `map_replaceAll_eq_iff`: when a map does not see the replacements
-/

namespace Hdf.Substrings

variable {α : Type*} [DecidableEq α] {t r s : List α} {i start : ℕ}

/-- The first list stands in the second one at an index. -/
def OccursAt (t s : List α) (i : ℕ) : Prop := t <+: s.drop i

/-- The index of the first occurrence. -/
def find (t : List α) : List α → Option ℕ
  | [] => if t = [] then some 0 else none
  | c :: rest => if t <+: c :: rest then some 0 else (find t rest).map (· + 1)

/-- The index of the first occurrence at or after an index. -/
def findFrom (t s : List α) (start : ℕ) : Option ℕ := (find t (s.drop start)).map (· + start)

omit [DecidableEq α] in
theorem OccursAt.add_length_le (occurs : OccursAt t s i) (nonempty : t ≠ []) :
    i + t.length ≤ s.length := by
  have short := List.IsPrefix.length_le occurs
  have positive : 0 < t.length := List.length_pos_iff.mpr nonempty
  rw [List.length_drop] at short
  omega

omit [DecidableEq α] in
theorem occursAt_iff_getElem? :
    OccursAt t s i ↔ ∀ k < t.length, s[i + k]? = t[k]? := by
  rw [OccursAt, List.prefix_iff_getElem?]
  simp only [List.getElem?_drop]
  constructor
  · intro same k inside
    rw [same k inside, List.getElem?_eq_getElem inside]
  · intro same k inside
    rw [same k inside, List.getElem?_eq_getElem inside]

theorem find_eq_some_iff (nonempty : t ≠ []) :
    find t s = some i ↔ OccursAt t s i ∧ ∀ j < i, ¬ OccursAt t s j := by
  induction s generalizing i with
  | nil =>
    refine iff_of_false (by simp [find, nonempty]) fun ⟨occurs, _⟩ => ?_
    have short := occurs.add_length_le nonempty
    have positive : 0 < t.length := List.length_pos_iff.mpr nonempty
    rw [List.length_nil] at short
    omega
  | cons c rest ih =>
    rw [find]
    split
    · rename_i here
      rw [Option.some.injEq]
      constructor
      · rintro rfl
        exact ⟨here, fun j low => absurd low (Nat.not_lt_zero j)⟩
      · rintro ⟨-, first⟩
        by_contra later
        exact first 0 (by omega) here
    · rename_i there
      cases i with
      | zero =>
        refine iff_of_false (by simp) fun ⟨occurs, _⟩ => there occurs
      | succ i =>
        simp only [Option.map_eq_some_iff, Nat.add_right_cancel_iff, exists_eq_right, ih]
        refine and_congr Iff.rfl ⟨fun first j low => ?_, fun first j low => ?_⟩
        · cases j with
          | zero => exact there
          | succ j => exact first j (by omega)
        · exact first (j + 1) (by omega)

theorem find_eq_none_iff (nonempty : t ≠ []) : find t s = none ↔ ∀ i, ¬ OccursAt t s i := by
  constructor
  · intro none i
    induction i using Nat.strong_induction_on with
    | _ i ih =>
      intro occurs
      have found := (find_eq_some_iff nonempty).mpr ⟨occurs, ih⟩
      rw [none] at found
      cases found
  · intro never
    rw [Option.eq_none_iff_forall_ne_some]
    intro i found
    exact never i ((find_eq_some_iff nonempty).mp found).1

omit [DecidableEq α] in
theorem occursAt_drop {j : ℕ} : OccursAt t (s.drop start) j ↔ OccursAt t s (start + j) := by
  rw [OccursAt, OccursAt, List.drop_drop]

theorem findFrom_eq_some_iff (nonempty : t ≠ []) :
    findFrom t s start = some i ↔ IsLeast {i | start ≤ i ∧ OccursAt t s i} i := by
  simp only [findFrom, Option.map_eq_some_iff, find_eq_some_iff nonempty, occursAt_drop]
  constructor
  · rintro ⟨j, ⟨occurs, first⟩, rfl⟩
    refine ⟨⟨by omega, by rwa [Nat.add_comm]⟩, ?_⟩
    rintro k ⟨low, there⟩
    by_contra before
    exact first (k - start) (by omega) (by rwa [Nat.add_sub_cancel' low])
  · rintro ⟨⟨low, occurs⟩, first⟩
    refine ⟨i - start, ⟨by rwa [Nat.add_sub_cancel' low], fun j before there => ?_⟩, by omega⟩
    have least : i ≤ start + j := first ⟨by omega, there⟩
    omega

theorem findFrom_eq_none_iff (nonempty : t ≠ []) :
    findFrom t s start = none ↔ {i | start ≤ i ∧ OccursAt t s i} = ∅ := by
  simp only [findFrom, Option.map_eq_none_iff, find_eq_none_iff nonempty, occursAt_drop,
    Set.eq_empty_iff_forall_notMem, Set.mem_ofPred_eq, not_and]
  constructor
  · intro never i low
    have there := never (i - start)
    rwa [Nat.add_sub_cancel' low] at there
  · intro never j
    exact never (start + j) (by omega)

theorem drop_length_lt (nonempty : t ≠ []) (found : find t s = some i) :
    (s.drop (i + t.length)).length < s.length := by
  have inside := ((find_eq_some_iff nonempty).mp found).1.add_length_le nonempty
  have positive : 0 < t.length := List.length_pos_iff.mpr nonempty
  rw [List.length_drop]
  omega

/-! ### Replacing -/

/-- The occurrences of `t` replaced by `r`, from left to right, none inside another. -/
def replaceAll (t r : List α) : List α → List α
  | [] => []
  | c :: rest =>
    if t <+: c :: rest then r ++ replaceAll t r (rest.drop (t.length - 1))
    else c :: replaceAll t r rest
termination_by s => s.length
decreasing_by
  · rw [List.length_drop, List.length_cons]
    omega
  · exact Nat.lt_succ_self _

/-- The parts of a list with the occurrences replaced: what stays, and the replacements. -/
def parts (t r s : List α) : List (List α) :=
  if _empty : t = [] then [s]
  else
    match _found : find t s with
    | none => [s]
    | some i => s.take i :: r :: parts t r (s.drop (i + t.length))
termination_by s.length
decreasing_by
  exact drop_length_lt _empty _found

theorem replaceAll_of_find_none (never : find t s = none) :
    replaceAll t r s = s := by
  induction s with
  | nil => rw [replaceAll]
  | cons c rest ih =>
    rw [find] at never
    split at never
    · cases never
    · rename_i there
      rw [replaceAll, if_neg there, ih (Option.map_eq_none_iff.mp never)]

theorem replaceAll_of_find (nonempty : t ≠ []) (found : find t s = some i) :
    replaceAll t r s = s.take i ++ r ++ replaceAll t r (s.drop (i + t.length)) := by
  have positive : 0 < t.length := List.length_pos_iff.mpr nonempty
  induction s generalizing i with
  | nil => simp [find, nonempty] at found
  | cons c rest ih =>
    rw [find] at found
    split at found
    · rename_i here
      cases found
      have past : (c :: rest).drop (0 + t.length) = rest.drop (t.length - 1) := by
        rw [Nat.zero_add, ← Nat.sub_add_cancel positive, List.drop_succ_cons,
          Nat.sub_add_cancel positive]
      rw [replaceAll, if_pos here, past, List.take_zero, List.nil_append]
    · rename_i there
      obtain ⟨j, later, rfl⟩ := Option.map_eq_some_iff.mp found
      have past : (c :: rest).drop (j + 1 + t.length) = rest.drop (j + t.length) := by
        rw [Nat.add_right_comm, List.drop_succ_cons]
      rw [replaceAll, if_neg there, ih later, past]
      rfl

theorem replaceAll_append (nonempty : t ≠ []) :
    replaceAll t r (t ++ s) = r ++ replaceAll t r s := by
  have found : find t (t ++ s) = some 0 :=
    (find_eq_some_iff nonempty).mpr ⟨List.prefix_append t s, fun j low => absurd low j.not_lt_zero⟩
  rw [replaceAll_of_find nonempty found, Nat.zero_add, List.drop_left]
  rfl

theorem parts_of_find_none (nonempty : t ≠ []) (never : find t s = none) : parts t r s = [s] := by
  rw [parts, dif_neg nonempty]
  split
  · rfl
  · rename_i found
    rw [never] at found
    cases found

theorem parts_of_find (nonempty : t ≠ []) (found : find t s = some i) :
    parts t r s = s.take i :: r :: parts t r (s.drop (i + t.length)) := by
  rw [parts, dif_neg nonempty]
  split
  · rename_i never
    rw [never] at found
    cases found
  · rename_i j same
    cases Option.some.inj (same.symm.trans found)
    rfl

theorem flatten_parts (nonempty : t ≠ []) : (parts t r s).flatten = replaceAll t r s := by
  induction h : s.length using Nat.strong_induction_on generalizing s with
  | _ length ih =>
    cases found : find t s with
    | none =>
      rw [parts_of_find_none nonempty found, replaceAll_of_find_none found,
        List.flatten_singleton]
    | some i =>
      rw [parts_of_find nonempty found, replaceAll_of_find nonempty found, List.flatten_cons,
        List.flatten_cons, ih _ (h ▸ drop_length_lt nonempty found) rfl, List.append_assoc]

/-! ### What replacing does to the length -/

theorem length_replaceAll_le (nonempty : t ≠ []) (short : r.length ≤ t.length) :
    (replaceAll t r s).length ≤ s.length := by
  induction h : s.length using Nat.strong_induction_on generalizing s with
  | _ length ih =>
    cases found : find t s with
    | none => exact (congrArg List.length (replaceAll_of_find_none found)).trans_le h.le
    | some i =>
      have rest := ih _ (h ▸ drop_length_lt nonempty found) rfl
      have inside := ((find_eq_some_iff nonempty).mp found).1.add_length_le nonempty
      rw [replaceAll_of_find nonempty found, List.length_append, List.length_append,
        List.length_take]
      rw [List.length_drop] at rest
      omega

theorem length_le_replaceAll (nonempty : t ≠ []) (long : t.length ≤ r.length) :
    s.length ≤ (replaceAll t r s).length := by
  induction h : s.length using Nat.strong_induction_on generalizing s with
  | _ length ih =>
    cases found : find t s with
    | none => exact h.ge.trans_eq (congrArg List.length (replaceAll_of_find_none found)).symm
    | some i =>
      have rest := ih _ (h ▸ drop_length_lt nonempty found) rfl
      have inside := ((find_eq_some_iff nonempty).mp found).1.add_length_le nonempty
      rw [replaceAll_of_find nonempty found, List.length_append, List.length_append,
        List.length_take]
      rw [List.length_drop] at rest
      omega

/-- The length stays the same only where nothing is replaced, or by a text of that length. -/
theorem length_replaceAll_eq (nonempty : t ≠ []) (found : find t s = some i)
    (same : (replaceAll t r s).length = s.length) : r.length = t.length := by
  have inside := ((find_eq_some_iff nonempty).mp found).1.add_length_le nonempty
  rw [replaceAll_of_find nonempty found, List.length_append, List.length_append,
    List.length_take] at same
  rcases Nat.lt_trichotomy r.length t.length with short | equal | long
  · have rest := @length_replaceAll_le _ _ t r (s.drop (i + t.length)) nonempty short.le
    rw [List.length_drop] at rest
    omega
  · exact equal
  · have rest := @length_le_replaceAll _ _ t r (s.drop (i + t.length)) nonempty long.le
    rw [List.length_drop] at rest
    omega

omit [DecidableEq α] in
theorem OccursAt.split (occurs : OccursAt t s i) :
    s = s.take i ++ t ++ s.drop (i + t.length) := by
  obtain ⟨behind, same⟩ := occurs
  rw [← List.drop_drop, ← same, List.drop_left, List.append_assoc, same, List.take_append_drop]

/-- What a map makes of a list stays the same just where nothing is replaced, or by what
the map does not tell apart. -/
theorem map_replaceAll_eq_iff {β : Type*} {f : α → β} (nonempty : t ≠ []) :
    (replaceAll t r s).map f = s.map f ↔ (∀ i, ¬ OccursAt t s i) ∨ r.map f = t.map f := by
  induction h : s.length using Nat.strong_induction_on generalizing s with
  | _ length ih =>
    cases found : find t s with
    | none =>
      refine iff_of_true ?_ (.inl ((find_eq_none_iff nonempty).mp found))
      rw [replaceAll_of_find_none found]
    | some i =>
      have occurs := ((find_eq_some_iff nonempty).mp found).1
      have rest := @ih _ (h ▸ drop_length_lt nonempty found) (s.drop (i + t.length)) rfl
      rw [or_iff_right fun never => never i occurs]
      constructor
      · intro same
        have lengths := congrArg List.length same
        rw [List.length_map, List.length_map] at lengths
        have equal := length_replaceAll_eq nonempty found lengths
        rw [replaceAll_of_find nonempty found, congrArg (List.map f) occurs.split] at same
        simp only [List.map_append] at same
        have front := (List.append_inj same (by simp [equal])).1
        exact (List.append_inj front rfl).2
      · intro equal
        rw [replaceAll_of_find nonempty found, congrArg (List.map f) occurs.split]
        simp only [List.map_append, equal, rest.mpr (.inr equal)]

end Hdf.Substrings
