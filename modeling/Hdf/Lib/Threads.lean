import Mathlib.Algebra.BigOperators.Group.List.Basic

/-!
# Threads in a list

A system of threads is a list with one entry for every thread, which says what the
thread does next. A step of a thread replaces its entry. A quantity that is summed
up over the threads changes by what the one thread contributes before and after.

## Main results

* `sum_map_set`, `countP_set_add`: sums and counts after a step
* `mem_set_cases`: the threads after a step
* `getElem?_set_iff`, `getElem?_append_singleton_iff`: the thread at a position
* `two_le_countP`: two threads count twice
-/

namespace Hdf.Threads

variable {α : Type*} {threads : List α} {i : ℕ} {before after x : α}

theorem sum_map_set {M : Type*} [AddCommMonoid M] (weight : α → M)
    (there : threads[i]? = some before) :
    ((threads.set i after).map weight).sum + weight before =
      (threads.map weight).sum + weight after := by
  induction threads generalizing i with
  | nil => cases there
  | cons first rest ih =>
    cases i with
    | zero =>
      obtain rfl := Option.some.inj there
      simp only [List.set_cons_zero, List.map_cons, List.sum_cons]
      rw [add_right_comm, add_comm (weight after), add_right_comm]
    | succ i =>
      simp only [List.set_cons_succ, List.map_cons, List.sum_cons]
      rw [add_assoc, ih there, add_assoc]

/-- What a thread counts for. -/
theorem countP_set_add (p : α → Bool) (after : α) (there : threads[i]? = some before) :
    (threads.set i after).countP p + (if p before then 1 else 0) =
      threads.countP p + if p after then 1 else 0 := by
  have sums (l : List α) : l.countP p = (l.map fun a => if p a then 1 else 0).sum := by
    induction l with
    | nil => rfl
    | cons first rest ih =>
      rw [List.countP_cons, ih, List.map_cons, List.sum_cons, add_comm]
  rw [sums, sums]
  exact sum_map_set (fun a => if p a then 1 else 0) there

theorem countP_set_same (p : α → Bool) (after : α) (there : threads[i]? = some before)
    (same : p after = p before) : (threads.set i after).countP p = threads.countP p := by
  have counts := countP_set_add p after there
  rw [same] at counts
  exact Nat.add_right_cancel counts

theorem countP_set_gain (p : α → Bool) (after : α) (there : threads[i]? = some before)
    (no : p before = false) (yes : p after = true) :
    (threads.set i after).countP p = threads.countP p + 1 := by
  have counts := countP_set_add p after there
  rw [no, yes] at counts
  exact counts

theorem countP_set_loss (p : α → Bool) (after : α) (there : threads[i]? = some before)
    (yes : p before = true) (no : p after = false) :
    (threads.set i after).countP p + 1 = threads.countP p := by
  have counts := countP_set_add p after there
  rw [no, yes] at counts
  exact counts

/-- A thread after a step is the one that has made it or was there before. -/
theorem mem_set_cases (member : x ∈ threads.set i after) : x = after ∨ x ∈ threads :=
  (List.mem_or_eq_of_mem_set member).symm

/-- What holds of the threads before a step and of the one that has made it. -/
theorem forall_mem_set {P : α → Prop} (old : ∀ x ∈ threads, P x) (new : P after) :
    ∀ x ∈ threads.set i after, P x := by
  intro x member
  rcases mem_set_cases member with rfl | before
  · exact new
  · exact old x before

theorem forall_mem_append_singleton {P : α → Prop} (old : ∀ x ∈ threads, P x) (new : P after) :
    ∀ x ∈ threads ++ [after], P x := by
  intro x member
  rcases List.mem_append.mp member with before | last
  · exact old x before
  · rw [List.mem_singleton.mp last]
    exact new

theorem countP_append_singleton (p : α → Bool) (new : α) :
    (threads ++ [new]).countP p = threads.countP p + if p new then 1 else 0 := by
  rw [List.countP_append, List.countP_singleton]

theorem getElem?_set_iff {j : ℕ} (there : threads[i]? = some before) :
    (threads.set i after)[j]? = some x ↔ j = i ∧ x = after ∨ j ≠ i ∧ threads[j]? = some x := by
  by_cases same : j = i
  · subst same
    rw [List.getElem?_set_self (List.getElem?_eq_some_iff.mp there).1]
    simp [eq_comm]
  · rw [List.getElem?_set_ne (Ne.symm same)]
    simp [same]

theorem getElem?_append_singleton_iff {new : α} :
    (threads ++ [new])[i]? = some x ↔ threads[i]? = some x ∨ i = threads.length ∧ x = new := by
  rw [List.getElem?_append]
  split
  · rename_i inside
    simp [Nat.ne_of_lt inside]
  · rename_i outside
    rw [List.getElem?_eq_none (Nat.not_lt.mp outside), List.getElem?_singleton]
    rcases Nat.eq_or_lt_of_le (Nat.not_lt.mp outside) with same | beyond
    · simp [same, eq_comm]
    · have late : i - threads.length ≠ 0 := by omega
      simp [late, Nat.ne_of_gt beyond]

/-- Two threads count twice. -/
theorem two_le_countP {p : α → Bool} {j : ℕ} {y : α} (there : threads[i]? = some x)
    (there' : threads[j]? = some y) (differs : i ≠ j) (counts : p x = true)
    (counts' : p y = true) : 2 ≤ threads.countP p := by
  induction threads generalizing i j with
  | nil => cases there
  | cons first rest ih =>
    rw [List.countP_cons]
    have one {k : ℕ} {z : α} (there : rest[k]? = some z) (counts : p z = true) :
        0 < rest.countP p :=
      List.countP_pos_iff.mpr ⟨z, List.mem_of_getElem? there, counts⟩
    match i, j with
    | 0, 0 => exact absurd rfl differs
    | 0, j + 1 =>
      obtain rfl := Option.some.inj there
      rw [if_pos counts]
      exact Nat.succ_le_succ (one there' counts')
    | i + 1, 0 =>
      obtain rfl := Option.some.inj there'
      rw [if_pos counts']
      exact Nat.succ_le_succ (one there counts)
    | i + 1, j + 1 =>
      exact Nat.le_trans (ih there there' fun same => differs (congrArg _ same))
        (Nat.le_add_right _ _)

end Hdf.Threads
