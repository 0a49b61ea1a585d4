import Hdf.Lib.Acyclic
import Mathlib.Algebra.BigOperators.Group.List.Basic
import Mathlib.Data.BitVec

/-!
# Searching for end points without marks

A recursion follows the edges of a graph, stops at end points and counts in machine words how often
it comes to one. Nothing is marked, so that it does not end if there is a cycle.

## Main results

* `endSearch_mono`: a deeper recursion finds the same
* `endSearch_isSome_iff`: all searches end if and only if no cycle is followed
* `chains_pos_iff`: the number of chains is positive if an end point can be reached
-/

namespace Hdf

open Relation

variable {α : Type*} {w : ℕ}

/-- The sum of what is found at the vertices of a list. -/
def countAll (found : α → Option (BitVec w)) (count : BitVec w) : List α → Option (BitVec w)
  | [] => some count
  | a :: as => (found a).bind fun n => countAll found (count + n) as

variable (isEnd : α → Bool) (next : α → List α)

/-- The search from a vertex, if it takes less than the given depth. -/
def endSearch : ℕ → α → Option (BitVec w)
  | 0, _ => none
  | depth + 1, a => if isEnd a then some 1#w else countAll (endSearch depth) 0#w (next a)

/-- The search goes on from a vertex to another one. -/
def Passes (a b : α) : Prop := isEnd a = false ∧ b ∈ next a

/-- The number of chains from a vertex to an end point with at most the given number of vertices. -/
def chains : ℕ → α → ℕ
  | 0, _ => 0
  | n + 1, a => if isEnd a then 1 else ((next a).map (chains n)).sum

variable {isEnd next} {found found' : α → Option (BitVec w)} {as : List α} {a b : α}
  {n m : ℕ} {count v : BitVec w}

theorem countAll_mono (more : ∀ a ∈ as, ∀ v, found a = some v → found' a = some v)
    (done : countAll found count as = some v) : countAll found' count as = some v := by
  induction as generalizing count with
  | nil => exact done
  | cons a as ih =>
    obtain ⟨n, here, rest⟩ := Option.bind_eq_some_iff.mp done
    rw [countAll, more a List.mem_cons_self n here]
    exact ih (fun b member => more b (List.mem_cons_of_mem a member)) rest

theorem isSome_of_countAll (done : countAll found count as = some v) :
    ∀ a ∈ as, ∃ n, found a = some n := by
  induction as generalizing count with
  | nil => exact fun a member => absurd member List.not_mem_nil
  | cons a as ih =>
    obtain ⟨n, here, rest⟩ := Option.bind_eq_some_iff.mp done
    exact List.forall_mem_cons.mpr ⟨⟨n, here⟩, ih rest⟩

/-- The sum of numbers in words. -/
theorem countAll_eq {number : α → ℕ}
    (finds : ∀ a ∈ as, found a = some (BitVec.ofNat w (number a))) :
    countAll found count as = some (count + BitVec.ofNat w (as.map number).sum) := by
  induction as generalizing count with
  | nil => exact congrArg some (BitVec.add_zero count).symm
  | cons a as ih =>
    rw [List.forall_mem_cons] at finds
    rw [countAll, finds.1, Option.bind_some, ih finds.2, List.map_cons, List.sum_cons,
      BitVec.ofNat_add, BitVec.add_assoc]

/-- A deeper recursion finds the same. -/
theorem endSearch_mono (le : n ≤ m) (done : endSearch isEnd next n a = some v) :
    endSearch isEnd next m a = some v := by
  induction n generalizing a m v with
  | zero => cases done
  | succ n ih =>
    obtain ⟨m, rfl⟩ := Nat.exists_eq_add_one_of_ne_zero (Nat.ne_zero_of_lt le)
    rw [endSearch] at done ⊢
    split at done
    · rename_i ends
      rw [if_pos ends, done]
    · rename_i passes
      rw [if_neg passes]
      exact countAll_mono (fun b _ v here => ih (Nat.le_of_succ_le_succ le) here) done

/-- What is passed on the way has been found with less depth. -/
theorem exists_endSearch_of_transGen (done : endSearch isEnd next n a = some v)
    (passes : TransGen (Passes isEnd next) a b) :
    ∃ m < n, ∃ v : BitVec w, endSearch isEnd next m b = some v := by
  have one : ∀ {n a b} {v : BitVec w}, endSearch isEnd next n a = some v →
      Passes isEnd next a b → ∃ m < n, ∃ v : BitVec w, endSearch isEnd next m b = some v := by
    intro n a b v done passes
    cases n with
    | zero => cases done
    | succ n =>
      rw [endSearch, passes.1, if_neg Bool.false_ne_true] at done
      exact ⟨n, Nat.lt_succ_self n, isSome_of_countAll done b passes.2⟩
  induction passes with
  | single last => exact one done last
  | tail _ last ih =>
    obtain ⟨m, less, u, here⟩ := ih
    obtain ⟨k, less', found⟩ := one here last
    exact ⟨k, less'.trans less, found⟩

/-- No search ends that comes to a cycle. -/
theorem not_cycle_of_endSearch (done : endSearch isEnd next n a = some v) :
    ¬TransGen (Passes isEnd next) a a := by
  intro cycle
  induction n using Nat.strong_induction_on generalizing v with
  | _ n ih =>
    obtain ⟨m, less, u, again⟩ := exists_endSearch_of_transGen done cycle
    exact ih m less again

section Rank

variable {rank : α → ℕ} (falls : ∀ a b, Passes isEnd next a b → rank b < rank a)

include falls

theorem endSearch_of_rank (lt : rank a < n) :
    endSearch isEnd next n a = some (BitVec.ofNat w (chains isEnd next n a)) := by
  induction n generalizing a with
  | zero => cases lt
  | succ n ih =>
    rw [endSearch, chains]
    cases ends : isEnd a with
    | true => rfl
    | false =>
      have finds : ∀ b ∈ next a, endSearch isEnd next n b =
          some (BitVec.ofNat w (chains isEnd next n b)) := fun b member =>
        ih ((falls a b ⟨ends, member⟩).trans_le (Nat.le_of_lt_succ lt))
      rw [if_neg Bool.false_ne_true, if_neg Bool.false_ne_true, countAll_eq finds,
        BitVec.zero_add]

/-- The number of chains is positive if an end point can be reached. -/
theorem chains_pos_iff (lt : rank a < n) : 0 < chains isEnd next n a ↔
    ∃ e, isEnd e = true ∧ ReflTransGen (fun a b => b ∈ next a) a e := by
  induction n generalizing a with
  | zero => cases lt
  | succ n ih =>
    rw [chains]
    cases ends : isEnd a with
    | true => exact iff_of_true Nat.one_pos ⟨a, ends, .refl⟩
    | false =>
      rw [if_neg Bool.false_ne_true, List.sum_pos_iff_exists_pos_nat]
      have below (b : α) (member : b ∈ next a) : rank b < n :=
        (falls a b ⟨ends, member⟩).trans_le (Nat.le_of_lt_succ lt)
      constructor
      · rintro ⟨count, listed, positive⟩
        obtain ⟨b, member, rfl⟩ := List.mem_map.mp listed
        obtain ⟨e, is_end, walk⟩ := (ih (below b member)).mp positive
        exact ⟨e, is_end, .head member walk⟩
      · rintro ⟨e, is_end, walk⟩
        obtain rfl | ⟨b, member, walk⟩ := walk.cases_head
        · exact absurd (ends.symm.trans is_end) Bool.false_ne_true
        · exact ⟨_, List.mem_map_of_mem member, (ih (below b member)).mpr ⟨e, is_end, walk⟩⟩

end Rank

/-- The number of chains from each vertex is positive in words as well. -/
def ChainsFit (w : ℕ) (isEnd : α → Bool) (next : α → List α) (vertices : List α) : Prop :=
  ∀ a ∈ vertices, 0 < chains isEnd next vertices.length a →
    0 < (BitVec.ofNat w (chains isEnd next vertices.length a)).toInt

/-- All searches in a finite graph end, and what they find is positive if an end point can be
reached, exactly if no cycle is followed and the number of chains fits. -/
theorem endSearch_right_iff {vertices : List α} (inside : ∀ a, ∀ b ∈ next a, b ∈ vertices) :
    (∀ a ∈ vertices, ∃ n, ∃ v : BitVec w, endSearch isEnd next n a = some v ∧
      (0 < v.toInt ↔ ∃ e, isEnd e = true ∧ ReflTransGen (fun a b => b ∈ next a) a e)) ↔
    (∀ a ∈ vertices, ¬TransGen (Passes isEnd next) a a) ∧ ChainsFit w isEnd next vertices := by
  -- without a cycle, the number of the vertices bounds the depth
  have bounded (acyclic : ∀ a ∈ vertices, ¬TransGen (Passes isEnd next) a a) :
      ∃ rank : α → ℕ, (∀ a b, Passes isEnd next a b → rank b < rank a) ∧
        ∀ a ∈ vertices, rank a < vertices.length := by
    refine exists_rank_of_acyclic (fun a b passes => inside a b passes.2) fun a cycle => ?_
    obtain ⟨b, -, last⟩ := TransGen.tail'_iff.mp cycle
    exact acyclic a (inside b a last.2) cycle
  constructor
  · intro right
    have acyclic : ∀ a ∈ vertices, ¬TransGen (Passes isEnd next) a a := by
      intro a member
      obtain ⟨n, v, done, -⟩ := right a member
      exact not_cycle_of_endSearch done
    refine ⟨acyclic, fun a member positive => ?_⟩
    obtain ⟨rank, falls, below⟩ := bounded acyclic
    obtain ⟨n, v, done, means⟩ := right a member
    have whole := endSearch_of_rank (w := w) falls (below a member)
    have same := endSearch_mono (Nat.le_max_right n _) whole
    rw [endSearch_mono (Nat.le_max_left n _) done] at same
    rw [← Option.some.inj same]
    exact means.mpr ((chains_pos_iff falls (below a member)).mp positive)
  · rintro ⟨acyclic, fit⟩ a member
    obtain ⟨rank, falls, below⟩ := bounded acyclic
    refine ⟨_, _, endSearch_of_rank falls (below a member), ?_⟩
    rw [← chains_pos_iff falls (below a member)]
    refine ⟨fun positive => ?_, fit a member⟩
    by_contra none
    rw [Nat.eq_zero_of_not_pos none] at positive
    simp at positive

end Hdf
