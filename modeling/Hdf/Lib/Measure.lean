import Mathlib.Data.Multiset.DershowitzManna
import Mathlib.Order.WellFounded

/-!
# Measures for loops that replace their work

A loop that takes an item from its work list and puts back finitely many items
of lower rank ends, because the ranks form a multiset that falls in the
Dershowitz–Manna order. This file has the lexicographic order that puts such a
multiset between a phase counter and two counters for the rounds in between.

## Main results

* `wellFounded_lower`
* `lower_of_replaced`: an item is replaced by items of lower rank
-/

namespace Hdf

/-- Phase, work, rounds and inner rounds, compared in this order. -/
abbrev Lower : ℕ × Multiset ℕ × ℕ × ℕ → ℕ × Multiset ℕ × ℕ × ℕ → Prop :=
  Prod.Lex (· < ·) (Prod.Lex Multiset.IsDershowitzMannaLT (Prod.Lex (· < ·) (· < ·)))

theorem wellFounded_lower : WellFounded Lower :=
  Nat.lt_wfRel.wf.prod_lex
    (Multiset.wellFounded_isDershowitzMannaLT.prod_lex (Nat.lt_wfRel.wf.prod_lex Nat.lt_wfRel.wf))

section

variable {phase phase' : ℕ} {work work' : Multiset ℕ} {rounds rounds' inner inner' : ℕ}

theorem isDershowitzMannaLT_of_lt (h : work' < work) : work'.IsDershowitzMannaLT work := by
  obtain ⟨rest, rfl⟩ := Multiset.le_iff_exists_add.mp h.le
  refine ⟨work', 0, rest, ?_, by simp, rfl, by simp⟩
  rintro rfl
  simp at h

theorem lower_of_phase (h : phase' < phase) :
    Lower (phase', work', rounds', inner') (phase, work, rounds, inner) := .left _ _ h

/-- Less work, or the same and something lower after it. -/
theorem lower_of_work_le {rest rest' : ℕ × ℕ} (less : work' ≤ work)
    (h : Prod.Lex (· < ·) (· < ·) rest' rest) :
    Lower (phase, work', rest') (phase, work, rest) := by
  rcases less.eq_or_lt with rfl | fewer
  · exact .right _ (.right _ h)
  · exact .right _ (.left _ _ (isDershowitzMannaLT_of_lt fewer))

theorem lower_of_rounds (less : work' ≤ work) (h : rounds' < rounds) :
    Lower (phase, work', rounds', inner') (phase, work, rounds, inner) :=
  lower_of_work_le less (.left _ _ h)

theorem lower_of_inner (h : inner' < inner) :
    Lower (phase, work, rounds, inner') (phase, work, rounds, inner) :=
  lower_of_work_le le_rfl (.right _ h)

theorem lower_of_work_lt (h : work' < work) :
    Lower (phase, work', rounds', inner') (phase, work, rounds, inner) :=
  .right _ (.left _ _ (isDershowitzMannaLT_of_lt h))

/-- An item of rank `r` is done. The work of lower rank, which did not count while
the item was being worked on, counts again. -/
theorem lower_of_replaced {r : ℕ} (before : work = (r ::ₘ work').filter (r ≤ ·)) :
    Lower (phase, work', rounds', inner') (phase, work, rounds, inner) := by
  refine .right _ (.left _ _ ⟨work'.filter (r ≤ ·), work'.filter fun x => ¬ r ≤ x, {r}, ?_,
    (Multiset.filter_add_not _ _).symm, ?_, ?_⟩)
  · exact Multiset.singleton_ne_zero r
  · rw [before, Multiset.filter_cons_of_pos _ le_rfl, add_comm, Multiset.singleton_add]
  · intro x member
    exact ⟨r, Multiset.mem_singleton_self r, not_le.mp (Multiset.mem_filter.mp member).2⟩

end

end Hdf
