import Mathlib.Data.List.Basic
import Mathlib.Logic.Relation

/-!
# Loops that put something out

A loop is given by what one turn of it does: the turn puts something out and then ends
the loop with a result, or goes on from another state. A loop need not end, so its
output is that of any number of turns.

## Main results

* `forall_mem_outputs_iff`: the output has a property exactly if that of every turn has it
* `forall_mem_outputs`: an invariant of the turns gives a property of the output
-/

namespace Hdf

open Relation

/-- What one turn of a loop does. -/
inductive Turn (σ ω ρ : Type*) where
  | ends (out : List ω) (result : ρ)
  | goes (out : List ω) (next : σ)

namespace Turn

variable {σ ω ρ : Type*}

/-- What a turn puts out. -/
def out : Turn σ ω ρ → List ω
  | ends out _ | goes out _ => out

variable (turn : σ → Turn σ ω ρ)

/-- What a number of turns put out, and the result if the loop has ended. -/
def outputs : ℕ → σ → List ω × Option ρ
  | 0, _ => ([], none)
  | n + 1, s =>
    match turn s with
    | ends out result => (out, some result)
    | goes out t => (out ++ (outputs n t).1, (outputs n t).2)

/-- A turn goes on from one state with another one. -/
def GoesOn (s t : σ) : Prop := ∃ out, turn s = goes out t

variable {turn} {s t : σ} {P : ω → Prop} {n : ℕ}

/-- What is put out comes from the first turn or from the later ones. -/
theorem mem_outputs_succ {o : ω} : o ∈ (outputs turn (n + 1) s).1 ↔
    o ∈ (turn s).out ∨ ∃ t, GoesOn turn s t ∧ o ∈ (outputs turn n t).1 := by
  rw [outputs]
  cases here : turn s with
  | ends out result => simp [Turn.out, GoesOn, here]
  | goes out t => simp [Turn.out, GoesOn, here, List.mem_append]

/-- The output has a property exactly if that of every turn has it. -/
theorem forall_mem_outputs_iff : (∀ n, ∀ o ∈ (outputs turn n s).1, P o) ↔
    ∀ t, ReflTransGen (GoesOn turn) s t → ∀ o ∈ (turn t).out, P o := by
  constructor
  · intro all t reached
    induction reached using ReflTransGen.head_induction_on with
    | refl => exact fun o there => all 1 o (mem_outputs_succ.mpr (.inl there))
    | head first _ ih =>
      exact ih fun n o there => all (n + 1) o (mem_outputs_succ.mpr (.inr ⟨_, first, there⟩))
  · intro all n
    induction n generalizing s with
    | zero => exact fun o there => absurd there List.not_mem_nil
    | succ n ih =>
      intro o there
      obtain here | ⟨t, first, there⟩ := mem_outputs_succ.mp there
      · exact all s .refl o here
      · exact ih (fun u reached => all u (.head first reached)) o there

/-- An invariant of the turns gives a property of the output. -/
theorem forall_mem_outputs {I : σ → Prop} (keeps : ∀ s t, I s → GoesOn turn s t → I t)
    (fine : ∀ s, I s → ∀ o ∈ (turn s).out, P o) (holds : I s) (n : ℕ) :
    ∀ o ∈ (outputs turn n s).1, P o := by
  refine forall_mem_outputs_iff.mpr (fun t reached => fine t ?_) n
  induction reached with
  | refl => exact holds
  | tail _ last ih => exact keeps _ _ ih last

end Turn

end Hdf
