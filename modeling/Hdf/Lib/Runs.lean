import Mathlib.Data.List.Basic

/-!
# Sequences of calls

A component that is called from outside is given by a step function: a call takes
a state to the next one, or has no result where the code's behaviour is undefined
or the call is not possible. A run is a sequence of calls, each made in the state
that the one before it has left.

## Main results

* `runs_append`: runs one after the other
* `runs_invariant`: a property that calls keep holds after every run
* `exists_runs`: calls that have a result run to the end
* `runs_iff_meets`: the runs that keep a property are those whose calls meet a condition
-/

namespace Hdf

variable {σ κ : Type*} {step : κ → σ → Option σ} {condition condition' : κ → σ → Prop}
  {s t u : σ} {calls calls' : List κ}

/-- The state after a sequence of calls. -/
def runs (step : κ → σ → Option σ) (s : σ) : List κ → Option σ
  | [] => some s
  | call :: calls => (step call s).bind fun t => runs step t calls

/-- Every call of a run meets a condition in the state it is made in. -/
def Meets (step : κ → σ → Option σ) (condition : κ → σ → Prop) (s : σ) : List κ → Prop
  | [] => True
  | call :: calls => condition call s ∧ ∀ t ∈ step call s, Meets step condition t calls

instance [∀ call s, Decidable (condition call s)] :
    Decidable (Meets step condition s calls) := by
  induction calls generalizing s with
  | nil => exact .isTrue trivial
  | cons call calls ih =>
    rw [Meets]
    infer_instance

theorem runs_cons {call : κ} :
    runs step s (call :: calls) = (step call s).bind fun t => runs step t calls := rfl

theorem runs_append :
    runs step s (calls ++ calls') = (runs step s calls).bind fun t => runs step t calls' := by
  induction calls generalizing s with
  | nil => rfl
  | cons call calls ih =>
    rw [List.cons_append, runs_cons, runs_cons, Option.bind_assoc]
    congr 1
    funext t
    exact ih

theorem runs_singleton {call : κ} : runs step s [call] = step call s := by
  rw [runs_cons]
  cases step call s <;> rfl

theorem Meets.mono (weaker : ∀ call s, condition call s → condition' call s)
    (meets : Meets step condition s calls) : Meets step condition' s calls := by
  induction calls generalizing s with
  | nil => trivial
  | cons call calls ih =>
    exact ⟨weaker call s meets.1, fun t stepped => ih (meets.2 t stepped)⟩

theorem meets_of_forall {P : κ → Prop} (all : ∀ call ∈ calls, P call) :
    Meets step (fun call _ => P call) s calls := by
  induction calls generalizing s with
  | nil => trivial
  | cons call calls ih =>
    rw [List.forall_mem_cons] at all
    exact ⟨all.1, fun _ _ => ih all.2⟩

theorem Meets.and (first : Meets step condition s calls)
    (second : Meets step condition' s calls) :
    Meets step (fun call s => condition call s ∧ condition' call s) s calls := by
  induction calls generalizing s with
  | nil => trivial
  | cons call calls ih =>
    exact ⟨⟨first.1, second.1⟩, fun t stepped => ih (first.2 t stepped) (second.2 t stepped)⟩

/-- A property that the calls keep holds after every run whose calls meet a condition. -/
theorem runs_invariant {I : σ → Prop}
    (keeps : ∀ call s t, I s → condition call s → step call s = some t → I t)
    (holds : I s) (meets : Meets step condition s calls) (ran : runs step s calls = some t) :
    I t := by
  induction calls generalizing s with
  | nil => exact Option.some.inj ran ▸ holds
  | cons call calls ih =>
    obtain ⟨u, stepped, rest⟩ := Option.bind_eq_some_iff.mp ran
    exact ih (keeps call s u holds meets.1 stepped) (meets.2 u stepped) rest

/-- Calls that have a result and keep a property run to the end. -/
theorem exists_runs {I : σ → Prop}
    (makes : ∀ call s, I s → condition call s → ∃ t, step call s = some t ∧ I t)
    (holds : I s) (meets : Meets step condition s calls) :
    ∃ t, runs step s calls = some t ∧ I t := by
  induction calls generalizing s with
  | nil => exact ⟨s, rfl, holds⟩
  | cons call calls ih =>
    obtain ⟨u, stepped, holds'⟩ := makes call s holds meets.1
    obtain ⟨t, ran, holds''⟩ := ih holds' (meets.2 u stepped)
    exact ⟨t, by rw [runs_cons, stepped, Option.bind_some, ran], holds''⟩

/-- Calls of one kind that count a rank down, which no other call raises, are not more than the
rank. -/
theorem rank_add_countP_le {I : σ → Prop} {rank : σ → ℕ} {mine : κ → Bool}
    (keeps : ∀ call s t, I s → condition call s → step call s = some t →
      I t ∧ rank t + (if mine call then 1 else 0) ≤ rank s)
    (holds : I s) (meets : Meets step condition s calls) (ran : runs step s calls = some t) :
    rank t + calls.countP mine ≤ rank s := by
  induction calls generalizing s with
  | nil =>
    obtain rfl := Option.some.inj ran
    exact Nat.le_refl _
  | cons call calls ih =>
    obtain ⟨u, stepped, rest⟩ := Option.bind_eq_some_iff.mp ran
    obtain ⟨holds', lower⟩ := keeps call s u holds meets.1 stepped
    have later := ih holds' (meets.2 u stepped) rest
    rw [List.countP_cons]
    omega

/-- A property of the past that holds as long as the calls meet a condition, and is lost
for good with the first call that does not. -/
theorem runs_iff_meets {I P : σ → Prop}
    (keeps : ∀ call s t, I s → step call s = some t → condition call s → I t ∧ (P s → P t))
    (breaks : ∀ call s t, I s → step call s = some t → ¬ condition call s → ¬ P t)
    (stays : ∀ call s t, step call s = some t → ¬ P s → ¬ P t)
    (holds : I s) (ran : runs step s calls = some t) :
    P t ↔ P s ∧ Meets step condition s calls := by
  induction calls generalizing s with
  | nil =>
    cases ran
    simp [Meets]
  | cons call calls ih =>
    obtain ⟨u, stepped, rest⟩ := Option.bind_eq_some_iff.mp ran
    have lost {u : σ} (ran : runs step u calls = some t) (bad : ¬ P u) : ¬ P t :=
      runs_invariant (I := fun u => ¬ P u)
        (fun call s t bad _ stepped => stays call s t stepped bad) bad
        (meets_of_forall (P := fun _ => True) fun _ _ => trivial) ran
    rw [Meets, stepped]
    simp only [Option.mem_def, Option.some.injEq, forall_eq']
    by_cases met : condition call s
    · obtain ⟨kept, good⟩ := keeps call s u holds stepped met
      rw [ih kept rest]
      have old : P u → P s := fun good => by_contra fun bad => stays call s u stepped bad good
      exact ⟨fun ⟨now, later⟩ => ⟨old now, met, later⟩, fun ⟨now, _, later⟩ => ⟨good now, later⟩⟩
    · exact iff_of_false (lost rest (breaks call s u holds stepped met)) fun both => met both.2.1

end Hdf
