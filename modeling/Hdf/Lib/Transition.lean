import Mathlib.Logic.Relation
import Mathlib.Order.WellFounded

/-!
# Deterministic transition programs

A program is given by a step function on its states: a step either goes on to
another state or halts with a result. This file fixes what it means that a run
reaches a state, returns a result or never returns, and collects the rules the
verification uses: an invariant rule for reached states, a termination rule
from a well-founded measure, a divergence rule and the bounded evaluator that
makes returning decidable on examples.

## Main results

* `Steps.invariant`: a property kept by every step holds of every reached state
* `terminates_of_measure`: a measure that falls at every step bounds the run
* `not_terminates_of_invariant`: a property under which no step halts diverges
* `terminates_image_iff`: a run terminates when an image of it does
* `returns_of_run`: a run within a bound is a run
-/

namespace Hdf.Transition

/-- One step of a deterministic program. -/
inductive Step (σ ρ : Type*) where
  | next (state : σ)
  | halt (result : ρ)

variable {σ ρ β : Type*} {step : σ → Step σ ρ} {s t u : σ} {r r' : ρ}

/-- The states a run from `s` passes through. -/
abbrev Steps (step : σ → Step σ ρ) : σ → σ → Prop :=
  Relation.ReflTransGen fun s t => step s = .next t

/-- The run from `s` halts with `r`. -/
def Returns (step : σ → Step σ ρ) (s : σ) (r : ρ) : Prop :=
  ∃ t, Steps step s t ∧ step t = .halt r

/-- The run from `s` halts. -/
def Terminates (step : σ → Step σ ρ) (s : σ) : Prop := ∃ r, Returns step s r

/-- The result of the run from `s` when it halts within `bound` steps. -/
def run (step : σ → Step σ ρ) : ℕ → σ → Option ρ
  | 0, _ => none
  | bound + 1, s =>
    match step s with
    | .next t => run step bound t
    | .halt r => some r

theorem Returns.of_halt (h : step s = .halt r) : Returns step s r := ⟨s, .refl, h⟩

theorem Returns.of_steps (reached : Steps step s t) (h : Returns step t r) :
    Returns step s r := by
  obtain ⟨u, rest, halts⟩ := h
  exact ⟨u, reached.trans rest, halts⟩

/-- A property that every step keeps holds of every state a run reaches. -/
theorem Steps.invariant {I : σ → Prop} (keeps : ∀ s t, I s → step s = .next t → I t)
    (holds : I s) (reached : Steps step s t) : I t := by
  induction reached with
  | refl => exact holds
  | tail _ goes ih => exact keeps _ _ ih goes

/-- The invariant rule when the steps are only known to keep the property from
states that the run has reached. -/
theorem Steps.invariant_of_reached {I : σ → Prop}
    (keeps : ∀ t u, Steps step s t → I t → step t = .next u → I u)
    (holds : I s) (reached : Steps step s t) : I t := by
  induction reached with
  | refl => exact holds
  | tail prior goes ih => exact keeps _ _ prior ih goes

/-- A run is a single line of states: of two states it reaches, one comes first. -/
theorem Steps.total (first : Steps step s t) (second : Steps step s u) :
    Steps step t u ∨ Steps step u t := by
  apply Relation.ReflTransGen.total_of_right_unique _ first second
  intro a b c hab hac
  rw [hab] at hac
  exact Step.next.inj hac

/-- A state reached on the way to the result returns that result as well. -/
theorem Returns.of_reached (h : Returns step s r) (reached : Steps step s t) :
    Returns step t r := by
  obtain ⟨u, toHalt, halts⟩ := h
  rcases Steps.total reached toHalt with later | earlier
  · exact ⟨u, later, halts⟩
  · rcases earlier.cases_head with rfl | ⟨v, goes, _⟩
    · exact .of_halt halts
    · rw [halts] at goes
      cases goes

/-- The run halts when some measure of the reached states falls at every step. -/
theorem terminates_of_measure {lower : β → β → Prop} (wellFounded : WellFounded lower)
    (measure : σ → β) {I : σ → Prop} (holds : I s)
    (keeps : ∀ s t, I s → step s = .next t → I t)
    (falls : ∀ s t, I s → step s = .next t → lower (measure t) (measure s)) :
    Terminates step s := by
  generalize value : measure s = m
  induction m using wellFounded.induction generalizing s with
  | _ m ih =>
    cases stepped : step s with
    | halt r => exact ⟨r, .of_halt stepped⟩
    | next t =>
      obtain ⟨r, returns⟩ :=
        ih (measure t) (value ▸ falls s t holds stepped) (keeps s t holds stepped) rfl
      exact ⟨r, .of_steps (.single stepped) returns⟩

/-- The run never halts when no step halts in any state it can reach. -/
theorem not_terminates_of_invariant {I : σ → Prop} (holds : I s)
    (goes : ∀ s, I s → ∃ t, step s = .next t ∧ I t) : ¬ Terminates step s := by
  rintro ⟨r, t, reached, halts⟩
  have inv : I t := by
    refine Steps.invariant (fun s u hs stepped => ?_) holds reached
    obtain ⟨u', stepped', hu⟩ := goes s hs
    rw [stepped] at stepped'
    exact Step.next.inj stepped' ▸ hu
  obtain ⟨u, stepped, _⟩ := goes t inv
  rw [halts] at stepped
  cases stepped

theorem returns_of_run {bound : ℕ} (h : run step bound s = some r) : Returns step s r := by
  induction bound generalizing s with
  | zero => simp [run] at h
  | succ bound ih =>
    rw [run] at h
    split at h
    case h_1 t stepped => exact .of_steps (.single stepped) (ih h)
    case h_2 r' stepped => exact Option.some.inj h ▸ .of_halt stepped

/-- A run and its image, which steps and halts along with it, terminate together. -/
theorem terminates_image_iff {τ ρ' : Type*} {step' : τ → Step τ ρ'} (image : σ → τ)
    (goes : ∀ s t, step s = .next t → step' (image s) = .next (image t))
    (halts : ∀ s r, step s = .halt r → ∃ r', step' (image s) = .halt r') :
    Terminates step s ↔ Terminates step' (image s) := by
  constructor
  · rintro ⟨r, t, reached, halted⟩
    obtain ⟨r', halted'⟩ := halts t r halted
    exact ⟨r', image t, reached.lift image goes, halted'⟩
  · rintro ⟨r', u, reached, halted⟩
    generalize start : image s = first at reached
    induction reached using Relation.ReflTransGen.head_induction_on generalizing s with
    | refl =>
      subst start
      cases stepped : step s with
      | next t => cases (goes s t stepped).symm.trans halted
      | halt r => exact ⟨r, .of_halt stepped⟩
    | head going _ ih =>
      subst start
      cases stepped : step s with
      | next t =>
        obtain ⟨r, returns⟩ := ih (Step.next.inj ((goes s t stepped).symm.trans going))
        exact ⟨r, .of_steps (.single stepped) returns⟩
      | halt r => exact ⟨r, .of_halt stepped⟩

/-- The run from `s` halts within a number of steps, and every state on the way
passes the test. -/
def throughout (step : σ → Step σ ρ) (test : σ → Bool) : ℕ → σ → Bool
  | 0, _ => false
  | bound + 1, s =>
    test s &&
      match step s with
      | .next t => throughout step test bound t
      | .halt _ => true

/-- A test passed throughout a run is passed in every state it reaches. -/
theorem Steps.of_throughout {test : σ → Bool} {bound : ℕ}
    (h : throughout step test bound s = true) (reached : Steps step s t) : test t = true := by
  induction reached using Relation.ReflTransGen.head_induction_on generalizing bound with
  | refl =>
    cases bound with
    | zero => cases h
    | succ bound => exact (Bool.and_eq_true _ _ ▸ h : _ ∧ _).1
  | head goes _ ih =>
    cases bound with
    | zero => cases h
    | succ bound =>
      rw [throughout, goes, Bool.and_eq_true] at h
      exact ih h.2

/-- Some state that the run from `s` passes within a number of steps passes the test. -/
def comesTo (step : σ → Step σ ρ) (test : σ → Bool) : ℕ → σ → Bool
  | 0, _ => false
  | bound + 1, s =>
    test s ||
      match step s with
      | .next t => comesTo step test bound t
      | .halt _ => false

theorem exists_steps_of_comesTo {test : σ → Bool} {bound : ℕ}
    (h : comesTo step test bound s = true) : ∃ t, Steps step s t ∧ test t = true := by
  induction bound generalizing s with
  | zero => cases h
  | succ bound ih =>
    rw [comesTo, Bool.or_eq_true] at h
    rcases h with here | later
    · exact ⟨s, .refl, here⟩
    · split at later
      case h_1 t goes =>
        obtain ⟨u, steps, passes⟩ := ih later
        exact ⟨u, .head goes steps, passes⟩
      case h_2 => cases later

/-- A state that steps to itself is never left. -/
theorem not_returns_of_loop (reached : Steps step s t) (loops : step t = .next t) :
    ¬ Returns step s r := by
  intro returns
  refine not_terminates_of_invariant (I := (· = t)) rfl ?_ ⟨r, returns.of_reached reached⟩
  rintro _ rfl
  exact ⟨_, loops, rfl⟩

end Hdf.Transition
