import Mathlib.Logic.Function.Iterate

/-!
# Walks that stop

From every place one goes to one next place, until a place where one stops.

## Main results

* `exists_walksTo_iff`: a walk ends exactly when some later place is a stop
* `WalksTo.unique`: a walk is determined by its first place
-/

namespace Hdf

variable {α : Type*} {next : α → α} {stops : α → Prop} {a : α} {places others : List α}

/-- From a place on, the walk goes through some places and then comes to a stop. -/
inductive WalksTo (next : α → α) (stops : α → Prop) : α → List α → Prop
  | stop {a : α} : stops a → WalksTo next stops a []
  | go {a : α} {places : List α} : ¬ stops a → WalksTo next stops (next a) places →
      WalksTo next stops a (a :: places)

theorem WalksTo.exists_stops (walk : WalksTo next stops a places) :
    ∃ k, stops (next^[k] a) := by
  induction walk with
  | stop here => exact ⟨0, here⟩
  | go _ _ ih =>
    obtain ⟨k, later⟩ := ih
    exact ⟨k + 1, later⟩

theorem exists_walksTo_iff : (∃ places, WalksTo next stops a places) ↔ ∃ k, stops (next^[k] a) := by
  constructor
  · rintro ⟨places, walk⟩
    exact walk.exists_stops
  · rintro ⟨k, later⟩
    induction k generalizing a with
    | zero => exact ⟨[], .stop later⟩
    | succ k ih =>
      by_cases here : stops a
      · exact ⟨[], .stop here⟩
      · obtain ⟨places, walk⟩ := ih later
        exact ⟨a :: places, .go here walk⟩

theorem WalksTo.unique (walk : WalksTo next stops a places)
    (other : WalksTo next stops a others) : places = others := by
  induction walk generalizing others with
  | stop here =>
    cases other with
    | stop _ => rfl
    | go goes _ => exact absurd here goes
  | go goes _ ih =>
    cases other with
    | stop here => exact absurd here goes
    | go _ rest => exact congrArg _ (ih rest)

end Hdf
