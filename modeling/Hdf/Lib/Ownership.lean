import Mathlib.Data.Set.Insert
import Mathlib.Logic.Function.Basic

/-!
# Owners of allocated objects

Objects are numbered in the order of their allocation. An object that has been
allocated is held by one of several parties, or stands in a shared place with room
for one, or nobody has it any more. The places of the objects are a function of the
number, so that nothing has two owners.

## Main results

* `Owns.allocates`, `Owns.shares`, `Owns.takes`, `Owns.letsGo`: an object changes its place
-/

namespace Hdf

/-- Where an object is. -/
inductive Place (ι : Type*) where
  | absent
  | held (i : ι)
  | shared
  | loose

/-- Every object is where the parties and the shared place say. -/
structure Owns {ι : Type*} (holds : ι → Option ℕ) (shared : Option ℕ) (allocated : ℕ)
    (place : ℕ → Place ι) : Prop where
  held : ∀ i r, holds i = some r ↔ place r = .held i
  shared : ∀ r, shared = some r ↔ place r = .shared
  absent : ∀ r, allocated ≤ r ↔ place r = .absent

namespace Owns

variable {ι : Type*} [DecidableEq ι] {holds : ι → Option ℕ} {shared : Option ℕ}
  {allocated r : ℕ} {place : ℕ → Place ι} {i : ι}

omit [DecidableEq ι] in
/-- Nobody has an object that is loose. -/
theorem loose_iff (owns : Owns holds shared allocated place) :
    place r = .loose ↔ r < allocated ∧ shared ≠ some r ∧ ∀ i, holds i ≠ some r := by
  simp only [ne_eq, owns.held, owns.shared, ← Nat.not_le, owns.absent]
  cases place r <;> simp

/-- A party allocates an object. -/
theorem allocates (owns : Owns holds shared allocated place) (free : holds i = none) :
    Owns (Function.update holds i (some allocated)) shared (allocated + 1)
      (Function.update place allocated (.held i)) := by
  have new := (owns.absent allocated).mp le_rfl
  constructor
  · intro j r
    have before := owns.held j r
    grind [Function.update_apply]
  · intro r
    have before := owns.shared r
    grind [Function.update_apply]
  · intro r
    have before := owns.absent r
    grind [Function.update_apply]

/-- A party puts its object in the shared place. -/
theorem shares (owns : Owns holds none allocated place) (has : holds i = some r) :
    Owns (Function.update holds i none) (some r) allocated
      (Function.update place r .shared) := by
  have here := (owns.held i r).mp has
  constructor
  · intro j q
    have before := owns.held j q
    grind [Function.update_apply]
  · intro q
    have before := owns.shared q
    grind [Function.update_apply]
  · intro q
    have before := owns.absent q
    grind [Function.update_apply]

/-- A party takes the object out of the shared place. -/
theorem takes (owns : Owns holds (some r) allocated place) (free : holds i = none) :
    Owns (Function.update holds i (some r)) none allocated
      (Function.update place r (.held i)) := by
  have here := (owns.shared r).mp rfl
  constructor
  · intro j q
    have before := owns.held j q
    grind [Function.update_apply]
  · intro q
    have before := owns.shared q
    grind [Function.update_apply]
  · intro q
    have before := owns.absent q
    grind [Function.update_apply]

/-- A party lets go of its object. -/
theorem letsGo (owns : Owns holds shared allocated place) (has : holds i = some r) :
    Owns (Function.update holds i none) shared allocated (Function.update place r .loose) := by
  have here := (owns.held i r).mp has
  constructor
  · intro j q
    have before := owns.held j q
    grind [Function.update_apply]
  · intro q
    have before := owns.shared q
    grind [Function.update_apply]
  · intro q
    have before := owns.absent q
    grind [Function.update_apply]

end Owns

end Hdf
