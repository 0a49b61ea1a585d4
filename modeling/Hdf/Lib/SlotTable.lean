import Mathlib.Data.List.ReduceOption
import Mathlib.Data.List.Perm.Basic

/-!
# Tables with holes

A table of slots, some of which are holes. An element goes into a hole, or leaves a
hole where it was.

## Main results

* `live_place`: putting an element into a hole adds it
* `live_clear`: clearing takes one copy of an element out
* `holesBefore_place`: an element in the first hole leaves one hole less in front of the slots
  behind it
* `inOrder_tail`, `inOrder_place`: what is left is in order
-/

namespace Hdf.SlotTable

variable {α : Type*} {slots : List (Option α)} {a b : α} {i : ℕ}

/-- The elements of a table. -/
def live (slots : List (Option α)) : List α := slots.reduceOption

/-- Puts an element into a slot. -/
def place (a : α) (i : ℕ) (slots : List (Option α)) : List (Option α) := slots.set i (some a)

/-- Makes a hole of the first slot with an element. -/
def clear [DecidableEq α] (a : α) (slots : List (Option α)) : List (Option α) :=
  slots.set (slots.findIdx fun slot => slot = some a) none

/-- The number of holes in front of a slot. -/
def holesBefore (i : ℕ) (slots : List (Option α)) : ℕ := (slots.take i).countP Option.isNone

@[simp] theorem mem_live : a ∈ live slots ↔ some a ∈ slots := List.reduceOption_mem_iff

theorem live_cons_none : live (none :: slots) = live slots := rfl

theorem live_cons_some : live (some a :: slots) = a :: live slots := rfl

theorem live_append (front back : List (Option α)) :
    live (front ++ back) = live front ++ live back :=
  List.reduceOption_append front back

theorem live_replicate (n : ℕ) : live (List.replicate n (none : Option α)) = [] :=
  List.reduceOption_replicate_none

/-- An element that goes into a hole is added. -/
theorem live_place (hole : slots[i]? = some none) :
    (live (place a i slots)).Perm (a :: live slots) := by
  induction slots generalizing i with
  | nil => cases hole
  | cons slot slots ih =>
    cases i with
    | zero =>
      cases hole
      exact .refl _
    | succ i =>
      have later := ih (i := i) hole
      cases slot with
      | none => exact later
      | some b => exact (later.cons b).trans (.swap a b _)

/-- A table without holes has as many elements as slots. -/
theorem length_live_of_full (full : none ∉ slots) : (live slots).length = slots.length := by
  refine List.reduceOption_length_eq_iff.mpr fun slot member => ?_
  exact Option.isSome_iff_ne_none.mpr fun hole => full (hole ▸ member)

theorem set_of_getElem? {slot : Option α} (there : slots[i]? = some slot) :
    slots.set i slot = slots := by
  obtain ⟨inside, rfl⟩ := List.getElem?_eq_some_iff.mp there
  exact List.set_getElem_self inside

/-- A slot that has an element already keeps it. -/
theorem place_of_mem (there : slots[i]? = some (some a)) : place a i slots = slots :=
  set_of_getElem? there

/-- A slot that was a hole is one again. -/
theorem set_none_place (hole : slots[i]? = some none) : (place a i slots).set i none = slots := by
  rw [place, List.set_set]
  exact set_of_getElem? hole

/-- Clearing takes one copy out. -/
theorem live_clear [DecidableEq α] (a : α) (slots : List (Option α)) :
    live (clear a slots) = (live slots).erase a := by
  induction slots with
  | nil => rfl
  | cons slot slots ih =>
    cases slot with
    | none => simpa [clear, List.findIdx_cons, live_cons_none] using ih
    | some b =>
      by_cases same : b = a
      · subst same
        simp [clear, List.findIdx_cons, live_cons_none, live_cons_some]
      · simpa [clear, List.findIdx_cons, live_cons_some, same] using ih

/-! ### Holes in front of a slot -/

theorem holesBefore_mono {j : ℕ} (le : i ≤ j) : holesBefore i slots ≤ holesBefore j slots :=
  (List.take_prefix_take_left le).sublist.countP_le

theorem holesBefore_append (inside : i ≤ slots.length) (more : List (Option α)) :
    holesBefore i (slots ++ more) = holesBefore i slots := by
  rw [holesBefore, List.take_append_of_le_length inside]
  rfl

/-- No hole in front of a slot. -/
theorem holesBefore_eq_zero_iff :
    holesBefore i slots = 0 ↔ ∀ j < i, slots[j]? ≠ some none := by
  rw [holesBefore, List.countP_eq_zero]
  refine ⟨fun none_there j before hole => ?_, fun none_there slot member => ?_⟩
  · refine none_there none (List.mem_of_getElem? (i := j) ?_) rfl
    rw [List.getElem?_take_of_lt before, hole]
  · obtain ⟨j, inside, rfl⟩ := List.getElem_of_mem member
    intro hole
    have before : j < i := Nat.lt_of_lt_of_le inside (List.length_take_le i slots)
    refine none_there j before ?_
    rw [← List.getElem?_take_of_lt before, List.getElem?_eq_getElem inside,
      Option.isNone_iff_eq_none.mp hole]

/-- The first hole is filled. -/
theorem holesBefore_place (hole : slots[i]? = some none) (first : holesBefore i slots = 0) (j : ℕ) :
    holesBefore j (place a i slots) = holesBefore j slots - 1 := by
  rcases Nat.lt_or_ge i j with behind | before
  · obtain ⟨inside, empty⟩ := List.getElem?_eq_some_iff.mp hole
    have taken : i < (slots.take j).length := by
      rw [List.length_take]
      exact Nat.lt_min.mpr ⟨behind, inside⟩
    rw [holesBefore, place, List.take_set, List.countP_set taken, List.getElem_take, empty]
    rfl
  · have none_there := Nat.le_zero.mp (first ▸ holesBefore_mono before)
    rw [holesBefore, place, List.take_set_of_le before]
    exact none_there.trans (by rw [none_there])

/-! ### Elements that are put in one after the other -/

section

variable [DecidableEq α] {elements : List α}

/-- In front of the slot of an element are no more holes than the elements that come before it
will fill. -/
def InOrder (elements : List α) (slots : List (Option α)) : Prop :=
  ∀ before a after, elements = before ++ a :: after → ∀ i, slots[i]? = some (some a) →
    holesBefore i slots ≤ (before.filter fun b => some b ∉ slots).length

/-- The same with indices. -/
theorem inOrder_iff : InOrder elements slots ↔ ∀ k < elements.length, ∀ i < slots.length,
    slots[i]? = elements[k]?.map some →
      holesBefore i slots ≤ ((elements.take k).filter fun b => some b ∉ slots).length := by
  constructor
  · intro ordered k inside i _ slot
    rw [List.getElem?_eq_getElem inside] at slot
    have split : elements = elements.take k ++ elements[k] :: elements.drop (k + 1) := by
      rw [← List.drop_eq_getElem_cons inside, List.take_append_drop]
    exact ordered _ _ _ split i slot
  · intro ordered before a after split i slot
    subst split
    have earlier := ordered before.length (by simp) i (List.getElem?_eq_some_iff.mp slot).1
      (by rw [slot, List.getElem?_append_right (Nat.le_refl _), Nat.sub_self]; rfl)
    rwa [List.take_left] at earlier

instance : Decidable (InOrder elements slots) := decidable_of_iff' _ inOrder_iff

theorem inOrder_head (ordered : InOrder (a :: elements) slots) (there : slots[i]? = some (some a)) :
    holesBefore i slots = 0 :=
  Nat.le_zero.mp (ordered [] a elements rfl i there)

/-- An element that is there fills no hole. -/
theorem inOrder_tail (ordered : InOrder (a :: elements) slots) (there : some a ∈ slots) :
    InOrder elements slots := by
  intro before b after split i slot
  have earlier := ordered (a :: before) b after (by rw [split, List.cons_append]) i slot
  rwa [List.filter_cons_of_neg (by simpa using there)] at earlier

/-- An element that is new fills the first hole. -/
theorem inOrder_place (ordered : InOrder (a :: elements) slots) (absent : some a ∉ slots)
    (once : a ∉ elements) (hole : slots[i]? = some none) (first : holesBefore i slots = 0) :
    InOrder elements (place a i slots) := by
  intro before b after split j slot
  have other : ∀ c ∈ elements, c ≠ a := fun c member same => once (same ▸ member)
  have members : ∀ c, c ≠ a → (some c ∈ place a i slots ↔ some c ∈ slots) := by
    intro c different
    rw [← mem_live, ← mem_live, (live_place hole).mem_iff, List.mem_cons]
    exact or_iff_right different
  have different : b ≠ a := other b (by simp [split])
  have stays : slots[j]? = some (some b) := by
    rw [place, List.getElem?_set] at slot
    split at slot
    · split at slot
      · cases slot
        exact absurd rfl different
      · cases slot
    · exact slot
  have earlier := ordered (a :: before) b after (by rw [split, List.cons_append]) j stays
  have same : before.filter (fun c => some c ∉ place a i slots) =
      before.filter fun c => some c ∉ slots := by
    refine List.filter_congr fun c member => ?_
    have kept := members c (other c (by simp [split, member]))
    simp only [kept]
  rw [List.filter_cons_of_pos (by simpa using absent), List.length_cons] at earlier
  rw [holesBefore_place hole first, same]
  omega

/-- An element that is new can come last. -/
theorem inOrder_concat (ordered : InOrder elements slots) (absent : some a ∉ slots) :
    InOrder (elements ++ [a]) slots := by
  intro before b after split i slot
  rcases after.eq_nil_or_concat with rfl | ⟨rest, last, rfl⟩
  · obtain ⟨-, same⟩ := List.append_inj' split rfl
    cases same
    exact absurd (List.mem_of_getElem? slot) absent
  · have regrouped : elements ++ [a] = (before ++ b :: rest) ++ [last] := by
      rw [split, List.concat_eq_append, List.append_assoc, List.cons_append]
    exact ordered before b rest (List.append_inj' regrouped rfl).1 i slot

/-- Holes behind the table stand in front of nothing. -/
theorem inOrder_append (ordered : InOrder elements slots) (n : ℕ) :
    InOrder elements (slots ++ List.replicate n none) := by
  have members : ∀ c, some c ∈ slots ++ List.replicate n none ↔ some c ∈ slots := by simp
  intro before b after split i slot
  have inside : slots[i]? = some (some b) := by
    rcases Nat.lt_or_ge i slots.length with inside | behind
    · rwa [List.getElem?_append_left inside] at slot
    · rw [List.getElem?_append_right behind] at slot
      have hole := List.eq_of_mem_replicate (List.mem_of_getElem? slot)
      cases hole
  have short := (List.getElem?_eq_some_iff.mp inside).1
  simp only [members, holesBefore_append (Nat.le_of_lt short)]
  exact ordered before b after split i inside

end

end Hdf.SlotTable
