import Hdf.Lib.KeyedList
import Mathlib.Data.List.Perm.Basic

/-!
# Tables of buckets

A table keeps its elements in several lists, and the key of an element says in
which one it is. Searching, changing and removing in the bucket of a key is the
same as doing so in all buckets one after the other, so a table is a keyed list.

## Main results

* `search_bucket`, `update_bucket`, `remove_bucket`: operations on one bucket
* `add_perm`, `rehash_perm`: what the buckets hold together
-/

namespace Hdf.Buckets

open KeyedList

variable {α κ : Type*} [DecidableEq κ] {key : α → κ} {k : κ} {place : α → ℕ}
  {table : List (List α)} {bucket : List α} {i : ℕ} {a : α}

/-- Every element is in the bucket of its place. -/
def Placed (place : α → ℕ) (table : List (List α)) : Prop :=
  ∀ i bucket, table[i]? = some bucket → ∀ a ∈ bucket, place a = i

/-- Only the bucket `i` may hold the key. -/
def Only (key : α → κ) (k : κ) (i : ℕ) (table : List (List α)) : Prop :=
  ∀ j bucket, table[j]? = some bucket → k ∈ bucket.map key → j = i

omit [DecidableEq κ] in
theorem Placed.only (placed : Placed place table)
    (at_key : ∀ a ∈ table.flatten, key a = k → place a = i) : Only key k i table := by
  intro j bucket found holds
  obtain ⟨a, member, same⟩ := List.mem_map.mp holds
  have inside := List.mem_flatten_of_mem (List.mem_of_getElem? found) member
  exact (placed j bucket found a member).symm.trans (at_key a inside same)

/-- A bucket with the buckets before and after it. -/
theorem exists_split (found : table[i]? = some bucket) :
    ∃ pre post, table = pre ++ bucket :: post ∧ pre.length = i ∧
      ∀ f, table.modify i f = pre ++ f bucket :: post := by
  obtain ⟨inside, rfl⟩ := List.getElem?_eq_some_iff.mp found
  refine ⟨table.take i, table.drop (i + 1), ?_, List.length_take_of_le (Nat.le_of_lt inside),
    fun f => ?_⟩
  · rw [List.getElem_cons_drop, List.take_append_drop]
  · rw [List.modify_eq_take_cons_drop inside]

theorem modify_congr {f g : List α → List α} (found : table[i]? = some bucket)
    (same : f bucket = g bucket) : table.modify i f = table.modify i g := by
  obtain ⟨pre, post, -, -, modified⟩ := exists_split found
  rw [modified, modified, same]

omit [DecidableEq κ] in
/-- The buckets before the one that may hold the key do not. -/
theorem Only.not_mem_pre {pre post : List (List α)} (only : Only key k i (pre ++ bucket :: post))
    (position : pre.length = i) : k ∉ pre.flatten.map key := by
  intro holds
  obtain ⟨a, member, same⟩ := List.mem_map.mp holds
  obtain ⟨other, listed, inside⟩ := List.mem_flatten.mp member
  obtain ⟨j, within, rfl⟩ := List.mem_iff_getElem.mp listed
  have found : (pre ++ bucket :: post)[j]? = some pre[j] := by
    rw [List.getElem?_append_left within, List.getElem?_eq_getElem within]
  have position' := only j _ found (List.mem_map.mpr ⟨a, inside, same⟩)
  omega

omit [DecidableEq κ] in
theorem Only.not_mem_post {pre post : List (List α)} (only : Only key k i (pre ++ bucket :: post))
    (position : pre.length = i) : k ∉ post.flatten.map key := by
  intro holds
  obtain ⟨a, member, same⟩ := List.mem_map.mp holds
  obtain ⟨other, listed, inside⟩ := List.mem_flatten.mp member
  obtain ⟨j, within, rfl⟩ := List.mem_iff_getElem.mp listed
  have found : (pre ++ bucket :: post)[pre.length + (j + 1)]? = some post[j] := by
    rw [List.getElem?_append_right (Nat.le_add_right _ _), Nat.add_sub_cancel_left,
      List.getElem?_cons_succ, List.getElem?_eq_getElem within]
  have position' := only _ _ found (List.mem_map.mpr ⟨a, inside, same⟩)
  omega

theorem search_bucket (only : Only key k i table) (found : table[i]? = some bucket) :
    search key k bucket = search key k table.flatten := by
  obtain ⟨pre, post, rfl, position, -⟩ := exists_split found
  rw [List.flatten_append, List.flatten_cons, search, search, List.find?_append, List.find?_append]
  have before := search_eq_none_iff.mpr (only.not_mem_pre position)
  have after := search_eq_none_iff.mpr (only.not_mem_post position)
  rw [search] at before after
  rw [before, after, Option.none_or, Option.or_none]

theorem update_bucket {f : α → α} (only : Only key k i table) (found : table[i]? = some bucket) :
    (table.modify i (update key k f)).flatten = update key k f table.flatten := by
  obtain ⟨pre, post, rfl, position, modified⟩ := exists_split found
  rw [modified, List.flatten_append, List.flatten_cons, List.flatten_append, List.flatten_cons,
    update_append (only.not_mem_pre position), update_append_left (only.not_mem_post position)]

theorem remove_bucket (only : Only key k i table) (found : table[i]? = some bucket) :
    (table.modify i (remove key k)).flatten = remove key k table.flatten := by
  obtain ⟨pre, post, rfl, position, modified⟩ := exists_split found
  rw [modified, List.flatten_append, List.flatten_cons, List.flatten_append, List.flatten_cons,
    remove_append (only.not_mem_pre position), remove_append_left (only.not_mem_post position)]

/-! ### Elements that stay in their place -/

/-- A change of one bucket keeps the places when it brings in no element of another. -/
theorem Placed.modify {f : List α → List α} (placed : Placed place table)
    (stays : ∀ bucket, table[i]? = some bucket → ∀ a ∈ f bucket, place a = i) :
    Placed place (table.modify i f) := by
  intro j bucket found a member
  rw [List.getElem?_modify] at found
  obtain ⟨old, there, rfl⟩ := Option.map_eq_some_iff.mp found
  split at member
  case isTrue same =>
    subst same
    exact stays old there a member
  case isFalse => exact placed j old there a member

theorem placed_replicate (n : ℕ) : Placed place (List.replicate n []) := by
  intro i bucket found a member
  rw [List.getElem?_replicate] at found
  split at found
  · cases found
    exact absurd member List.not_mem_nil
  · cases found

/-! ### Putting elements in -/

/-- An element comes in front of its bucket. There is no result when the table is too small. -/
def add (place : α → ℕ) (table : List (List α)) (a : α) : Option (List (List α)) :=
  if place a < table.length then some (table.modify (place a) (a :: ·)) else none

theorem add_spec (inside : place a < table.length) (placed : Placed place table) :
    ∃ table', add place table a = some table' ∧ table'.length = table.length ∧
      Placed place table' ∧ table'.flatten.Perm (a :: table.flatten) := by
  refine ⟨_, if_pos inside, List.length_modify .., placed.modify fun bucket found b member => ?_,
    ?_⟩
  · rcases List.mem_cons.mp member with rfl | old
    · rfl
    · exact placed _ bucket found b old
  · obtain ⟨pre, post, split, -, modified⟩ := exists_split (List.getElem?_eq_getElem inside)
    rw [modified, List.flatten_append, List.flatten_cons, List.cons_append]
    refine List.perm_middle.trans (.cons a ?_)
    rw [← List.flatten_cons, ← List.flatten_append, ← split]

/-- All elements are put into a new table, one after the other. -/
def rehash (place : α → ℕ) (elements : List α) (table : List (List α)) :
    Option (List (List α)) :=
  elements.foldlM (add place) table

theorem rehash_spec {elements : List α} (inside : ∀ a ∈ elements, place a < table.length)
    (placed : Placed place table) :
    ∃ table', rehash place elements table = some table' ∧ table'.length = table.length ∧
      Placed place table' ∧ table'.flatten.Perm (elements ++ table.flatten) := by
  induction elements generalizing table with
  | nil => exact ⟨table, rfl, rfl, placed, .refl _⟩
  | cons a elements ih =>
    obtain ⟨middle, added, sized, placed', holds⟩ :=
      add_spec (inside a List.mem_cons_self) placed
    obtain ⟨last, moved, sized', placed'', holds'⟩ :=
      ih (fun b member => sized ▸ inside b (List.mem_cons_of_mem a member)) placed'
    refine ⟨last, ?_, sized'.trans sized, placed'', holds'.trans ?_⟩
    · rw [rehash, List.foldlM_cons, added]
      exact moved
    · exact (holds.append_left elements).trans List.perm_middle

end Hdf.Buckets
