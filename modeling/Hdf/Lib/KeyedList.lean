import Mathlib.Data.List.Nodup

/-!
# Lists searched by key

A linked list whose elements are found by a key. A search stops at the first
element with the key, which an update changes in place and a removal takes out.
Seen through `search`, such a list is a map from keys to elements.

## Main results

* `search_update`: an update changes what its key finds
* `search_append_singleton`: adding an element at the end
* `search_remove_self`, `search_remove_ne`, `mem_remove`: a removal, when the keys are different
-/

namespace Hdf.KeyedList

variable {α κ : Type*} [DecidableEq κ] {key : α → κ} {k k' : κ} {f : α → α} {x : α} {xs : List α}

/-- The first element with a key. -/
def search (key : α → κ) (k : κ) (xs : List α) : Option α := xs.find? fun x => key x = k

/-- Changes the first element with a key. -/
def update (key : α → κ) (k : κ) (f : α → α) : List α → List α
  | [] => []
  | x :: xs => if key x = k then f x :: xs else x :: update key k f xs

/-- Takes out the first element with a key. -/
def remove (key : α → κ) (k : κ) (xs : List α) : List α := xs.eraseP fun x => key x = k

@[simp] theorem search_nil : search key k [] = none := rfl

theorem search_cons : search key k (x :: xs) = if key x = k then some x else search key k xs := by
  by_cases same : key x = k <;> simp [search, same]

theorem mem_of_search (h : search key k xs = some x) : x ∈ xs := List.mem_of_find?_eq_some h

theorem key_of_search (h : search key k xs = some x) : key x = k := by
  simpa using List.find?_some h

theorem search_eq_none_iff : search key k xs = none ↔ k ∉ xs.map key := by
  simp [search, List.mem_map]

theorem search_isSome_iff : (search key k xs).isSome ↔ k ∈ xs.map key := by
  simp [search, List.mem_map]

/-- With different keys, an element is what its key finds. -/
theorem search_of_mem (unique : (xs.map key).Nodup) (member : x ∈ xs) :
    search key (key x) xs = some x := by
  induction xs with
  | nil => cases member
  | cons y ys ih =>
    rw [List.map_cons, List.nodup_cons] at unique
    rw [search_cons]
    rcases List.mem_cons.mp member with rfl | later
    · exact if_pos rfl
    · rw [if_neg, ih unique.2 later]
      intro same
      exact unique.1 (same ▸ List.mem_map_of_mem later)

/-- With different keys, the order of the elements does not matter. -/
theorem search_perm {ys : List α} (unique : (xs.map key).Nodup) (perm : xs.Perm ys) :
    search key k xs = search key k ys := by
  cases found : search key k ys with
  | none =>
    rw [search_eq_none_iff] at found ⊢
    exact fun member => found ((perm.map key).mem_iff.mp member)
  | some y =>
    rw [← key_of_search found]
    exact search_of_mem unique (perm.mem_iff.mpr (mem_of_search found))

/-- Two keys that single out the same elements find the same one. -/
theorem search_congr {μ : Type*} [DecidableEq μ] {key' : α → μ} {m : μ}
    (same : ∀ x ∈ xs, key x = k ↔ key' x = m) : search key k xs = search key' m xs := by
  induction xs with
  | nil => rfl
  | cons x xs ih =>
    rw [List.forall_mem_cons] at same
    rw [search_cons, search_cons, ih same.2, if_congr same.1 rfl rfl]

/-! ### Updates -/

theorem map_key_update (keeps : ∀ x, key x = k → key (f x) = k) :
    (update key k f xs).map key = xs.map key := by
  induction xs with
  | nil => rfl
  | cons x xs ih =>
    rw [update]
    split
    case isTrue same => rw [List.map_cons, keeps x same, List.map_cons, same]
    case isFalse => rw [List.map_cons, ih, List.map_cons]

/-- An update leaves alone what its function leaves alone. -/
theorem map_update {β : Type*} {g : α → β} (keeps : ∀ x, g (f x) = g x) :
    (update key k f xs).map g = xs.map g := by
  induction xs with
  | nil => rfl
  | cons x xs ih =>
    rw [update]
    split
    · rw [List.map_cons, keeps, List.map_cons]
    · rw [List.map_cons, ih, List.map_cons]

/-- Putting an element in the place of one that looks the same. -/
theorem map_update_const {β : Type*} {g : α → β} {y : α} (there : search key k xs = some x)
    (same : g y = g x) : (update key k (fun _ => y) xs).map g = xs.map g := by
  induction xs with
  | nil => rfl
  | cons z xs ih =>
    rw [search_cons] at there
    rw [update]
    split
    case isTrue first =>
      rw [if_pos first] at there
      cases there
      rw [List.map_cons, same, List.map_cons]
    case isFalse differs =>
      rw [if_neg differs] at there
      rw [List.map_cons, ih there, List.map_cons]

theorem length_remove (there : k ∈ xs.map key) : (remove key k xs).length + 1 = xs.length := by
  obtain ⟨x, found⟩ := Option.isSome_iff_exists.mp (search_isSome_iff.mpr there)
  have positive := List.length_pos_of_mem (mem_of_search found)
  rw [remove, List.length_eraseP_of_mem (mem_of_search found)
    (decide_eq_true (key_of_search found))]
  omega

theorem update_congr {μ : Type*} [DecidableEq μ] {key' : α → μ} {m : μ}
    (same : ∀ x ∈ xs, key x = k ↔ key' x = m) : update key k f xs = update key' m f xs := by
  induction xs with
  | nil => rfl
  | cons x xs ih =>
    rw [List.forall_mem_cons] at same
    rw [update, update, ih same.2, if_congr same.1 rfl rfl]

theorem mem_update {y : α} (member : y ∈ update key k f xs) :
    y ∈ xs ∨ ∃ x ∈ search key k xs, y = f x := by
  induction xs with
  | nil => cases member
  | cons x xs ih =>
    rw [update] at member
    rw [search_cons]
    split at member
    case isTrue same =>
      rw [if_pos same]
      rcases List.mem_cons.mp member with changed | later
      · exact .inr ⟨x, rfl, changed⟩
      · exact .inl (List.mem_cons_of_mem x later)
    case isFalse differs =>
      rw [if_neg differs]
      rcases List.mem_cons.mp member with first | later
      · exact .inl (first ▸ List.mem_cons_self)
      · exact (ih later).imp_left (List.mem_cons_of_mem x)

theorem search_update_self (keeps : ∀ x, key x = k → key (f x) = k) :
    search key k (update key k f xs) = (search key k xs).map f := by
  induction xs with
  | nil => rfl
  | cons x xs ih =>
    rw [update, search_cons]
    split
    case isTrue same => rw [search_cons, if_pos (keeps x same), Option.map_some]
    case isFalse differs => rw [search_cons, if_neg differs, ih]

theorem search_update_ne (keeps : ∀ x, key x = k → key (f x) = k) (differs : k' ≠ k) :
    search key k' (update key k f xs) = search key k' xs := by
  induction xs with
  | nil => rfl
  | cons x xs ih =>
    rw [update, search_cons]
    split
    case isTrue same =>
      rw [search_cons, if_neg fun same' => differs (same'.symm.trans (keeps x same)),
        if_neg fun same' => differs (same'.symm.trans same)]
    case isFalse => rw [search_cons, ih]

theorem search_update (keeps : ∀ x, key x = k → key (f x) = k) :
    search key k' (update key k f xs) =
      if k' = k then (search key k' xs).map f else search key k' xs := by
  split
  case isTrue same =>
    subst same
    exact search_update_self keeps
  case isFalse differs => exact search_update_ne keeps differs

/-- Putting an element in the place of the one with its key. -/
theorem search_update_const {y : α} (keeps : key y = k) (there : search key k xs = some x) :
    search key k' (update key k (fun _ => y) xs) =
      if k' = k then some y else search key k' xs := by
  split
  case isTrue same =>
    subst same
    rw [search_update_self fun _ _ => keeps, there, Option.map_some]
  case isFalse differs => exact search_update_ne (fun _ _ => keeps) differs

/-! ### Insertions and removals -/

theorem search_append_singleton :
    search key k (xs ++ [x]) = (search key k xs).or (if key x = k then some x else none) := by
  rw [search, List.find?_append]
  congr 1
  exact search_cons

theorem remove_cons : remove key k (x :: xs) = if key x = k then xs else x :: remove key k xs := by
  by_cases same : key x = k <;> simp [remove, same]

theorem remove_congr {μ : Type*} [DecidableEq μ] {key' : α → μ} {m : μ}
    (same : ∀ x ∈ xs, key x = k ↔ key' x = m) : remove key k xs = remove key' m xs := by
  induction xs with
  | nil => rfl
  | cons x xs ih =>
    rw [List.forall_mem_cons] at same
    rw [remove_cons, remove_cons, ih same.2, if_congr same.1 rfl rfl]

theorem search_remove_ne (differs : k' ≠ k) :
    search key k' (remove key k xs) = search key k' xs := by
  induction xs with
  | nil => rfl
  | cons x xs ih =>
    rw [remove_cons, search_cons]
    split
    case isTrue same =>
      have other : key x ≠ k' := fun same' => differs (same'.symm.trans same)
      rw [if_neg other]
    case isFalse => rw [search_cons, ih]

theorem search_remove_self (unique : (xs.map key).Nodup) :
    search key k (remove key k xs) = none := by
  induction xs with
  | nil => rfl
  | cons x xs ih =>
    rw [List.map_cons, List.nodup_cons] at unique
    rw [remove_cons]
    split
    case isTrue same =>
      rw [search_eq_none_iff]
      exact same ▸ unique.1
    case isFalse differs =>
      rw [search_cons, if_neg differs]
      exact ih unique.2

/-- Where the keys are different, a removal takes out the elements with the key. -/
theorem mem_remove (unique : (xs.map key).Nodup) : x ∈ remove key k xs ↔ x ∈ xs ∧ key x ≠ k := by
  constructor
  · intro member
    refine ⟨List.mem_of_mem_eraseP member, fun same => ?_⟩
    have gone := search_eq_none_iff.mp (search_remove_self (k := k) unique)
    exact gone (List.mem_map.mpr ⟨x, member, same⟩)
  · rintro ⟨member, differs⟩
    exact (List.mem_eraseP_of_neg (by simpa using differs)).mpr member

theorem map_key_remove_sublist : ((remove key k xs).map key).Sublist (xs.map key) :=
  (List.eraseP_sublist).map key

/-! ### One list after the other -/

theorem update_append {f : α → α} {xs ys : List α} (absent : k ∉ xs.map key) :
    update key k f (xs ++ ys) = xs ++ update key k f ys := by
  induction xs with
  | nil => rfl
  | cons x xs ih =>
    rw [List.map_cons, List.mem_cons, not_or] at absent
    rw [List.cons_append, update, if_neg (Ne.symm absent.1), ih absent.2, List.cons_append]

theorem update_eq_self {f : α → α} {xs : List α} (absent : k ∉ xs.map key) :
    update key k f xs = xs := by
  rw [← List.append_nil xs, update_append absent]
  rfl

theorem update_append_left {f : α → α} {xs ys : List α} (absent : k ∉ ys.map key) :
    update key k f (xs ++ ys) = update key k f xs ++ ys := by
  induction xs with
  | nil => exact update_eq_self absent
  | cons x xs ih =>
    rw [List.cons_append, update, update]
    split
    · rfl
    · rw [ih, List.cons_append]

theorem remove_append {xs ys : List α} (absent : k ∉ xs.map key) :
    remove key k (xs ++ ys) = xs ++ remove key k ys := by
  refine List.eraseP_append_right ys fun x member same => absent ?_
  exact of_decide_eq_true same ▸ List.mem_map_of_mem member

theorem remove_eq_self {xs : List α} (absent : k ∉ xs.map key) : remove key k xs = xs := by
  rw [← List.append_nil xs, remove_append absent]
  rfl

theorem remove_append_left {xs ys : List α} (absent : k ∉ ys.map key) :
    remove key k (xs ++ ys) = remove key k xs ++ ys := by
  induction xs with
  | nil => exact remove_eq_self absent
  | cons x xs ih =>
    rw [List.cons_append, remove_cons, remove_cons]
    split
    · rfl
    · rw [ih, List.cons_append]

end Hdf.KeyedList
