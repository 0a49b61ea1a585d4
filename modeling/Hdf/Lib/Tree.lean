import Mathlib.Data.List.Basic
import Mathlib.Data.List.Infix
import Mathlib.Algebra.BigOperators.Group.List.Basic
import Mathlib.Algebra.Order.BigOperators.Group.List
import Mathlib.Algebra.Order.Monoid.Canonical.Basic
import Mathlib.Algebra.Order.Ring.Nat
import Mathlib.Data.Multiset.OrderedMonoid
import Mathlib.Data.Multiset.UnionInter
import Mathlib.Tactic.Abel

/-!
# Trees with addressed subtrees

Finitely branching trees whose inner nodes carry one kind of label and whose
leaves carry another. A position names a subtree by the child indices on the
way to it, innermost first, so that the parent of `i :: p` is `p`. Programs on
linked objects use a position as a pointer: reading is `get?`, and every update
goes through `modifyAt`.

A tree is studied through the partial map `label?` from positions to labels.
Appending a child defines it at fresh positions and changes no other value;
erasing a child shifts the positions of the later siblings by one.

## Main definitions

* `Tree`, `Pos`, `Tree.get?`, `Tree.label?`
* `Tree.modifyAt`, `Tree.appendAt`, `Tree.eraseAt`, `Tree.relabelAt`
* `Tree.labels`, `Tree.weigh`: all labels in document order, and the sum of their weights

## Main results

* `Tree.get?_modifyAt_under`, `Tree.label?_modifyAt_of_not_under`: an update is
  seen below its position and nowhere else
* `Tree.label?_appendAt_new`, `Tree.label?_appendAt_of_some`,
  `Tree.label?_eraseAt_sibling`: how the two structural updates move labels
* `Tree.weigh_modifyAt`, `Tree.weigh_appendAt`, `Tree.weigh_eraseAt`: what updates do to
  the weight of the tree
* `Tree.position_eq_of_key`: a key that no other label has stands for one position
-/

namespace Hdf

/-- A finitely branching tree with labelled inner nodes and labelled leaves. -/
inductive Tree (ν ℓ : Type*) where
  | leaf (l : ℓ)
  | node (a : ν) (children : List (Tree ν ℓ))

/-- The address of a subtree: child indices from the subtree up to the root. -/
abbrev Pos := List ℕ

namespace Tree

variable {ν ℓ : Type*}

/-- Structural induction with the hypothesis for every child. -/
@[elab_as_elim, induction_eliminator]
theorem induct {motive : Tree ν ℓ → Prop} (leaf : ∀ l, motive (leaf l))
    (node : ∀ a cs, (∀ c ∈ cs, motive c) → motive (node a cs)) (t : Tree ν ℓ) : motive t :=
  Tree.rec (motive_1 := motive) (motive_2 := fun cs => ∀ c ∈ cs, motive c) leaf node
    (by simp) (fun _ _ head tail => by
      intro c member
      rcases List.mem_cons.mp member with rfl | later
      · exact head
      · exact tail c later) t

/-- The child list, empty at a leaf. -/
def children : Tree ν ℓ → List (Tree ν ℓ)
  | leaf _ => []
  | node _ cs => cs

/-- The label of the root, from either alphabet. -/
def label : Tree ν ℓ → ν ⊕ ℓ
  | leaf l => .inr l
  | node a _ => .inl a

@[simp] theorem children_leaf (l : ℓ) : (leaf l : Tree ν ℓ).children = [] := rfl

@[simp] theorem children_node (a : ν) (cs : List (Tree ν ℓ)) : (node a cs).children = cs := rfl

@[simp] theorem label_leaf (l : ℓ) : (leaf l : Tree ν ℓ).label = .inr l := rfl

@[simp] theorem label_node (a : ν) (cs : List (Tree ν ℓ)) : (node a cs).label = .inl a := rfl

/-- The subtree at a position. -/
def get? (t : Tree ν ℓ) : Pos → Option (Tree ν ℓ)
  | [] => some t
  | i :: p => (get? t p).bind fun u => u.children[i]?

/-- The label at a position. -/
def label? (t : Tree ν ℓ) (p : Pos) : Option (ν ⊕ ℓ) := (t.get? p).map label

@[simp] theorem get?_nil (t : Tree ν ℓ) : t.get? [] = some t := rfl

theorem get?_cons (t : Tree ν ℓ) (i : ℕ) (p : Pos) :
    t.get? (i :: p) = (t.get? p).bind fun u => u.children[i]? := rfl

/-- Nothing is below a leaf. -/
theorem get?_leaf_cons (l : ℓ) (i : ℕ) (p : Pos) : (leaf l : Tree ν ℓ).get? (i :: p) = none := by
  induction p generalizing i with
  | nil => rfl
  | cons j p ih => rw [get?_cons, ih, Option.bind_none]

theorem get?_append (t : Tree ν ℓ) (r p : Pos) :
    t.get? (r ++ p) = (t.get? p).bind fun u => u.get? r := by
  induction r with
  | nil => simp
  | cons i r ih => rw [List.cons_append, get?_cons, ih, Option.bind_assoc]; rfl

/-- What is below a node is at it or below one of its children. -/
theorem forall_get?_node {motive : Pos → Tree ν ℓ → Prop} {a : ν} {cs : List (Tree ν ℓ)} :
    (∀ p u, (node a cs).get? p = some u → motive p u) ↔ motive [] (node a cs) ∧
      ∀ i c, cs[i]? = some c → ∀ r u, c.get? r = some u → motive (r ++ [i]) u := by
  constructor
  · refine fun all => ⟨all [] _ rfl, fun i c child r u found => all _ u ?_⟩
    rw [get?_append, get?_cons, get?_nil, Option.bind_some, children_node, child, Option.bind_some]
    exact found
  · rintro ⟨top, below⟩ p u found
    rcases p.eq_nil_or_concat with rfl | ⟨r, i, rfl⟩
    · cases found
      exact top
    · rw [List.concat_eq_append, get?_append, get?_cons, get?_nil, Option.bind_some,
        children_node] at found
      obtain ⟨c, child, found⟩ := Option.bind_eq_some_iff.mp found
      rw [List.concat_eq_append]
      exact below i c child r u found

theorem label?_append (t : Tree ν ℓ) (r p : Pos) :
    t.label? (r ++ p) = (t.get? p).bind fun u => u.label? r := by
  rw [label?, get?_append, Option.map_bind]; rfl

theorem get?_child {t u : Tree ν ℓ} {i : ℕ} {p : Pos} (h : t.get? p = some u) :
    t.get? (i :: p) = u.children[i]? := by
  rw [get?_cons, h, Option.bind_some]

theorem label?_eq_some {t : Tree ν ℓ} {p : Pos} {l : ν ⊕ ℓ} :
    t.label? p = some l ↔ ∃ u, t.get? p = some u ∧ u.label = l := by
  simp [label?]

theorem label?_of_get? {t u : Tree ν ℓ} {p : Pos} (h : t.get? p = some u) :
    t.label? p = some u.label := by rw [label?, h]; rfl

/-- A position with a label below it holds an inner node. -/
theorem exists_node_of_child {t u : Tree ν ℓ} {i : ℕ} {p : Pos} (h : t.get? (i :: p) = some u) :
    ∃ a cs, t.get? p = some (node a cs) ∧ cs[i]? = some u := by
  rw [get?_cons] at h
  obtain ⟨v, hv, hu⟩ := Option.bind_eq_some_iff.mp h
  cases v with
  | leaf l => simp at hu
  | node a cs => exact ⟨a, cs, hv, hu⟩

theorem get?_isSome_of_append {t : Tree ν ℓ} {r p : Pos} (h : (t.get? (r ++ p)).isSome) :
    (t.get? p).isSome := by
  rw [get?_append] at h
  cases hp : t.get? p with
  | none => simp [hp] at h
  | some u => rfl

/-- Two positions below a common one that leave it through different children
are not below each other. -/
theorem not_suffix_of_ne {i j : ℕ} {p r : Pos} (different : i ≠ j) :
    ¬ i :: p <:+ r ++ j :: p := by
  rintro ⟨s, same⟩
  have split : s ++ [i] ++ p = r ++ [j] ++ p := by simpa using same
  have last := List.append_inj_right' (List.append_cancel_right split) rfl
  exact different (by simpa using last)

/-! ### Updates -/

/-- Change the child with index `i`. -/
def modifyChild (i : ℕ) (f : Tree ν ℓ → Tree ν ℓ) : Tree ν ℓ → Tree ν ℓ
  | leaf l => leaf l
  | node a cs => node a (cs.modify i f)

/-- Change the subtree at a position. -/
def modifyAt (t : Tree ν ℓ) : Pos → (Tree ν ℓ → Tree ν ℓ) → Tree ν ℓ
  | [], f => f t
  | i :: p, f => modifyAt t p (modifyChild i f)

@[simp] theorem label_modifyChild (i : ℕ) (f : Tree ν ℓ → Tree ν ℓ) (t : Tree ν ℓ) :
    (modifyChild i f t).label = t.label := by cases t <;> rfl

theorem children_modifyChild_eq (i : ℕ) (f : Tree ν ℓ → Tree ν ℓ) (t : Tree ν ℓ) :
    (modifyChild i f t).children[i]? = t.children[i]?.map f := by
  cases t <;> simp [modifyChild]

theorem children_modifyChild_ne {i j : ℕ} (different : i ≠ j) (f : Tree ν ℓ → Tree ν ℓ)
    (t : Tree ν ℓ) : (modifyChild i f t).children[j]? = t.children[j]? := by
  cases t with
  | leaf l => rfl
  | node a cs => simp [modifyChild, different]

theorem get?_modifyAt_self (t : Tree ν ℓ) (p : Pos) (f : Tree ν ℓ → Tree ν ℓ) :
    (t.modifyAt p f).get? p = (t.get? p).map f := by
  induction p generalizing f with
  | nil => rfl
  | cons i p ih =>
    rw [modifyAt, get?_cons, ih, get?_cons]
    cases t.get? p with
    | none => rfl
    | some u => simp only [Option.map_some, Option.bind_some, children_modifyChild_eq]

/-- Below the updated position the update is seen. -/
theorem get?_modifyAt_under (t : Tree ν ℓ) (p r : Pos) (f : Tree ν ℓ → Tree ν ℓ) :
    (t.modifyAt p f).get? (r ++ p) = (t.get? p).bind fun u => (f u).get? r := by
  rw [get?_append, get?_modifyAt_self, Option.bind_map]; rfl

/-- An observation of subtrees that child updates leave alone is unchanged
outside the updated position. -/
theorem map_get?_modifyAt {α : Type*} (view : Tree ν ℓ → α)
    (stable : ∀ i f u, view (modifyChild i f u) = view u) {t : Tree ν ℓ} {p q : Pos}
    (outside : ¬ p <:+ q) (f : Tree ν ℓ → Tree ν ℓ) :
    ((t.modifyAt p f).get? q).map view = (t.get? q).map view := by
  induction p generalizing f with
  | nil => exact absurd List.nil_suffix outside
  | cons i p ih =>
    by_cases below : p <:+ q
    · obtain ⟨r, rfl⟩ := below
      rw [modifyAt, get?_modifyAt_under, get?_append]
      cases hp : t.get? p with
      | none => rfl
      | some u =>
        rcases List.eq_nil_or_concat r with rfl | ⟨r, j, rfl⟩
        · simp [stable]
        · have different : i ≠ j := by
            rintro rfl
            exact outside ⟨r, by simp⟩
          have sameChild : (modifyChild i f u).get? [j] = u.get? [j] :=
            children_modifyChild_ne different f u
          rw [Option.bind_some, Option.bind_some, List.concat_eq_append, get?_append, sameChild,
            ← get?_append]
    · exact ih below _

/-- An update below a position is an update of the subtree there. -/
theorem modifyAt_append (t : Tree ν ℓ) (r p : Pos) (f : Tree ν ℓ → Tree ν ℓ) :
    t.modifyAt (r ++ p) f = t.modifyAt p fun u => u.modifyAt r f := by
  induction r generalizing f with
  | nil => rfl
  | cons i r ih => exact ih _

variable {ν ℓ : Type*}

theorem modifyAt_modifyAt (t : Tree ν ℓ) (p : Pos) (f g : Tree ν ℓ → Tree ν ℓ) :
    (t.modifyAt p f).modifyAt p g = t.modifyAt p (g ∘ f) := by
  induction p generalizing f g with
  | nil => rfl
  | cons i p ih =>
    rw [modifyAt, modifyAt, ih, modifyAt]
    congr 1
    funext u
    cases u with
    | leaf l => rfl
    | node a cs =>
      change node a ((cs.modify i f).modify i g) = node a (cs.modify i (g ∘ f))
      rw [List.modify_modify_eq]

theorem modifyAt_id (t : Tree ν ℓ) (p : Pos) : t.modifyAt p id = t := by
  induction p with
  | nil => rfl
  | cons i p ih =>
    have same : modifyChild i (id : Tree ν ℓ → Tree ν ℓ) = id := by
      funext u
      cases u with
      | leaf l => rfl
      | node a cs => exact congrArg (node a) (List.modify_id i cs)
    rw [modifyAt, same, ih]

/-- Updates that agree on the subtree at a position agree there. -/
theorem modifyAt_congr {t u : Tree ν ℓ} {p : Pos} {f g : Tree ν ℓ → Tree ν ℓ}
    (here : t.get? p = some u) (same : f u = g u) : t.modifyAt p f = t.modifyAt p g := by
  induction p generalizing f g u with
  | nil =>
    obtain rfl : t = u := Option.some.inj here
    exact same
  | cons i p ih =>
    obtain ⟨a, cs, parent, child⟩ := exists_node_of_child here
    apply ih parent
    change node a (cs.modify i f) = node a (cs.modify i g)
    congr 1
    apply List.ext_getElem?
    intro j
    rw [List.getElem?_modify, List.getElem?_modify]
    by_cases there : i = j
    · subst there
      rw [child]
      simp [same]
    · simp [there]

theorem label?_modifyAt_of_not_under {t : Tree ν ℓ} {p q : Pos} (outside : ¬ p <:+ q)
    (f : Tree ν ℓ → Tree ν ℓ) : (t.modifyAt p f).label? q = t.label? q :=
  map_get?_modifyAt label label_modifyChild outside f

/-- Subtrees that neither contain the updated position nor lie below it are unchanged. -/
theorem get?_modifyAt_of_disjoint {t : Tree ν ℓ} {p q : Pos} (outside : ¬ p <:+ q)
    (beside : ¬ q <:+ p) (f : Tree ν ℓ → Tree ν ℓ) : (t.modifyAt p f).get? q = t.get? q := by
  induction p generalizing f with
  | nil => exact absurd List.nil_suffix outside
  | cons i p ih =>
    by_cases below : p <:+ q
    · obtain ⟨r, rfl⟩ := below
      rcases List.eq_nil_or_concat r with rfl | ⟨r, j, rfl⟩
      · exact absurd (List.suffix_cons i p) beside
      · have different : i ≠ j := by
          rintro rfl
          exact outside ⟨r, by simp⟩
        have child (u : Tree ν ℓ) : (modifyChild i f u).get? [j] = u.get? [j] :=
          children_modifyChild_ne different f u
        rw [modifyAt, get?_modifyAt_under, get?_append]
        cases t.get? p with
        | none => rfl
        | some u =>
          rw [Option.bind_some, Option.bind_some, List.concat_eq_append, get?_append, child,
            ← get?_append]
    · exact ih below (fun above => beside (above.trans (List.suffix_cons i p))) _

/-- The number of children at a position. -/
def arity (t : Tree ν ℓ) (p : Pos) : ℕ := ((t.get? p).map fun u => u.children.length).getD 0

theorem arity_of_get? {t u : Tree ν ℓ} {p : Pos} (h : t.get? p = some u) :
    t.arity p = u.children.length := by simp [arity, h]

theorem child_isSome_iff {t : Tree ν ℓ} {i : ℕ} {p : Pos} :
    (t.label? (i :: p)).isSome ↔ i < t.arity p := by
  rw [label?, Option.isSome_map, get?_cons, arity]
  cases t.get? p with
  | none | some u => simp

theorem label?_child_eq_none_iff {t : Tree ν ℓ} {i : ℕ} {p : Pos} :
    t.label? (i :: p) = none ↔ t.arity p ≤ i := by
  rw [← Option.not_isSome_iff_eq_none, child_isSome_iff, not_lt]

theorem label?_eq_none_of_append {t : Tree ν ℓ} {r p : Pos} (h : t.label? p = none) :
    t.label? (r ++ p) = none := by
  rw [label?, Option.map_eq_none_iff] at h
  rw [label?_append, h, Option.bind_none]

/-- Add a last child. -/
def addLast (u : Tree ν ℓ) : Tree ν ℓ → Tree ν ℓ
  | leaf l => leaf l
  | node a cs => node a (cs ++ [u])

/-- Add a last child at a position. -/
def appendAt (t : Tree ν ℓ) (p : Pos) (u : Tree ν ℓ) : Tree ν ℓ := t.modifyAt p (addLast u)

/-- Drop the child with index `i`. -/
def eraseChild (i : ℕ) : Tree ν ℓ → Tree ν ℓ
  | leaf l => leaf l
  | node a cs => node a (cs.eraseIdx i)

/-- Drop the subtree at a position; the whole tree has no parent to be dropped from. -/
def eraseAt (t : Tree ν ℓ) : Pos → Tree ν ℓ
  | [] => t
  | i :: p => t.modifyAt p (eraseChild i)

/-- Change the label of a tree's root. -/
def relabel (f : ν → ν) (g : ℓ → ℓ) : Tree ν ℓ → Tree ν ℓ
  | leaf l => leaf (g l)
  | node a cs => node (f a) cs

/-- Change the label at a position. -/
def relabelAt (t : Tree ν ℓ) (p : Pos) (f : ν → ν) (g : ℓ → ℓ) : Tree ν ℓ :=
  t.modifyAt p (relabel f g)

/-- The children at a position. -/
def childrenAt (t : Tree ν ℓ) (p : Pos) : List (Tree ν ℓ) := ((t.get? p).map children).getD []

theorem childrenAt_of_get? {t u : Tree ν ℓ} {p : Pos} (h : t.get? p = some u) :
    t.childrenAt p = u.children := by rw [childrenAt, h]; rfl

theorem getElem?_childrenAt (t : Tree ν ℓ) (p : Pos) (i : ℕ) :
    (t.childrenAt p)[i]? = t.get? (i :: p) := by
  rw [get?_cons, childrenAt]
  cases t.get? p <;> rfl

/-- An update below a child changes that child in its parent's list. -/
theorem childrenAt_modifyAt_under (t : Tree ν ℓ) (r p : Pos) (i : ℕ) (f : Tree ν ℓ → Tree ν ℓ) :
    (t.modifyAt (r ++ i :: p) f).childrenAt p =
      (t.childrenAt p).modify i fun c => c.modifyAt r f := by
  have split : r ++ i :: p = (r ++ [i]) ++ p := by simp
  rw [split, modifyAt_append, childrenAt, get?_modifyAt_self, childrenAt]
  cases t.get? p with
  | none => simp
  | some u =>
    simp only [modifyAt_append]
    cases u <;> simp [modifyAt, modifyChild]

section Append

variable {t u : Tree ν ℓ} {a : ν} {cs : List (Tree ν ℓ)} {p q : Pos}

theorem get?_appendAt_self (h : t.get? p = some (node a cs)) :
    (t.appendAt p u).get? p = some (node a (cs ++ [u])) := by
  rw [appendAt, get?_modifyAt_self, h]; rfl

theorem get?_appendAt_new (h : t.get? p = some (node a cs)) :
    (t.appendAt p u).get? (cs.length :: p) = some u := by
  rw [get?_child (get?_appendAt_self h)]; simp

/-- Below the fresh position stands the appended tree. -/
theorem label?_appendAt_new (h : t.get? p = some (node a cs)) (r : Pos) :
    (t.appendAt p u).label? (r ++ cs.length :: p) = u.label? r := by
  rw [label?_append, get?_appendAt_new h, Option.bind_some]

/-- Outside the fresh position nothing changes. -/
theorem label?_appendAt_old (h : t.get? p = some (node a cs)) (old : ¬ cs.length :: p <:+ q) :
    (t.appendAt p u).label? q = t.label? q := by
  by_cases below : p <:+ q
  · obtain ⟨r, rfl⟩ := below
    rw [appendAt, label?, get?_modifyAt_under, label?_append, h, Option.bind_some,
      Option.bind_some]
    rcases List.eq_nil_or_concat r with rfl | ⟨r, j, rfl⟩
    · rfl
    · have different : j ≠ cs.length := by
        rintro rfl
        exact old ⟨r, by simp⟩
      have sameChild : (addLast u (node a cs)).get? [j] = (node a cs).get? [j] := by
        change (cs ++ [u])[j]? = cs[j]?
        rcases Nat.lt_or_gt_of_ne different with lt | gt
        · exact List.getElem?_append_left lt
        · rw [List.getElem?_eq_none (by simp; omega), List.getElem?_eq_none (by omega)]
      rw [List.concat_eq_append, get?_append, sameChild, ← get?_append]
      rfl
  · exact label?_modifyAt_of_not_under below _

theorem label?_fresh (h : t.get? p = some (node a cs)) (r : Pos) :
    t.label? (r ++ cs.length :: p) = none := by
  apply label?_eq_none_of_append
  rw [label?_child_eq_none_iff, arity_of_get? h, children_node]

/-- Appending keeps every label that was there. -/
theorem label?_appendAt_of_some (h : t.get? p = some (node a cs)) {l : ν ⊕ ℓ}
    (there : t.label? q = some l) : (t.appendAt p u).label? q = some l := by
  rw [label?_appendAt_old h, there]
  rintro ⟨r, rfl⟩
  rw [label?_fresh h] at there
  cases there

/-- A label after appending was there before, or belongs to the appended tree. -/
theorem label?_appendAt_cases (h : t.get? p = some (node a cs)) {l : ν ⊕ ℓ}
    (now : (t.appendAt p u).label? q = some l) :
    t.label? q = some l ∨ ∃ r, q = r ++ cs.length :: p ∧ u.label? r = some l := by
  by_cases old : cs.length :: p <:+ q
  · obtain ⟨r, rfl⟩ := old
    exact .inr ⟨r, rfl, by rwa [label?_appendAt_new h] at now⟩
  · exact .inl (by rwa [label?_appendAt_old h old] at now)

end Append

section Erase

variable {t : Tree ν ℓ} {i j : ℕ} {p q : Pos}

/-- Erasing a child moves the later siblings down by one. -/
theorem label?_eraseAt_sibling (r : Pos) :
    (t.eraseAt (i :: p)).label? (r ++ j :: p) =
      if j < i then t.label? (r ++ j :: p) else t.label? (r ++ (j + 1) :: p) := by
  have split (k : ℕ) : r ++ k :: p = (r ++ [k]) ++ p := by simp
  rw [eraseAt, split, label?, get?_modifyAt_under, split, label?_append, label?_append]
  cases hp : t.get? p with
  | none => simp
  | some u =>
    have child (v : Tree ν ℓ) (k : ℕ) : v.get? (r ++ [k]) =
        v.children[k]?.bind fun w => w.get? r := get?_append v r [k]
    have erased : (eraseChild i u).children[j]? =
        if j < i then u.children[j]? else u.children[j + 1]? := by
      cases u with
      | leaf l => simp [eraseChild]
      | node a cs => exact List.getElem?_eraseIdx
    simp only [Option.bind_some, label?, child, erased]
    split_ifs <;> rfl

/-- Erasing a child changes no label outside its siblings' subtrees. -/
theorem label?_eraseAt_outside (outside : ∀ r k, q ≠ r ++ k :: p) :
    (t.eraseAt (i :: p)).label? q = t.label? q := by
  by_cases below : p <:+ q
  · obtain ⟨r, rfl⟩ := below
    rcases List.eq_nil_or_concat r with rfl | ⟨r, k, rfl⟩
    · rw [List.nil_append, eraseAt, label?, get?_modifyAt_self, label?]
      cases t.get? p with
      | none => rfl
      | some u => cases u <;> rfl
    · exact absurd (by simp) (outside r k)
  · exact label?_modifyAt_of_not_under below _

/-- Erasing creates no labels. -/
theorem exists_label?_of_eraseAt {l : ν ⊕ ℓ} (h : (t.eraseAt p).label? q = some l) :
    ∃ q', t.label? q' = some l := by
  cases p with
  | nil => exact ⟨q, h⟩
  | cons i p =>
    by_cases sibling : ∃ r k, q = r ++ k :: p
    · obtain ⟨r, k, rfl⟩ := sibling
      rw [label?_eraseAt_sibling] at h
      split at h
      · exact ⟨_, h⟩
      · exact ⟨_, h⟩
    · push Not at sibling
      exact ⟨q, by rwa [label?_eraseAt_outside sibling] at h⟩

end Erase

section Relabel

variable {t : Tree ν ℓ} {p q : Pos} {f : ν → ν} {g : ℓ → ℓ}

theorem label?_relabelAt_self :
    (t.relabelAt p f g).label? p = (t.label? p).map (Sum.map f g) := by
  rw [relabelAt, label?, get?_modifyAt_self, label?, Option.map_map, Option.map_map]
  congr 1
  funext u
  cases u <;> rfl

theorem label?_relabelAt_of_ne (different : q ≠ p) :
    (t.relabelAt p f g).label? q = t.label? q := by
  by_cases below : p <:+ q
  · obtain ⟨r, rfl⟩ := below
    rcases List.eq_nil_or_concat r with rfl | ⟨r, k, rfl⟩
    · exact absurd rfl different
    · rw [relabelAt, label?, get?_modifyAt_under, label?, get?_append]
      cases t.get? p with
      | none => rfl
      | some u =>
        rw [Option.bind_some, Option.bind_some, List.concat_eq_append, get?_append, get?_append]
        cases u <;> rfl
  · exact label?_modifyAt_of_not_under below _

end Relabel

mutual

/-- Change all labels of inner nodes. -/
def mapNodes {ν' : Type*} (f : ν → ν') : Tree ν ℓ → Tree ν' ℓ
  | leaf l => leaf l
  | node a cs => node (f a) (mapNodesList f cs)

def mapNodesList {ν' : Type*} (f : ν → ν') : List (Tree ν ℓ) → List (Tree ν' ℓ)
  | [] => []
  | c :: cs => mapNodes f c :: mapNodesList f cs

end

/-! ### All labels -/

mutual

/-- The labels of a tree in document order. -/
def labels : Tree ν ℓ → List (ν ⊕ ℓ)
  | leaf l => [.inr l]
  | node a cs => .inl a :: labelsList cs

/-- The labels of a list of trees in document order. -/
def labelsList : List (Tree ν ℓ) → List (ν ⊕ ℓ)
  | [] => []
  | c :: cs => labels c ++ labelsList cs

end

theorem labelsList_eq (cs : List (Tree ν ℓ)) : labelsList cs = cs.flatMap labels := by
  induction cs with
  | nil => rfl
  | cons c cs ih => rw [labelsList, ih, List.flatMap_cons]

@[simp] theorem labels_leaf (l : ℓ) : (leaf l : Tree ν ℓ).labels = [.inr l] := by rw [labels]

@[simp] theorem labels_node (a : ν) (cs : List (Tree ν ℓ)) :
    (node a cs).labels = .inl a :: cs.flatMap labels := by rw [labels, labelsList_eq]

theorem mem_labels_iff {t : Tree ν ℓ} {l : ν ⊕ ℓ} : l ∈ t.labels ↔ ∃ p, t.label? p = some l := by
  induction t with
  | leaf l' =>
    rw [labels_leaf, List.mem_singleton]
    constructor
    · rintro rfl
      exact ⟨[], rfl⟩
    · rintro ⟨p, hp⟩
      rcases List.eq_nil_or_concat p with rfl | ⟨p, i, rfl⟩
      · simpa [label?, eq_comm] using hp
      · rw [List.concat_eq_append, label?_append] at hp
        simp [get?_cons] at hp
  | node a cs ih =>
    rw [labels_node, List.mem_cons, List.mem_flatMap]
    constructor
    · rintro (rfl | ⟨c, member, inside⟩)
      · exact ⟨[], rfl⟩
      · obtain ⟨p, hp⟩ := (ih c member).mp inside
        obtain ⟨i, hi⟩ := List.mem_iff_getElem?.mp member
        refine ⟨p ++ [i], ?_⟩
        rw [label?_append]
        simp [get?_cons, hi, hp]
    · rintro ⟨p, hp⟩
      rcases List.eq_nil_or_concat p with rfl | ⟨p, i, rfl⟩
      · left
        simpa [label?, eq_comm] using hp
      · right
        rw [List.concat_eq_append, label?_append] at hp
        obtain ⟨c, hc, hl⟩ := Option.bind_eq_some_iff.mp hp
        have member : c ∈ cs := List.mem_of_getElem? (by simpa [get?_cons] using hc)
        exact ⟨c, member, (ih c member).mpr ⟨p, hl⟩⟩

/-! ### Weighing labels -/

section Weigh

variable {M : Type*} [AddCancelCommMonoid M] (w : ν ⊕ ℓ → M)

/-- The sum of the weights of all labels. -/
def weigh (t : Tree ν ℓ) : M := (t.labels.map w).sum

@[simp] theorem weigh_leaf (l : ℓ) : weigh w (leaf l : Tree ν ℓ) = w (.inr l) := by simp [weigh]

@[simp] theorem weigh_node (a : ν) (cs : List (Tree ν ℓ)) :
    weigh w (node a cs) = w (.inl a) + (cs.map (weigh w)).sum := by
  have list : ((cs.flatMap labels).map w).sum = (cs.map (weigh w)).sum := by
    induction cs with
    | nil => rfl
    | cons c cs ih =>
      rw [List.flatMap_cons, List.map_append, List.sum_append, ih, List.map_cons, List.sum_cons]
      rfl
  rw [weigh, labels_node, List.map_cons, List.sum_cons, list]

/-- The weight of a tree is that of its root and those of its children. -/
theorem weigh_eq (t : Tree ν ℓ) :
    weigh w t = w t.label + (t.children.map (weigh w)).sum := by
  cases t <;> simp

private theorem sum_weigh_modify {cs : List (Tree ν ℓ)} {i : ℕ} {c : Tree ν ℓ}
    (h : cs[i]? = some c) (f : Tree ν ℓ → Tree ν ℓ) :
    ((cs.modify i f).map (weigh w)).sum + weigh w c =
      (cs.map (weigh w)).sum + weigh w (f c) := by
  induction cs generalizing i with
  | nil => simp at h
  | cons d cs ih =>
    cases i with
    | zero =>
      obtain rfl : d = c := by simpa using h
      simp only [List.modify_zero_cons, List.map_cons, List.sum_cons]
      abel
    | succ i =>
      have tail := ih (i := i) (by simpa using h)
      simp only [List.modify_succ_cons, List.map_cons, List.sum_cons]
      rw [add_assoc, tail, add_assoc]

/-- An update exchanges the weight of the updated subtree for that of its image. -/
theorem weigh_modifyAt {t u : Tree ν ℓ} {p : Pos} (h : t.get? p = some u)
    (f : Tree ν ℓ → Tree ν ℓ) :
    weigh w (t.modifyAt p f) + weigh w u = weigh w t + weigh w (f u) := by
  induction p generalizing f u with
  | nil =>
    obtain rfl : t = u := by simpa using h
    exact add_comm _ _
  | cons i p ih =>
    obtain ⟨a, cs, hp, hi⟩ := exists_node_of_child h
    have outer := ih hp (modifyChild i f)
    have inner := sum_weigh_modify w hi f
    rw [modifyChild, weigh_node, weigh_node] at outer
    rw [modifyAt]
    apply add_right_cancel (b := w (.inl a) + (cs.map (weigh w)).sum)
    calc _ = weigh w (t.modifyAt p (modifyChild i f)) +
          (w (.inl a) + (cs.map (weigh w)).sum) + weigh w u := by abel
      _ = weigh w t + w (.inl a) + (((cs.modify i f).map (weigh w)).sum + weigh w u) := by
          rw [outer]; abel
      _ = _ := by rw [inner]; abel

theorem weigh_appendAt {t u : Tree ν ℓ} {a : ν} {cs : List (Tree ν ℓ)} {p : Pos}
    (h : t.get? p = some (node a cs)) :
    weigh w (t.appendAt p u) = weigh w t + weigh w u := by
  have exchange := weigh_modifyAt w h (addLast u)
  rw [addLast, weigh_node, weigh_node, List.map_append, List.sum_append, List.map_singleton,
    List.sum_singleton] at exchange
  apply add_right_cancel (b := w (.inl a) + (cs.map (weigh w)).sum)
  rw [appendAt, exchange]
  abel

theorem weigh_eraseAt {t u : Tree ν ℓ} {i : ℕ} {p : Pos} (h : t.get? (i :: p) = some u) :
    weigh w (t.eraseAt (i :: p)) + weigh w u = weigh w t := by
  obtain ⟨a, cs, hp, hi⟩ := exists_node_of_child h
  have exchange := weigh_modifyAt w hp (eraseChild i)
  have sum : ((cs.eraseIdx i).map (weigh w)).sum + weigh w u = (cs.map (weigh w)).sum := by
    obtain ⟨inside, rfl⟩ := List.getElem?_eq_some_iff.mp hi
    rw [List.eraseIdx_eq_take_drop_succ]
    conv_rhs => rw [← List.take_append_drop i cs, List.drop_eq_getElem_cons inside]
    simp only [List.map_append, List.sum_append, List.map_cons, List.sum_cons]
    abel
  rw [eraseChild, weigh_node, weigh_node, ← sum] at exchange
  apply add_right_cancel (b := w (.inl a) + ((cs.eraseIdx i).map (weigh w)).sum)
  rw [eraseAt, ← exchange]
  abel

theorem weigh_relabelAt {t u : Tree ν ℓ} {p : Pos} (h : t.get? p = some u) (f : ν → ν)
    (g : ℓ → ℓ) :
    weigh w (t.relabelAt p f g) + w u.label = weigh w t + w (u.relabel f g).label := by
  have exchange := weigh_modifyAt w h (relabel f g)
  rw [weigh_eq w u, weigh_eq w (relabel f g u)] at exchange
  have children : (relabel f g u).children = u.children := by cases u <;> rfl
  rw [children] at exchange
  apply add_right_cancel (b := (u.children.map (weigh w)).sum)
  rw [relabelAt, add_assoc, exchange, add_assoc]

/-- A subtree is part of the tree. -/
theorem exists_weigh_of_get? {t u : Tree ν ℓ} {p : Pos} (h : t.get? p = some u) :
    ∃ rest, weigh w t = weigh w u + rest := by
  induction p generalizing u with
  | nil =>
    obtain rfl : t = u := by simpa using h
    exact ⟨0, (add_zero _).symm⟩
  | cons i p ih =>
    obtain ⟨a, cs, hp, hi⟩ := exists_node_of_child h
    obtain ⟨rest, split⟩ := ih hp
    obtain ⟨before, after, rfl⟩ := List.append_of_mem (List.mem_of_getElem? hi)
    refine ⟨w (.inl a) + (before.map (weigh w)).sum + (after.map (weigh w)).sum + rest, ?_⟩
    rw [split, weigh_node, List.map_append, List.sum_append, List.map_cons, List.sum_cons]
    abel

theorem weigh_eq_zero_iff {w : ν ⊕ ℓ → ℕ} {t : Tree ν ℓ} :
    weigh w t = 0 ↔ ∀ p l, t.label? p = some l → w l = 0 := by
  rw [weigh, List.sum_eq_zero_iff]
  constructor
  · intro zero p l there
    exact zero _ (List.mem_map_of_mem (mem_labels_iff.mpr ⟨p, there⟩))
  · intro zero x member
    obtain ⟨l, inside, rfl⟩ := List.mem_map.mp member
    obtain ⟨p, there⟩ := mem_labels_iff.mp inside
    exact zero p l there

end Weigh

/-! ### Keys of labels -/

section Keys

variable {κ : Type*} {w : ν ⊕ ℓ → Multiset κ}

private theorem mem_sum_iff {parts : List (Multiset κ)} {k : κ} :
    k ∈ parts.sum ↔ ∃ part ∈ parts, k ∈ part := by
  induction parts with
  | nil => simp
  | cons part parts ih => simp [ih]

theorem mem_weigh_iff {t : Tree ν ℓ} {k : κ} :
    k ∈ weigh w t ↔ ∃ p l, t.label? p = some l ∧ k ∈ w l := by
  rw [weigh, mem_sum_iff]
  constructor
  · rintro ⟨keys, member, inside⟩
    obtain ⟨l, there, rfl⟩ := List.mem_map.mp member
    obtain ⟨p, position⟩ := mem_labels_iff.mp there
    exact ⟨p, l, position, inside⟩
  · rintro ⟨p, l, position, inside⟩
    exact ⟨w l, List.mem_map_of_mem (mem_labels_iff.mpr ⟨p, position⟩), inside⟩

private theorem index_eq_of_mem {parts : List (Multiset κ)} (h : parts.sum.Nodup) {i j : ℕ}
    {a b : Multiset κ} (first : parts[i]? = some a) (second : parts[j]? = some b) {k : κ}
    (inA : k ∈ a) (inB : k ∈ b) : i = j := by
  induction parts generalizing i j with
  | nil => cases first
  | cons part parts ih =>
    rw [List.sum_cons, Multiset.nodup_add] at h
    obtain ⟨_, rest, apart⟩ := h
    have later {n : ℕ} {c : Multiset κ} (there : parts[n]? = some c) (inC : k ∈ c) :
        k ∉ part := fun inPart => Multiset.disjoint_left.mp apart inPart
          (Multiset.mem_of_le (List.le_sum_of_mem (List.mem_of_getElem? there)) inC)
    cases i with
    | zero =>
      cases first
      cases j with
      | zero => rfl
      | succ j => exact absurd inA (later second inB)
    | succ i =>
      cases j with
      | zero =>
        cases second
        exact absurd inB (later first inA)
      | succ j => exact congrArg (· + 1) (ih rest first second)

/-- When keys are unique, a key has one position. -/
theorem position_eq_of_key {t : Tree ν ℓ} (unique : (weigh w t).Nodup) {p q : Pos}
    {l m : ν ⊕ ℓ} {k : κ} (first : t.label? p = some l) (second : t.label? q = some m)
    (inFirst : k ∈ w l) (inSecond : k ∈ w m) : p = q := by
  induction t generalizing p q with
  | leaf leaf =>
    have only {r : Pos} {n : ν ⊕ ℓ} (there : (Tree.leaf leaf : Tree ν ℓ).label? r = some n) :
        r = [] := by
      rcases List.eq_nil_or_concat r with rfl | ⟨r, i, rfl⟩
      · rfl
      · rw [List.concat_eq_append, label?_append] at there
        simp [get?_cons] at there
    rw [only first, only second]
  | node top children ih =>
    rw [weigh_node, Multiset.nodup_add] at unique
    obtain ⟨_, unique, apart⟩ := unique
    have inside {r : Pos} {i : ℕ} {n : ν ⊕ ℓ}
        (there : (node top children).label? (r ++ [i]) = some n) :
        ∃ c, children[i]? = some c ∧ c.label? r = some n := by
      rw [label?_append, get?_cons] at there
      exact Option.bind_eq_some_iff.mp there
    have below {r : Pos} {i : ℕ} {n : ν ⊕ ℓ}
        (there : (node top children).label? (r ++ [i]) = some n) (inBelow : k ∈ w n) :
        k ∉ w (.inl top) := by
      obtain ⟨c, child, label⟩ := inside there
      intro inTop
      refine Multiset.disjoint_left.mp apart inTop ?_
      exact Multiset.mem_of_le (List.le_sum_of_mem
        (List.mem_map_of_mem (List.mem_of_getElem? child)))
          (mem_weigh_iff.mpr ⟨r, n, label, inBelow⟩)
    rcases List.eq_nil_or_concat p with rfl | ⟨p, i, rfl⟩
    · rcases List.eq_nil_or_concat q with rfl | ⟨q, j, rfl⟩
      · rfl
      · cases first
        rw [List.concat_eq_append] at second
        exact absurd inFirst (below second inSecond)
    · rw [List.concat_eq_append] at first
      rcases List.eq_nil_or_concat q with rfl | ⟨q, j, rfl⟩
      · cases second
        exact absurd inSecond (below first inFirst)
      · rw [List.concat_eq_append] at second
        obtain ⟨c, child, label⟩ := inside first
        obtain ⟨d, child', label'⟩ := inside second
        obtain rfl : i = j := index_eq_of_mem unique (by rw [List.getElem?_map, child]; rfl)
          (by rw [List.getElem?_map, child']; rfl) (mem_weigh_iff.mpr ⟨p, l, label, inFirst⟩)
          (mem_weigh_iff.mpr ⟨q, m, label', inSecond⟩)
        cases child.symm.trans child'
        have member := List.mem_of_getElem? child
        have unique := Multiset.nodup_of_le
          (List.le_sum_of_mem (List.mem_map_of_mem member)) unique
        rw [ih c member unique label label']

end Keys

end Tree

end Hdf
