import Hdf.Lib.Traversal

/-!
# Walking through a tree from one of its nodes

A walk goes from a node to its first child, and from a node without children to
the next sibling of the closest ancestor that has one. It comes through the
subtree where it starts in pre-order, and then through everything to the right of
that subtree, as climbing does not stop at the node where the walk started.

## Main results

* `Tree.visits_preorder_append_after`: the walk from a node
* `Tree.mem_preorder_iff`: it comes to all positions of the subtree
* `Tree.length_preorder_append_after_le`: it is not longer than the tree
-/

namespace Hdf.Tree

variable {ν ℓ : Type*}

/-- The next sibling of the closest node on the way up that has one. -/
def climb (t : Tree ν ℓ) : Pos → Option Pos
  | [] => none
  | i :: p => if (t.get? ((i + 1) :: p)).isSome then some ((i + 1) :: p) else climb t p

/-- One step of the walk. -/
def advance (t : Tree ν ℓ) (p : Pos) : Option Pos :=
  if (t.get? (0 :: p)).isSome then some (0 :: p) else t.climb p

mutual

/-- The positions of a subtree in pre-order, below its own position. -/
def preorder : Tree ν ℓ → Pos → List Pos
  | leaf _, p => [p]
  | node _ cs, p => p :: preorderList cs p 0

/-- The positions of the children from a number on. -/
def preorderList : List (Tree ν ℓ) → Pos → ℕ → List Pos
  | [], _, _ => []
  | c :: cs, p, i => preorder c (i :: p) ++ preorderList cs p (i + 1)

end

/-- The positions to the right of a subtree, in pre-order. -/
def after (t : Tree ν ℓ) : Pos → List Pos
  | [] => []
  | i :: p => preorderList ((t.childrenAt p).drop (i + 1)) p (i + 1) ++ after t p

/-- The walk from a position comes through these positions and ends. -/
inductive Visits (t : Tree ν ℓ) : Option Pos → List Pos → Prop
  | stop : Visits t none []
  | visit {p : Pos} {rest : List Pos} (next : Visits t (t.advance p) rest) :
    Visits t (some p) (p :: rest)

variable {t u : Tree ν ℓ} {p : Pos} {rest : List Pos}

theorem advance_eq (h : t.get? p = some u) :
    t.advance p = if u.children = [] then t.climb p else some (0 :: p) := by
  rw [advance, get?_child h]
  cases u.children with
  | nil | cons c cs => rfl

theorem climb_cons {c : Tree ν ℓ} {cs : List (Tree ν ℓ)} {i : ℕ}
    (here : (t.childrenAt p).drop i = c :: cs) :
    t.climb (i :: p) = if cs = [] then t.climb p else some ((i + 1) :: p) := by
  have next : (t.childrenAt p)[i + 1]? = cs.head? := by
    rw [← List.head?_drop, ← List.tail_drop, here, List.tail_cons]
  rw [climb, ← getElem?_childrenAt, next]
  cases cs with
  | nil | cons d cs => rfl

/-- The children from a number on, one after the other. -/
theorem visits_children {cs : List (Tree ν ℓ)} {i : ℕ} (here : (t.childrenAt p).drop i = cs)
    (each : ∀ c ∈ cs, ∀ q, t.get? q = some c → ∀ rest, Visits t (t.climb q) rest →
      Visits t (some q) (c.preorder q ++ rest))
    (behind : Visits t (t.climb p) rest) :
    Visits t (if cs = [] then t.climb p else some (i :: p)) (preorderList cs p i ++ rest) := by
  induction cs generalizing i with
  | nil => exact behind
  | cons c cs ih =>
    have child : t.get? (i :: p) = some c := by
      rw [← getElem?_childrenAt, ← List.head?_drop, here, List.head?_cons]
    rw [if_neg (List.cons_ne_nil c cs), preorderList, List.append_assoc]
    apply each c List.mem_cons_self (i :: p) child
    rw [climb_cons here]
    exact ih (by rw [← List.tail_drop, here, List.tail_cons]) fun d member =>
      each d (List.mem_cons_of_mem c member)

/-- By induction on the subtree, for every way to go on behind it. -/
theorem visits_preorder (h : t.get? p = some u) (behind : Visits t (t.climb p) rest) :
    Visits t (some p) (u.preorder p ++ rest) := by
  induction u generalizing p rest with
  | leaf l =>
    refine .visit ?_
    rw [advance_eq h, if_pos (show (leaf l : Tree ν ℓ).children = [] from rfl)]
    exact behind
  | node a cs ih =>
    have here : (t.childrenAt p).drop 0 = cs := by rw [childrenAt_of_get? h]; rfl
    refine .visit ?_
    rw [advance_eq h]
    exact visits_children here (fun c member q there rest behind => ih c member there behind) behind

theorem visits_after (h : t.get? p = some u) : Visits t (t.climb p) (t.after p) := by
  induction p generalizing u with
  | nil => exact .stop
  | cons i p ih =>
    obtain ⟨a, cs, parent, child⟩ := exists_node_of_child h
    have here : (t.childrenAt p).drop i = u :: (t.childrenAt p).drop (i + 1) := by
      rw [childrenAt_of_get? parent, children_node, ← List.tail_drop]
      exact (List.cons_head?_tail (List.head?_drop.trans child)).symm
    rw [climb_cons here, after]
    exact visits_children rfl (fun c _ q there rest behind => visits_preorder there behind)
      (ih parent)

/-- A walk comes through the subtree where it starts and all that is to the right of it. -/
theorem visits_preorder_append_after (h : t.get? p = some u) :
    Visits t (some p) (u.preorder p ++ t.after p) :=
  visits_preorder h (visits_after h)

/-! ### The positions of a subtree -/

theorem mem_preorderList_iff {cs : List (Tree ν ℓ)} {i : ℕ} {q p : Pos} :
    q ∈ preorderList cs p i ↔
      ∃ (j : ℕ) (c : Tree ν ℓ), cs[j]? = some c ∧ q ∈ c.preorder ((i + j) :: p) := by
  induction cs generalizing i with
  | nil => simp [preorderList]
  | cons c cs ih =>
    rw [preorderList, List.mem_append, ih]
    constructor
    · rintro (here | ⟨j, d, there, member⟩)
      · exact ⟨0, c, rfl, here⟩
      · exact ⟨j + 1, d, there, by rwa [Nat.add_right_comm] at member⟩
    · rintro ⟨j, d, there, member⟩
      cases j with
      | zero =>
        obtain rfl : c = d := Option.some.inj there
        exact .inl member
      | succ j => exact .inr ⟨j, d, there, by rwa [Nat.add_right_comm]⟩

/-- The walk through a subtree comes to all of its positions. -/
theorem mem_preorder_iff {u : Tree ν ℓ} {q p : Pos} :
    q ∈ u.preorder p ↔ ∃ r v, q = r ++ p ∧ u.get? r = some v := by
  induction u generalizing p with
  | leaf l =>
    rw [preorder, List.mem_singleton]
    constructor
    · rintro rfl
      exact ⟨[], leaf l, rfl, rfl⟩
    · rintro ⟨r, v, rfl, there⟩
      cases r with
      | nil => rfl
      | cons i r => rw [get?_leaf_cons] at there; cases there
  | node a cs ih =>
    have top (i : ℕ) : (node a cs).get? [i] = cs[i]? := rfl
    rw [preorder, List.mem_cons, mem_preorderList_iff]
    constructor
    · rintro (rfl | ⟨j, c, child, member⟩)
      · exact ⟨[], node a cs, rfl, rfl⟩
      · obtain ⟨r, v, rfl, there⟩ := (ih c (List.mem_of_getElem? child)).mp member
        refine ⟨r ++ [j], v, by simp, ?_⟩
        rw [get?_append, top, child]
        exact there
    · rintro ⟨r, v, rfl, there⟩
      rcases r.eq_nil_or_concat with rfl | ⟨r, j, rfl⟩
      · exact .inl rfl
      · rw [List.concat_eq_append, get?_append, top] at there
        obtain ⟨c, child, there⟩ := Option.bind_eq_some_iff.mp there
        refine .inr ⟨j, c, child, (ih c (List.mem_of_getElem? child)).mpr ⟨r, v, ?_, there⟩⟩
        simp

/-! ### The length of the walk -/

theorem length_preorderList {cs : List (Tree ν ℓ)} {i : ℕ}
    (each : ∀ c ∈ cs, ∀ p, (c.preorder p).length = weigh (fun _ => 1) c) :
    (preorderList cs p i).length = (cs.map (weigh fun _ => 1)).sum := by
  induction cs generalizing i with
  | nil => rfl
  | cons c cs ih =>
    rw [preorderList, List.length_append, each c List.mem_cons_self,
      ih fun d member => each d (List.mem_cons_of_mem c member), List.map_cons, List.sum_cons]

theorem length_preorder (u : Tree ν ℓ) (p : Pos) :
    (u.preorder p).length = weigh (fun _ => 1) u := by
  induction u generalizing p with
  | leaf l => simp [preorder, weigh_eq]
  | node a cs ih =>
    rw [preorder, List.length_cons, length_preorderList ih, weigh_eq, children_node, add_comm]

theorem length_after (t : Tree ν ℓ) (p : Pos) : (t.after p).length = rightOf (fun _ => 1) t p := by
  induction p with
  | nil => rfl
  | cons i p ih =>
    rw [after, List.length_append, ih, length_preorderList fun c _ => length_preorder c, rightOf]

theorem length_preorder_append_after_le (h : t.get? p = some u) :
    (u.preorder p ++ t.after p).length ≤ t.labels.length := by
  have parts := rightOf_add_above_le (w := fun _ => 1) h
  have whole : weigh (fun _ => 1) t = t.labels.length := by simp [weigh]
  rw [List.length_append, length_preorder, length_after]
  omega

end Hdf.Tree
