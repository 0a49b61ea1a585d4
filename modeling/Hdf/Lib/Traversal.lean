import Hdf.Lib.Tree

/-!
# What a depth-first traversal has still ahead of it

A cursor that visits a tree depth first has seen everything to the left of its
position and nothing to the right of it. `rightOf` is the weight of the subtrees
to the right, `above` that of the labels on the way to the root. A walk that
visits a node after its children still has both ahead of it.

The lemmas say how the two change when the cursor moves, and that updates at or
below the cursor change neither.

## Main results

* `Tree.rightOf_first`, `Tree.rightOf_next`, `Tree.rightOf_last`: moving the cursor
* `Tree.rightOf_modifyAt`, `Tree.above_modifyAt`: updates at or below the cursor
* `Tree.rightOf_eraseAt`: dropping the subtree at the cursor
* `Tree.rightOf_add_above_le`: the parts ahead are disjoint parts of the tree
-/

namespace Hdf.Tree

variable {ν ℓ M : Type*} [AddCancelCommMonoid M] {v w : ν ⊕ ℓ → M} {t u : Tree ν ℓ}
  {i : ℕ} {p c : Pos}

/-- The weight of the subtree at a position. -/
def weighAt (w : ν ⊕ ℓ → M) (t : Tree ν ℓ) (p : Pos) : M := ((t.get? p).map (weigh w)).getD 0

/-- The weight of the label at a position. -/
def labelWeight (w : ν ⊕ ℓ → M) (t : Tree ν ℓ) (p : Pos) : M := ((t.label? p).map w).getD 0

/-- The weight of the subtrees to the right of a position. -/
def rightOf (w : ν ⊕ ℓ → M) (t : Tree ν ℓ) : Pos → M
  | [] => 0
  | i :: p => (((t.childrenAt p).drop (i + 1)).map (weigh w)).sum + rightOf w t p

/-- The weight of the labels above a position. -/
def above (w : ν ⊕ ℓ → M) (t : Tree ν ℓ) : Pos → M
  | [] => 0
  | _ :: p => labelWeight w t p + above w t p

theorem weighAt_of_get? (h : t.get? p = some u) : weighAt w t p = weigh w u := by
  rw [weighAt, h]; rfl

theorem labelWeight_of_get? (h : t.get? p = some u) : labelWeight w t p = w u.label := by
  rw [labelWeight, label?_of_get? h]; rfl

/-! ### Moving the cursor -/

/-- Going down to the first child opens the node. -/
theorem rightOf_first (h : t.get? p = some u) (nonempty : u.children ≠ []) :
    rightOf w t (0 :: p) + weighAt w t (0 :: p) + labelWeight w t p =
      rightOf w t p + weighAt w t p := by
  obtain ⟨first, rest, children⟩ := List.exists_cons_of_ne_nil nonempty
  have head : t.get? (0 :: p) = some first := by rw [get?_child h, children]; rfl
  rw [rightOf, childrenAt_of_get? h, children, weighAt_of_get? head, weighAt_of_get? h,
    weigh_eq w u, children, labelWeight_of_get? h]
  simp only [List.drop_succ_cons, List.drop_zero, List.map_cons, List.sum_cons]
  abel

theorem rightOf_next (h : t.get? ((i + 1) :: p) = some u) :
    rightOf w t (i :: p) = weighAt w t ((i + 1) :: p) + rightOf w t ((i + 1) :: p) := by
  have there : (t.childrenAt p)[i + 1]? = some u := by rw [getElem?_childrenAt, h]
  obtain ⟨inside, value⟩ := List.getElem?_eq_some_iff.mp there
  rw [rightOf, rightOf, weighAt_of_get? h, List.drop_eq_getElem_cons inside, value, List.map_cons,
    List.sum_cons, add_assoc]

theorem rightOf_last (h : t.get? ((i + 1) :: p) = none) :
    rightOf w t (i :: p) = rightOf w t p := by
  rw [← getElem?_childrenAt, List.getElem?_eq_none_iff] at h
  rw [rightOf, List.drop_eq_nil_of_le h, List.map_nil, List.sum_nil, zero_add]

theorem above_one (h : (t.get? c).isSome) : above (fun _ => 1) t c = c.length := by
  induction c with
  | nil => rfl
  | cons i c ih =>
    have outer : (t.get? c).isSome := get?_isSome_of_append (r := [i]) h
    obtain ⟨u, there⟩ := Option.isSome_iff_exists.mp outer
    rw [above, ih outer, labelWeight_of_get? there, List.length_cons, add_comm]

/-! ### Reading a position from the root -/

theorem get?_snoc (t : Tree ν ℓ) (p : Pos) (k : ℕ) :
    t.get? (p ++ [k]) = t.children[k]?.bind fun c => c.get? p := by
  rw [get?_append, get?_cons, get?_nil, Option.bind_some]

theorem childrenAt_snoc {a : ν} {cs : List (Tree ν ℓ)} {k : ℕ} (h : cs[k]? = some u) (p : Pos) :
    (node a cs).childrenAt (p ++ [k]) = u.childrenAt p := by
  rw [childrenAt, get?_snoc, children_node, h, Option.bind_some, childrenAt]

theorem label?_snoc {a : ν} {cs : List (Tree ν ℓ)} {k : ℕ} (h : cs[k]? = some u) (p : Pos) :
    (node a cs).label? (p ++ [k]) = u.label? p := by
  rw [label?, get?_snoc, children_node, h, Option.bind_some, label?]

theorem rightOf_snoc {a : ν} {cs : List (Tree ν ℓ)} {k : ℕ} (h : cs[k]? = some u) (p : Pos) :
    rightOf w (node a cs) (p ++ [k]) = rightOf w u p + ((cs.drop (k + 1)).map (weigh w)).sum := by
  induction p with
  | nil =>
    rw [List.nil_append, rightOf, rightOf, rightOf, childrenAt, get?_nil]
    simp
  | cons i p ih => rw [List.cons_append, rightOf, rightOf, childrenAt_snoc h, ih, add_assoc]

theorem above_snoc {a : ν} {cs : List (Tree ν ℓ)} {k : ℕ} (h : cs[k]? = some u) (p : Pos) :
    above w (node a cs) (p ++ [k]) = above w u p + w (.inl a) := by
  induction p with
  | nil => simp [above, labelWeight, label?]
  | cons i p ih =>
    rw [List.cons_append, above, above, ih, labelWeight, label?_snoc h, labelWeight, add_assoc]

/-- The labels above, the subtrees to the right and the subtree at the cursor are
disjoint parts of the tree. -/
theorem rightOf_add_above_le {w : ν ⊕ ℓ → ℕ} {t : Tree ν ℓ} {p : Pos} (h : t.get? p = some u) :
    rightOf w t p + above w t p + weigh w u ≤ weigh w t := by
  induction p using List.reverseRecOn generalizing t with
  | nil =>
    obtain rfl : t = u := by simpa using h
    simp [rightOf, above]
  | append_singleton p k ih =>
    rw [get?_snoc] at h
    obtain ⟨c, child, inside⟩ := Option.bind_eq_some_iff.mp h
    cases t with
    | leaf l => simp at child
    | node a cs =>
      rw [children_node] at child
      have below := ih inside
      obtain ⟨bound, value⟩ := List.getElem?_eq_some_iff.mp child
      have split : (cs.map (weigh w)).sum = ((cs.take k).map (weigh w)).sum +
          (weigh w c + ((cs.drop (k + 1)).map (weigh w)).sum) := by
        conv_lhs => rw [← List.take_append_drop k cs, List.drop_eq_getElem_cons bound, value]
        simp
      rw [rightOf_snoc child, above_snoc child, weigh_node, split]
      omega

/-! ### Updates at or below the cursor -/

theorem childrenAt_modifyAt_drop (t : Tree ν ℓ) (r p : Pos) (i : ℕ) (f : Tree ν ℓ → Tree ν ℓ) :
    ((t.modifyAt (r ++ i :: p) f).childrenAt p).drop (i + 1) =
      (t.childrenAt p).drop (i + 1) := by
  have split : r ++ i :: p = (r ++ [i]) ++ p := by simp
  apply List.ext_getElem?
  intro k
  rw [List.getElem?_drop, List.getElem?_drop, getElem?_childrenAt, getElem?_childrenAt, split,
    modifyAt_append, get?_cons, get?_modifyAt_self, get?_cons]
  cases t.get? p with
  | none => rfl
  | some u =>
    simp only [modifyAt_append]
    exact children_modifyChild_ne (by omega) _ _

theorem rightOf_modifyAt (t : Tree ν ℓ) (r c : Pos) (f : Tree ν ℓ → Tree ν ℓ) :
    rightOf w (t.modifyAt (r ++ c) f) c = rightOf w t c := by
  induction c generalizing r with
  | nil => rfl
  | cons i c ih =>
    have split : r ++ i :: c = (r ++ [i]) ++ c := by simp
    rw [rightOf, childrenAt_modifyAt_drop, split, ih, rightOf]

theorem above_modifyAt (t : Tree ν ℓ) (r c : Pos) (f : Tree ν ℓ → Tree ν ℓ) :
    above w (t.modifyAt (r ++ c) f) c = above w t c := by
  induction c generalizing r with
  | nil => rfl
  | cons i c ih =>
    have split : r ++ i :: c = (r ++ [i]) ++ c := by simp
    have outside : ¬ r ++ i :: c <:+ c := fun ⟨s, same⟩ => by
      have := congrArg List.length same
      simp at this
      omega
    rw [above, labelWeight, label?_modifyAt_of_not_under outside, split, ih, above, labelWeight]

/-- Dropping the subtree at the cursor leaves the same things ahead: the next
sibling has moved to the cursor. -/
theorem rightOf_eraseAt (h : t.get? ((i + 1) :: p) = some u) :
    (t.eraseAt (i :: p)).get? (i :: p) = some u ∧
      weighAt w (t.eraseAt (i :: p)) (i :: p) + rightOf w (t.eraseAt (i :: p)) (i :: p) =
        rightOf w t (i :: p) := by
  obtain ⟨a, cs, hp, there⟩ := exists_node_of_child h
  have erased : (t.eraseAt (i :: p)).get? p = some (node a (cs.eraseIdx i)) := by
    rw [eraseAt, get?_modifyAt_self, hp]; rfl
  have moved : (cs.eraseIdx i)[i]? = some u := by
    rw [List.getElem?_eraseIdx, if_neg (lt_irrefl i), there]
  have current : (t.eraseAt (i :: p)).get? (i :: p) = some u := by
    rw [get?_child erased, children_node, moved]
  refine ⟨current, ?_⟩
  obtain ⟨inside, value⟩ := List.getElem?_eq_some_iff.mp there
  have later : (cs.eraseIdx i).drop (i + 1) = cs.drop (i + 2) := by
    apply List.ext_getElem?
    intro k
    rw [List.getElem?_drop, List.getElem?_drop, List.getElem?_eraseIdx, if_neg (by omega)]
    congr 1
    omega
  have outer : rightOf w (t.eraseAt (i :: p)) p = rightOf w t p := rightOf_modifyAt t [] p _
  rw [weighAt_of_get? current, rightOf, childrenAt_of_get? erased, children_node, later, outer,
    rightOf, childrenAt_of_get? hp, children_node, List.drop_eq_getElem_cons inside, value,
    List.map_cons, List.sum_cons, add_assoc]

theorem rightOf_eraseAt_parent : rightOf w (t.eraseAt (i :: p)) p = rightOf w t p :=
  rightOf_modifyAt t [] p _

theorem above_eraseAt_parent : above w (t.eraseAt (i :: p)) p = above w t p :=
  above_modifyAt t [] p _

theorem labelWeight_eraseAt_parent :
    labelWeight w (t.eraseAt (i :: p)) p = labelWeight w t p := by
  rw [labelWeight, label?_eraseAt_outside, labelWeight]
  intro r k same
  have := congrArg List.length same
  simp at this
  omega

/-- A child appended below the cursor adds to the subtree there. -/
theorem weighAt_appendAt_under {a : ν} {cs : List (Tree ν ℓ)} {r : Pos}
    (there : t.get? (r ++ c) = some (node a cs)) :
    weighAt w (t.appendAt (r ++ c) u) c = weighAt w t c + weigh w u := by
  rw [get?_append] at there
  obtain ⟨v, outer, inside⟩ := Option.bind_eq_some_iff.mp there
  have image : (t.appendAt (r ++ c) u).get? c = some (v.appendAt r u) := by
    rw [appendAt, modifyAt_append, get?_modifyAt_self, outer]
    rfl
  rw [weighAt_of_get? image, weighAt_of_get? outer, weigh_appendAt w inside]

/-! ### Updates elsewhere -/

/-- Changing a label to one of the same weight keeps the weight of every subtree. -/
theorem weighAt_relabelAt {q : Pos} {f : ν → ν} {g : ℓ → ℓ} (there : t.get? q = some u)
    (same : w (u.relabel f g).label = w u.label) (c : Pos) :
    weighAt w (t.relabelAt q f g) c = weighAt w t c := by
  by_cases below : c <:+ q
  · obtain ⟨r, rfl⟩ := below
    rw [get?_append] at there
    obtain ⟨v, outer, inside⟩ := Option.bind_eq_some_iff.mp there
    have image : (t.relabelAt (r ++ c) f g).get? c = some (v.relabelAt r f g) := by
      rw [relabelAt, modifyAt_append, get?_modifyAt_self, outer]
      rfl
    have exchange := weigh_relabelAt w inside f g
    rw [same] at exchange
    rw [weighAt_of_get? image, weighAt_of_get? outer, add_right_cancel exchange]
  · by_cases above : q <:+ c
    · obtain ⟨r, rfl⟩ := above
      have inner : (u.relabel f g).get? r = u.get? r := by
        rcases List.eq_nil_or_concat r with rfl | ⟨r, k, rfl⟩
        · exact absurd List.suffix_rfl below
        · rw [List.concat_eq_append, get?_snoc, get?_snoc]
          cases u <;> rfl
      rw [weighAt, relabelAt, get?_modifyAt_under, there, Option.bind_some, inner, weighAt,
        get?_append, there, Option.bind_some]
    · rw [weighAt, relabelAt, get?_modifyAt_of_disjoint above below, weighAt]

/-- An update that keeps the weight of the subtree it changes, and what its own
positions have to their right, keeps what every cursor has to its right. -/
theorem rightOf_modifyAt_of_same {q : Pos} {f : Tree ν ℓ → Tree ν ℓ}
    (there : t.get? q = some u) (weight : weigh w (f u) = weigh w u)
    (inside : ∀ r, (u.get? r).isSome → rightOf w (f u) r = rightOf w u r)
    (h : (t.get? c).isSome) : rightOf w (t.modifyAt q f) c = rightOf w t c := by
  induction q using List.reverseRecOn generalizing t c with
  | nil =>
    obtain rfl : t = u := by simpa using there
    exact inside c h
  | append_singleton q k ih =>
    rw [get?_snoc] at there
    obtain ⟨d, child, below⟩ := Option.bind_eq_some_iff.mp there
    cases t with
    | leaf l => simp at child
    | node a cs =>
      rw [children_node] at child
      have image : (node a cs).modifyAt (q ++ [k]) f =
          node a (cs.modify k fun d => d.modifyAt q f) := modifyAt_append _ q [k] f
      have same : weigh w (d.modifyAt q f) = weigh w d := by
        have exchange := weigh_modifyAt w below f
        rw [weight] at exchange
        exact add_right_cancel exchange
      rw [image]
      rcases List.eq_nil_or_concat c with rfl | ⟨c, j, rfl⟩
      · rfl
      · rw [List.concat_eq_append] at h ⊢
        rw [get?_snoc] at h
        obtain ⟨v, hv⟩ := Option.isSome_iff_exists.mp h
        obtain ⟨e, sibling, inside'⟩ := Option.bind_eq_some_iff.mp hv
        rw [children_node] at sibling
        have weights : ((cs.modify k fun d => d.modifyAt q f).map (weigh w)) =
            cs.map (weigh w) := by
          apply List.ext_getElem?
          intro n
          rw [List.getElem?_map, List.getElem?_map, List.getElem?_modify]
          by_cases hn : k = n
          · subst hn
            rw [child]
            simp [same]
          · cases cs[n]? <;> simp [hn]
        have dropped : ((cs.modify k fun d => d.modifyAt q f).drop (j + 1)).map (weigh w) =
            (cs.drop (j + 1)).map (weigh w) := by rw [List.map_drop, weights, List.map_drop]
        by_cases hj : k = j
        · subst hj
          obtain rfl : d = e := Option.some.inj (child.symm.trans sibling)
          have changed : (cs.modify k fun d => d.modifyAt q f)[k]? = some (d.modifyAt q f) := by
            rw [List.getElem?_modify, child]; simp
          rw [rightOf_snoc changed, rightOf_snoc child, dropped, ih below (by simp [inside'])]
        · have kept : (cs.modify k fun d => d.modifyAt q f)[j]? = some e := by
            rw [List.getElem?_modify, sibling]; simp [hj]
          rw [rightOf_snoc kept, rightOf_snoc sibling, dropped]

/-- Appending a weightless tree anywhere puts nothing to the right of a cursor. -/
theorem rightOf_appendAt {a : ν} {cs : List (Tree ν ℓ)} {q : Pos}
    (there : t.get? q = some (node a cs)) (weightless : weigh w u = 0)
    (h : (t.get? c).isSome) : rightOf w (t.appendAt q u) c = rightOf w t c := by
  refine rightOf_modifyAt_of_same there (by simp [addLast, weightless]) ?_ h
  intro r hr
  rcases List.eq_nil_or_concat r with rfl | ⟨r, k, rfl⟩
  · rfl
  · rw [List.concat_eq_append] at hr ⊢
    rw [get?_snoc] at hr
    obtain ⟨v, hv⟩ := Option.isSome_iff_exists.mp hr
    obtain ⟨e, child, _⟩ := Option.bind_eq_some_iff.mp hv
    rw [children_node] at child
    have bound := (List.getElem?_eq_some_iff.mp child).1
    have kept : (cs ++ [u])[k]? = some e := by rw [List.getElem?_append_left bound, child]
    rw [addLast, rightOf_snoc kept, rightOf_snoc child, List.drop_append_of_le_length bound]
    simp [weightless]

/-- Changing a label to one of the same weight keeps what a cursor has to its right. -/
theorem rightOf_relabelAt {q : Pos} {f : ν → ν} {g : ℓ → ℓ} (there : t.get? q = some u)
    (same : w (u.relabel f g).label = w u.label) (h : (t.get? c).isSome) :
    rightOf w (t.relabelAt q f g) c = rightOf w t c := by
  have children : (u.relabel f g).children = u.children := by cases u <;> rfl
  refine rightOf_modifyAt_of_same there (by rw [weigh_eq, weigh_eq w u, same, children]) ?_ h
  intro r hr
  rcases List.eq_nil_or_concat r with rfl | ⟨r, k, rfl⟩
  · rfl
  · rw [List.concat_eq_append] at hr ⊢
    rw [get?_snoc] at hr
    obtain ⟨v, hv⟩ := Option.isSome_iff_exists.mp hr
    obtain ⟨e, child, _⟩ := Option.bind_eq_some_iff.mp hv
    cases u with
    | leaf l => simp at child
    | node a cs =>
      rw [children_node] at child
      rw [relabel, rightOf_snoc child, rightOf_snoc child]

/-- What is above a cursor depends on the labels there only. -/
theorem above_congr {t t' : Tree ν ℓ}
    (same : ∀ q k r, c = r ++ k :: q → labelWeight w t' q = labelWeight w t q) :
    above w t' c = above w t c := by
  induction c with
  | nil => rfl
  | cons i c ih =>
    rw [above, above, same c i [] rfl, ih]
    intro q k r split
    exact same q k (i :: r) (by rw [split]; rfl)

end Hdf.Tree
