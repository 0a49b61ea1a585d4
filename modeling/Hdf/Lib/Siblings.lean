import Hdf.Lib.Tree

/-!
# Trees whose siblings can be told apart

Programs that look children up by some key of their labels rely on siblings
having different keys. This file says when the updates of a tree keep that:
dropping a subtree always does, changing a subtree does when the key of its root
stays, and appending a child does when its key is new among its siblings.

## Main results

* `Tree.distinctSiblings_node`: the property of a node in terms of its children
* `Tree.DistinctSiblings.modifyAt`, `Tree.DistinctSiblings.appendAt`,
  `Tree.DistinctSiblings.eraseAt`, `Tree.DistinctSiblings.relabelAt`: the updates
  that keep it
-/

namespace Hdf.Tree

variable {ν ℓ κ : Type*} {key : ν ⊕ ℓ → κ} {t u : Tree ν ℓ} {a : ν} {cs : List (Tree ν ℓ)}
  {p : Pos}

/-- The keys of the children of a tree. -/
def childKeys (key : ν ⊕ ℓ → κ) (t : Tree ν ℓ) : List κ := t.children.map fun c => key c.label

/-- Siblings have different keys everywhere in the tree. -/
def DistinctSiblings (key : ν ⊕ ℓ → κ) (t : Tree ν ℓ) : Prop :=
  ∀ p u, t.get? p = some u → (childKeys key u).Nodup

@[simp] theorem distinctSiblings_leaf (l : ℓ) : DistinctSiblings key (leaf l : Tree ν ℓ) := by
  intro p u h
  rcases List.eq_nil_or_concat p with rfl | ⟨p, i, rfl⟩
  · cases h
    exact List.nodup_nil
  · rw [List.concat_eq_append, get?_append] at h
    simp [get?_cons] at h

theorem distinctSiblings_node :
    DistinctSiblings key (node a cs) ↔
      (childKeys key (node a cs)).Nodup ∧ ∀ c ∈ cs, DistinctSiblings key c := by
  constructor
  · intro h
    refine ⟨h [] _ rfl, fun c member p u inside => ?_⟩
    obtain ⟨i, hi⟩ := List.mem_iff_getElem?.mp member
    refine h (p ++ [i]) u ?_
    rw [get?_append]
    simp [get?_cons, hi, inside]
  · rintro ⟨top, below⟩ p u h
    rcases List.eq_nil_or_concat p with rfl | ⟨p, i, rfl⟩
    · cases h
      exact top
    · rw [List.concat_eq_append, get?_append] at h
      obtain ⟨c, child, inside⟩ := Option.bind_eq_some_iff.mp h
      exact below c (List.mem_of_getElem? (by simpa [get?_cons] using child)) p u inside

theorem DistinctSiblings.subtree (h : DistinctSiblings key t) (there : t.get? p = some u) :
    DistinctSiblings key u := by
  intro q v inside
  exact h (q ++ p) v (by rw [get?_append, there]; exact inside)

/-- Changing a subtree into another one with the same key. -/
theorem DistinctSiblings.modifyAt {f : Tree ν ℓ → Tree ν ℓ} (h : DistinctSiblings key t)
    (there : t.get? p = some u) (same : key (f u).label = key u.label)
    (image : DistinctSiblings key (f u)) : DistinctSiblings key (t.modifyAt p f) := by
  induction p generalizing f u with
  | nil =>
    obtain rfl : t = u := by simpa using there
    exact image
  | cons i p ih =>
    obtain ⟨a, cs, parent, child⟩ := exists_node_of_child there
    refine ih parent (by rw [label_modifyChild]) ?_
    obtain ⟨top, below⟩ := distinctSiblings_node.mp (h.subtree parent)
    rw [modifyChild, distinctSiblings_node]
    have keys : childKeys key (node a (cs.modify i f)) = childKeys key (node a cs) := by
      apply List.ext_getElem?
      intro n
      rw [childKeys, childKeys, children_node, children_node, List.getElem?_map,
        List.getElem?_map, List.getElem?_modify]
      by_cases hn : i = n
      · subst hn
        simp [child, same]
      · cases cs[n]? <;> simp [hn]
    refine ⟨keys ▸ top, fun c member => ?_⟩
    obtain ⟨n, hn⟩ := List.mem_iff_getElem?.mp member
    rw [List.getElem?_modify] at hn
    by_cases eq : i = n
    · subst eq
      rw [child] at hn
      obtain rfl : f u = c := by simpa using hn
      exact image
    · cases at_n : cs[n]? with
      | none => simp [at_n] at hn
      | some d =>
        obtain rfl : d = c := by simpa [at_n, eq] using hn
        exact below d (List.mem_of_getElem? at_n)

theorem DistinctSiblings.appendAt (h : DistinctSiblings key t)
    (there : t.get? p = some (node a cs)) (new : key u.label ∉ childKeys key (node a cs))
    (inner : DistinctSiblings key u) : DistinctSiblings key (t.appendAt p u) := by
  refine h.modifyAt there rfl ?_
  obtain ⟨siblings, below⟩ := distinctSiblings_node.mp (h.subtree there)
  have keys : childKeys key (node a (cs ++ [u])) =
      childKeys key (node a cs) ++ [key u.label] := by simp [childKeys]
  rw [addLast, distinctSiblings_node, keys, List.nodup_append]
  refine ⟨⟨siblings, List.nodup_singleton _, ?_⟩, ?_⟩
  · rintro k old _ same rfl
    rw [List.mem_singleton] at same
    exact new (same ▸ old)
  · intro c member
    rcases List.mem_append.mp member with old | last
    · exact below c old
    · rw [List.mem_singleton] at last
      exact last ▸ inner

theorem DistinctSiblings.eraseAt (h : DistinctSiblings key t) (there : t.get? p = some u) :
    DistinctSiblings key (t.eraseAt p) := by
  cases p with
  | nil => exact h
  | cons i p =>
    obtain ⟨a, cs, parent, _⟩ := exists_node_of_child there
    refine h.modifyAt parent rfl ?_
    obtain ⟨siblings, below⟩ := distinctSiblings_node.mp (h.subtree parent)
    rw [eraseChild, distinctSiblings_node]
    refine ⟨?_, fun c member => below c (List.mem_of_mem_eraseIdx member)⟩
    exact siblings.sublist ((List.eraseIdx_sublist cs i).map _)

theorem DistinctSiblings.relabelAt {f : ν → ν} {g : ℓ → ℓ} (h : DistinctSiblings key t)
    (there : t.get? p = some u) (same : key (u.relabel f g).label = key u.label) :
    DistinctSiblings key (t.relabelAt p f g) := by
  refine h.modifyAt there same ?_
  cases u with
  | leaf l => exact distinctSiblings_leaf _
  | node a cs =>
    obtain ⟨siblings, below⟩ := distinctSiblings_node.mp (h.subtree there)
    exact distinctSiblings_node.mpr ⟨siblings, below⟩

end Hdf.Tree
