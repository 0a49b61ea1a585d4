import Hdf.HcGen.ExpandCoherence

/-!
# What a round of an expansion does to the tree

Most invariants of an expansion are about the tree alone. For these, a round
either appends one copy, or makes a few edits, each of one object.

## Main results

* `edited`: a round edits the tree or appends a copy
-/

namespace Hdf.HcGen

open Transition
open Hdf.Tree hiding node leaf

/-- The removal of an object, or a change of some of its fields. -/
inductive Edit (root : AstObject) : AstObject → Prop
  | erase {p object} (there : root.get? p = some object) (inner : p ≠ []) :
    Edit root (root.eraseAt p)
  | noref {p node children} (there : root.get? p = some (.node node children))
    (marked : node.nodeType = .copy) :
    Edit root (updateNode root p fun node => { node with nodeType := .noref })
  | inherit {p} {f : ConfigNode → ConfigNode} (there : IsNode root p)
    (fields : ∀ node, ∃ index count classes, f node =
      { node with inheritIndex := index, inheritCount := count, subClasses := classes }) :
    Edit root (updateNode root p f)
  | refNode {p leaf} (there : root.get? p = some (.leaf leaf)) (uid : ℕ) :
    Edit root (updateLeaf root p (Leaf.setRefNode uid))
  | payload {p leaf src copied} (there : root.get? p = some (.leaf leaf))
    (copies : leaf.getValue.copyFrom src = some copied) :
    Edit root (updateLeaf root p (Leaf.setValue copied))

/-- What each edit keeps, a number of them keeps. -/
theorem keeps_of_edits {I : AstObject → Prop} {root root' : AstObject}
    (edits : Relation.ReflTransGen Edit root root') (keeps : ∀ r r', Edit r r' → I r → I r')
    (h : I root) : I root' := by
  induction edits with
  | refl => exact h
  | tail _ edit ih => exact keeps _ _ edit ih

section

variable {s t : State}

/-- A round edits the tree or appends a copy. -/
theorem edited (coherent : Coherent s) (goes : step s = .next t) :
    (Relation.ReflTransGen Edit s.root t.root ∧ t.fresh = s.fresh) ∨
      ∃ job dst child, Appends s job dst child ∧ IsNode s.root dst ∧
        t.root = s.root.appendAt dst (build s.fresh child) ∧ t.fresh = s.fresh + s.fresh := by
  cases stepped goes with
  | passed _ _ leaves => exact .inl ⟨leaves.root ▸ .refl, leaves.fresh⟩
  | removed visit dead leaves =>
    refine .inl ⟨leaves.root ▸ .single (.erase visit.there ?_), leaves.fresh⟩
    -- the root is a plain node, so it is not the one that is removed
    exact coherent.current_ne_nil_of_deleted visit.there dead
  | resolved visit _ _ _ leaves =>
    exact .inl ⟨leaves.root ▸ .single (.refNode visit.there _), leaves.fresh⟩
  | copyStarts visit marked => exact .inl ⟨.single (.noref visit.there marked), rfl⟩
  | @termMoved _ _ _ _ copied ref _ _ _ _ there first copies leaves =>
    -- the child that is dropped is still there when its payload has been moved
    have again :
        ((updateLeaf s.root ref (Leaf.setValue copied)).label? (0 :: s.current)).isSome := by
      rw [updateLeaf, isSome_label?_relabelAt, label?_of_get? first]
      rfl
    obtain ⟨_, label⟩ := Option.isSome_iff_exists.mp again
    obtain ⟨_, dropThere, _⟩ := label?_eq_some.mp label
    exact .inl ⟨leaves.root ▸ .tail (.single (.payload there copies))
      (.erase dropThere (List.cons_ne_nil _ _)), leaves.fresh⟩
  | valueMoved visit marked _ there copies leaves =>
    -- the reference that is dropped takes no part in moving the payload
    have label := label?_of_get? visit.there
    have inner := coherent.current_ne_nil label (by simp [marked])
    obtain ⟨_, current⟩ := get?_of_label?_inl (label?_updateLeaf_inl label)
    exact .inl ⟨leaves.root ▸ .tail (.single (.payload there copies)) (.erase current inner),
      leaves.fresh⟩
  | @appended _ _ frame _ child copying absent =>
    have running := coherent.running _ _ _ copying.control
    exact .inr ⟨_, _, _, ⟨_, frame, _, copying, rfl, absent⟩,
      running.node frame List.mem_cons_self, rfl, rfl⟩
  | overwritten _ _ _ there _ copies => exact .inl ⟨.single (.payload there copies), rfl⟩
  | copied _ leaves => exact .inl ⟨leaves.root ▸ .refl, leaves.fresh⟩
  | referred control leaves =>
    obtain ⟨node, label, marked⟩ := (coherent.running _ _ _ control).serves
    have marked : node.nodeType = .ref := marked
    obtain ⟨_, there⟩ := get?_of_label?_inl label
    exact .inl ⟨leaves.root ▸ .single (.erase there (coherent.current_ne_nil label
      (by simp [marked]))), leaves.fresh⟩
  | inherited _ there base went =>
    -- the template counts its heir, and the heir notes its number
    exact .inl ⟨went.root ▸ .tail
      (.single (.inherit (isNode_of_get? base) fun _ => ⟨_, _, _, rfl⟩))
      (.inherit (isNode_updateNode (isNode_of_get? there)) fun _ => ⟨_, _, _, rfl⟩), went.fresh⟩
  | back _ _ _ _ leaves => exact .inl ⟨leaves.root ▸ .refl, leaves.fresh⟩
  | forth _ _ went => exact .inl ⟨went.root ▸ .refl, went.fresh⟩
  | _ => exact .inl ⟨.refl, rfl⟩

end

end Hdf.HcGen
