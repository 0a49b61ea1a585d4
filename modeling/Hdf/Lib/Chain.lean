import Mathlib.Data.List.Nodup
import Mathlib.Logic.Function.Basic

/-!
# Singly linked chains

Every node has one pointer, which leads to another node or to nothing. From a node
on, the pointers lead through a list of nodes to an end. Writing one pointer changes
the list at one place: a node is taken out, or put in, behind the node whose pointer
is written.

## Main results

* `leads_append`: a walk in two parts
* `Leads.congr`: what a walk depends on
* `Leads.unlink`, `Leads.link`, `Leads.link_last`: taking a node out and putting one in
-/

namespace Hdf.Chain

variable {α : Type*} {next next' : α → Option α} {p a b x : α} {l l' : List α} {e v : Option α}

/-- From a node on, the pointers lead through some nodes to an end. -/
def Leads (next : α → Option α) : α → List α → Option α → Prop
  | p, [], e => next p = e
  | p, a :: l, e => next p = some a ∧ Leads next a l e

@[simp] theorem leads_nil : Leads next p [] e ↔ next p = e := Iff.rfl

@[simp] theorem leads_cons : Leads next p (a :: l) e ↔ next p = some a ∧ Leads next a l e := Iff.rfl

theorem Leads.next_eq (leads : Leads next p l e) : next p = l.head?.or e := by
  cases l with
  | nil => simpa using leads
  | cons a l => simpa using leads.1

/-- A walk in two parts: the second one starts at the last node of the first. -/
theorem leads_append :
    Leads next p (l ++ l') e ↔
      Leads next p l (l'.head?.or e) ∧ Leads next (l.getLastD p) l' e := by
  induction l generalizing p with
  | nil =>
    refine ⟨fun leads => ⟨leads.next_eq, leads⟩, fun leads => leads.2⟩
  | cons a l ih =>
    rw [List.cons_append, leads_cons, leads_cons, ih, List.getLastD_cons, and_assoc]

/-- A walk depends on the first pointer and on the pointers of the nodes it goes through. -/
theorem Leads.congr (leads : Leads next p l e) (first : next' b = next p)
    (rest : ∀ c ∈ l, next' c = next c) : Leads next' b l e := by
  induction l generalizing p b with
  | nil => exact first.trans leads
  | cons a l ih =>
    have after : Leads next' a l e :=
      ih leads.2 (rest a List.mem_cons_self) fun c mem => rest c (List.mem_cons_of_mem a mem)
    exact ⟨first.trans leads.1, after⟩

/-- A node behind the last node of a walk is not that node. -/
theorem ne_getLastD (distinct : (p :: (l ++ l')).Nodup) (mem : a ∈ l') : a ≠ l.getLastD p := by
  have parts : ((p :: l) ++ l').Nodup := distinct
  intro same
  exact (List.nodup_append.mp parts).2.2 _ List.getLastD_mem_cons a mem same.symm

section

variable [DecidableEq α]

/-- Writing a pointer of no node on the way changes nothing. -/
theorem Leads.update (leads : Leads next p l e) (away : a ∉ p :: l) :
    Leads (Function.update next a v) p l e := by
  have other : ∀ c ∈ p :: l, Function.update next a v c = next c := by
    intro c mem
    exact Function.update_of_ne (ne_of_mem_of_not_mem mem away) v next
  exact leads.congr (other p List.mem_cons_self) fun c mem => other c (List.mem_cons_of_mem p mem)

/-- Writing the last pointer changes the end. -/
theorem Leads.update_last (leads : Leads next p l e) (distinct : (p :: l).Nodup) :
    Leads (Function.update next (l.getLastD p) v) p l v := by
  induction l generalizing p with
  | nil => simp
  | cons a l ih =>
    rw [List.getLastD_cons]
    have apart : p ≠ l.getLastD a := by
      intro same
      exact (List.nodup_cons.mp distinct).1 (same ▸ List.getLastD_mem_cons)
    refine ⟨?_, ih leads.2 (List.nodup_cons.mp distinct).2⟩
    rw [Function.update_of_ne apart, leads.1]

/-- Takes a node out of a chain: the node before it gets its pointer. -/
theorem Leads.unlink (leads : Leads next p (l ++ a :: l') e)
    (distinct : (p :: (l ++ a :: l')).Nodup) :
    Leads (Function.update next (l.getLastD p) (next a)) p (l ++ l') e := by
  obtain ⟨before, -, after⟩ := leads_append.mp leads
  have front : (p :: l).Nodup := by
    exact distinct.sublist ((List.sublist_append_left l (a :: l')).cons_cons p)
  refine leads_append.mpr ⟨?_, ?_⟩
  · exact after.next_eq ▸ before.update_last front
  · refine after.congr (Function.update_self _ _ _) fun c mem => ?_
    exact Function.update_of_ne (ne_getLastD distinct (List.mem_cons_of_mem a mem)) _ _

/-- Puts a node into a chain: it gets the pointer of the node before it, which then leads to
it. -/
theorem Leads.link (leads : Leads next p (l ++ l') e) (distinct : (p :: (l ++ l')).Nodup)
    (fresh : x ∉ p :: (l ++ l')) (points : v = next (l.getLastD p)) :
    Leads (Function.update (Function.update next x v) (l.getLastD p) (some x)) p
      (l ++ x :: l') e := by
  obtain ⟨before, after⟩ := leads_append.mp leads
  have front : (p :: l).Nodup := by
    exact distinct.sublist ((List.sublist_append_left l l').cons_cons p)
  have notFront : x ∉ p :: l := fun mem => fresh (List.mem_append_left l' mem)
  have notLast : x ≠ l.getLastD p := by
    exact fun same => notFront (same ▸ List.getLastD_mem_cons)
  refine leads_append.mpr ⟨(before.update notFront).update_last front, ?_, ?_⟩
  · exact Function.update_self _ _ _
  · refine after.congr ?_ fun c mem => ?_
    · rw [Function.update_of_ne notLast, Function.update_self, points]
    · have notFresh : c ≠ x := fun same => fresh (same ▸ List.mem_append_right (p :: l) mem)
      rw [Function.update_of_ne (ne_getLastD distinct mem), Function.update_of_ne notFresh]

/-- Puts a node at the end of a chain. -/
theorem Leads.link_last (leads : Leads next p l e) (distinct : (p :: l).Nodup)
    (fresh : x ∉ p :: l) :
    Leads (Function.update (Function.update next x e) (l.getLastD p) (some x)) p (l ++ [x]) e := by
  rw [← List.append_nil l] at leads distinct fresh
  have points : e = next (l.getLastD p) := (leads_append.mp leads).2.symm
  exact leads.link distinct fresh points

end

end Hdf.Chain
