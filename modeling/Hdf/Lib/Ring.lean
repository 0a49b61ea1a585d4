import Mathlib.Data.List.Nodup
import Mathlib.Logic.Function.Basic

/-!
# Circular doubly linked lists

Every node has a pointer to the next node and one to the previous node, either of
which may be null. A list is a ring of nodes that starts and ends at a head. The
operations write the pointers one after the other, in the order in which intrusive
lists in C do, and have no result where they would follow a null pointer.

## Main results

* `IsRing.insertTail`, `IsRing.remove`: what the operations do to a ring
* `IsRing.find`: searching a ring
-/

namespace Hdf.Ring

variable {α : Type*}

/-- The pointers of all nodes. -/
structure Links (α : Type*) where
  next : α → Option α
  prev : α → Option α

section

variable [DecidableEq α]

/-- Lets a node point to itself. -/
def Links.init (links : Links α) (head : α) : Links α where
  next := Function.update links.next head (some head)
  prev := Function.update links.prev head (some head)

/-- Inserts a node before the head. -/
def Links.insertTail (links : Links α) (entry head : α) : Option (Links α) :=
  let next := Function.update links.next entry (some head)
  let prev := Function.update links.prev entry (links.prev head)
  (prev head).map fun last =>
    { next := Function.update next last (some entry)
      prev := Function.update prev head (some entry) }

/-- Takes a node out. -/
def Links.remove (links : Links α) (entry : α) : Option (Links α) :=
  (links.prev entry).bind fun before =>
    let next := Function.update links.next before (links.next entry)
    (next entry).map fun after =>
      let prev := Function.update links.prev after (links.prev entry)
      { next := Function.update next entry none
        prev := Function.update prev entry none }

/-- The first node from a position on at which a search stops, or nothing if it comes back to
the head. A search that takes more steps than there are nodes never ends. -/
def Links.find (links : Links α) (head : α) (stop : α → Bool) : ℕ → Option α → Option (Option α)
  | 0, _ | _, none => none
  | fuel + 1, some pos =>
    if pos = head then some none
    else if stop pos then some (some pos)
    else links.find head stop fuel (links.next pos)

end

/-- Two nodes follow each other. -/
def Links.Follow (links : Links α) (a b : α) : Prop := links.next a = some b ∧ links.prev b = some a

/-- Some nodes lead from one node to another. -/
def Path (links : Links α) : α → List α → α → Prop
  | a, [], b => links.Follow a b
  | a, c :: l, b => links.Follow a c ∧ Path links c l b

/-- Some nodes are linked to a head. -/
structure IsRing (links : Links α) (head : α) (l : List α) : Prop where
  nodup : (head :: l).Nodup
  path : Path links head l head

variable {links links' : Links α} {head a b c entry : α} {l l' : List α}

theorem path_append : Path links a (l ++ c :: l') b ↔ Path links a l c ∧ Path links c l' b := by
  induction l generalizing a with
  | nil => exact Iff.rfl
  | cons d l ih =>
    rw [List.cons_append, Path, Path, ih, and_assoc]

/-- A path depends only on the pointers along it. -/
theorem Path.congr (path : Path links a l b) (next : ∀ c ∈ a :: l, links'.next c = links.next c)
    (prev : ∀ c ∈ l ++ [b], links'.prev c = links.prev c) : Path links' a l b := by
  induction l generalizing a with
  | nil =>
    refine ⟨?_, ?_⟩
    · rw [next a List.mem_cons_self]
      exact path.1
    · rw [prev b List.mem_cons_self]
      exact path.2
  | cons c l ih =>
    obtain ⟨⟨forth, back⟩, rest⟩ := path
    refine ⟨⟨?_, ?_⟩, ih rest (fun d member => next d (List.mem_cons_of_mem _ member))
      fun d member => prev d (List.mem_cons_of_mem _ member)⟩
    · rw [next a List.mem_cons_self, forth]
    · rw [prev c List.mem_cons_self, back]

/-- The last node before the end of a path. -/
theorem Path.exists_last (path : Path links a l b) : ∃ before l',
    a :: l = l' ++ [before] ∧ links.Follow before b := by
  induction l generalizing a with
  | nil => exact ⟨a, [], rfl, path⟩
  | cons c l ih =>
    obtain ⟨before, l', same, follow⟩ := ih path.2
    exact ⟨before, a :: l', by rw [same, List.cons_append], follow⟩

theorem IsRing.congr (ring : IsRing links head l)
    (next : ∀ c ∈ head :: l, links'.next c = links.next c)
    (prev : ∀ c ∈ head :: l, links'.prev c = links.prev c) : IsRing links' head l := by
  refine ⟨ring.nodup, ring.path.congr next fun c member => prev c ?_⟩
  rcases List.mem_append.mp member with inside | last
  · exact List.mem_cons_of_mem _ inside
  · rw [List.mem_singleton.mp last]
    exact List.mem_cons_self

/-- A path that ends somewhere else after its last node has been changed. -/
theorem Path.retarget {before d : α} (path : Path links a l b) (nodup : (a :: l).Nodup)
    (last : links.prev b = some before)
    (next : ∀ c ∈ a :: l, c ≠ before → links'.next c = links.next c)
    (prev : ∀ c ∈ l, links'.prev c = links.prev c) (follow : links'.Follow before d) :
    Path links' a l d := by
  induction l generalizing a with
  | nil =>
    obtain rfl := Option.some.inj (path.2.symm.trans last)
    exact follow
  | cons c l ih =>
    obtain ⟨⟨forth, back⟩, rest⟩ := path
    obtain ⟨before', l', same, follow'⟩ := rest.exists_last
    obtain rfl := Option.some.inj (follow'.2.symm.trans last)
    have later : before' ∈ c :: l := by
      rw [same]
      exact List.mem_append_right _ List.mem_cons_self
    obtain ⟨fresh, nodup⟩ := List.nodup_cons.mp nodup
    refine ⟨⟨?_, ?_⟩, ih rest nodup (fun d member => next d (List.mem_cons_of_mem _ member))
      fun d member => prev d (List.mem_cons_of_mem _ member)⟩
    · rw [next a List.mem_cons_self fun same => fresh (same ▸ later), forth]
    · rw [prev c List.mem_cons_self, back]

theorem IsRing.next_ne_self (ring : IsRing links head l) (member : a ∈ l) :
    links.next a ≠ some a := by
  obtain ⟨l₁, l₂, rfl⟩ := List.append_of_mem member
  have distinct := ring.nodup
  have path := (path_append.mp ring.path).2
  intro self
  cases l₂ with
  | nil =>
    obtain rfl := Option.some.inj (self.symm.trans path.1)
    exact (List.nodup_cons.mp distinct).1 member
  | cons c l₂ =>
    obtain rfl := Option.some.inj (self.symm.trans path.1.1)
    have twice := (List.nodup_append.mp (List.nodup_cons.mp distinct).2).2.1
    exact (List.nodup_cons.mp twice).1 List.mem_cons_self

variable [DecidableEq α]

/-- Only the nodes of the ring and the new one are written. -/
theorem IsRing.insertTail (ring : IsRing links head l) (fresh : entry ∉ head :: l) :
    ∃ links', links.insertTail entry head = some links' ∧ IsRing links' head (l ++ [entry]) ∧
      ∀ c ∉ head :: l, c ≠ entry → links'.next c = links.next c ∧ links'.prev c = links.prev c := by
  obtain ⟨before, l', same, -, last⟩ := ring.path.exists_last
  have inside : before ∈ head :: l := by
    rw [same]
    exact List.mem_append_right _ List.mem_cons_self
  have apart : before ≠ entry := fun eq => fresh (eq ▸ inside)
  have other : head ≠ entry := fun eq => fresh (eq ▸ List.mem_cons_self)
  have inserted : links.insertTail entry head = some
      ⟨Function.update (Function.update links.next entry (some head)) before (some entry),
        Function.update (Function.update links.prev entry (some before)) head (some entry)⟩ := by
    rw [Links.insertTail, Function.update_of_ne other, last, Option.map_some]
  refine ⟨_, inserted, ⟨?_, path_append.mpr
    ⟨ring.path.retarget ring.nodup last ?_ ?_ ⟨?_, ?_⟩, ?_, ?_⟩⟩, ?_⟩
  · rw [← List.cons_append, List.nodup_append_comm]
    exact List.nodup_cons.mpr ⟨fresh, ring.nodup⟩
  · intro c member differs
    have old : c ≠ entry := fun eq => fresh (eq ▸ member)
    simp only [Function.update_of_ne differs, Function.update_of_ne old]
  · intro c member
    have old : c ≠ entry := fun eq => fresh (eq ▸ List.mem_cons_of_mem _ member)
    have differs : c ≠ head := fun eq => (List.nodup_cons.mp ring.nodup).1 (eq ▸ member)
    simp only [Function.update_of_ne differs, Function.update_of_ne old]
  · exact Function.update_self ..
  · simp only [Function.update_of_ne other.symm, Function.update_self]
  · simp only [Function.update_of_ne apart.symm, Function.update_self]
  · exact Function.update_self ..
  · intro c outside differs
    have apart : c ≠ before := fun eq => outside (eq ▸ inside)
    have other : c ≠ head := fun eq => outside (eq ▸ List.mem_cons_self)
    simp only [Function.update_of_ne apart, Function.update_of_ne differs,
      Function.update_of_ne other, and_self]

/-- Only the nodes of the ring are written. -/
theorem IsRing.remove (ring : IsRing links head (l ++ entry :: l')) :
    ∃ links', links.remove entry = some links' ∧ IsRing links' head (l ++ l') ∧
      ∀ c ∉ head :: (l ++ entry :: l'),
        links'.next c = links.next c ∧ links'.prev c = links.prev c := by
  obtain ⟨first, second⟩ := path_append.mp ring.path
  obtain ⟨before, l₀, same, -, last⟩ := first.exists_last
  obtain ⟨headFresh, distinct⟩ := List.nodup_cons.mp ring.nodup
  obtain ⟨distinct₁, distinct₂, disjoint⟩ := List.nodup_append.mp distinct
  have inside : before ∈ head :: l := by
    rw [same]
    exact List.mem_append_right _ List.mem_cons_self
  have headApart : head ≠ entry := fun eq => headFresh (by simp [eq])
  have apart {c : α} (member : c ∈ head :: l) : c ≠ entry := by
    rcases List.mem_cons.mp member with rfl | member
    · exact headApart
    · exact disjoint c member entry List.mem_cons_self
  have nodup₁ : (head :: l).Nodup :=
    List.nodup_cons.mpr ⟨fun member => headFresh (List.mem_append_left _ member), distinct₁⟩
  -- the node after the one that is taken out
  obtain ⟨after, forth, rest⟩ : ∃ after, links.next entry = some after ∧
      (l' = [] ∧ after = head ∨ ∃ l'', l' = after :: l'' ∧ Path links after l'' head) := by
    cases l' with
    | nil => exact ⟨head, second.1, .inl ⟨rfl, rfl⟩⟩
    | cons after l'' => exact ⟨after, second.1.1, .inr ⟨l'', rfl, second.2⟩⟩
  have afterApart : after ≠ entry := by
    rcases rest with ⟨-, rfl⟩ | ⟨l'', rfl, -⟩
    · exact headApart
    · rintro rfl
      exact (List.nodup_cons.mp distinct₂).1 List.mem_cons_self
  have afterLate : after ∉ l := by
    rcases rest with ⟨-, rfl⟩ | ⟨l'', rfl, -⟩
    · exact (List.nodup_cons.mp nodup₁).1
    · exact fun member => disjoint after member after (List.mem_cons_of_mem _ List.mem_cons_self)
        rfl
  generalize written :
    (⟨Function.update (Function.update links.next before (some after)) entry none,
    Function.update (Function.update links.prev after (some before)) entry none⟩ : Links α) = links'
  have removed : links.remove entry = some links' := by
    rw [← written, Links.remove, last, Option.bind_some]
    dsimp only
    rw [Function.update_of_ne (apart inside).symm, forth, Option.map_some]
  have next (c : α) (differs : c ≠ entry) (other : c ≠ before) : links'.next c = links.next c := by
    simp only [← written, Function.update_of_ne differs, Function.update_of_ne other]
  have prev (c : α) (differs : c ≠ entry) (other : c ≠ after) : links'.prev c = links.prev c := by
    simp only [← written, Function.update_of_ne differs, Function.update_of_ne other]
  have follow : links'.Follow before after := by
    constructor
    · simp only [← written, Function.update_of_ne (apart inside), Function.update_self]
    · simp only [← written, Function.update_of_ne afterApart, Function.update_self]
  have shorter : Path links' head l after := by
    refine first.retarget nodup₁ last (fun c member differs => next c (apart member) differs)
      (fun c member => prev c (apart (List.mem_cons_of_mem _ member)) ?_) follow
    rintro rfl
    exact afterLate member
  refine ⟨links', removed, ⟨ring.nodup.sublist ?_, ?_⟩,
    fun c outside => ⟨next c ?_ ?_, prev c ?_ ?_⟩⟩
  · exact ((List.sublist_cons_self _ _).append_left _).cons_cons head
  · rcases rest with ⟨rfl, rfl⟩ | ⟨l'', rfl, path⟩
    · rwa [List.append_nil]
    · refine path_append.mpr ⟨shorter, path.congr (fun c member => next c ?_ ?_)
        fun c member => prev c ?_ ?_⟩
      · rintro rfl
        exact (List.nodup_cons.mp distinct₂).1 member
      · rintro rfl
        rcases List.mem_cons.mp inside with rfl | early
        · exact headFresh (List.mem_append_right _ (List.mem_cons_of_mem _ member))
        · exact disjoint c early c (List.mem_cons_of_mem _ member) rfl
      · rintro rfl
        rcases List.mem_append.mp member with later | last
        · exact (List.nodup_cons.mp distinct₂).1 (List.mem_cons_of_mem _ later)
        · exact headApart (List.mem_singleton.mp last).symm
      · rintro rfl
        rcases List.mem_append.mp member with later | last
        · exact (List.nodup_cons.mp (List.nodup_cons.mp distinct₂).2).1 later
        · cases List.mem_singleton.mp last
          exact headFresh (List.mem_append_right _ (List.mem_cons_of_mem _ List.mem_cons_self))
  all_goals rintro rfl
  · exact outside (List.mem_cons_of_mem _ (List.mem_append_right _ List.mem_cons_self))
  · exact outside ((List.sublist_append_left l _).cons_cons head |>.subset inside)
  · exact outside (List.mem_cons_of_mem _ (List.mem_append_right _ List.mem_cons_self))
  · rcases rest with ⟨-, rfl⟩ | ⟨l'', rfl, -⟩
    · exact outside List.mem_cons_self
    · exact outside (List.mem_cons_of_mem _ (List.mem_append_right _
        (List.mem_cons_of_mem _ List.mem_cons_self)))

/-- Searching a ring. -/
theorem IsRing.find (ring : IsRing links head l) (stop : α → Bool) {fuel : ℕ}
    (enough : l.length < fuel) :
    links.find head stop fuel (links.next head) = some (l.find? stop) := by
  have walk (l : List α) : ∀ (a : α) (fuel : ℕ), Path links a l head → head ∉ l →
      l.length < fuel → links.find head stop fuel (links.next a) = some (l.find? stop) := by
    induction l with
    | nil =>
      intro a fuel path _ enough
      obtain ⟨fuel, rfl⟩ := Nat.exists_eq_succ_of_ne_zero (Nat.ne_of_gt enough)
      rw [path.1, Links.find, if_pos rfl]
      rfl
    | cons c l ih =>
      intro a fuel path outside enough
      obtain ⟨fuel, rfl⟩ := Nat.exists_eq_succ_of_ne_zero (Nat.ne_of_gt (Nat.zero_lt_of_lt enough))
      have differs : c ≠ head := fun eq => outside (eq ▸ List.mem_cons_self)
      rw [path.1.1, Links.find, if_neg differs, List.find?_cons]
      cases stop c with
      | true => rfl
      | false =>
        exact ih c fuel path.2 (fun member => outside (List.mem_cons_of_mem _ member))
          (Nat.lt_of_succ_lt_succ enough)
  exact walk l head fuel ring.path (List.nodup_cons.mp ring.nodup).1 enough

end Hdf.Ring
