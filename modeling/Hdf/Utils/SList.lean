import Hdf.Lib.Chain

/-!
# Singly linked lists and their iterators

A list is a node: its root pointer is the pointer of that node. An iterator keeps the
node it has returned, the node in front of it and a flag that says whether the node it
has returned is still to be stepped over. A node that it has returned may be taken out
through the iterator, or behind its back, and nodes may be put in before it.

## Main results

* `Paused.hasNext`, `Paused.iteratorNext`: asking for the next node
* `Current.iteratorRemove`, `Current.remove`, `Current.iteratorInsert`: what may be done
  about the node that was returned
* `exists_iterate`, `iterate_visits`: the loop visits the nodes of the list once and in
  order, whatever is decided, and leaves the list with the decisions carried out
* `hdfSListFlush_empties`: flushing a list
-/

namespace Hdf.Utils.SList

open Hdf.Chain

variable {α : Type*} [DecidableEq α]

/-! ## Lists -/

/-- The walk of `HdfSListRemove` from a node on. A walk that takes more steps than allowed has
no result. -/
def hdfSListRemoveFrom (next : α → Option α) (link : α) : ℕ → Option α → Option (α → Option α)
  | 0, _ => none
  | _ + 1, none => some next
  | fuel + 1, some iterator =>
    if next iterator = some link then some (Function.update next iterator (next link))
    else hdfSListRemoveFrom next link fuel (next iterator)

/-- `HdfSListRemove`. -/
def hdfSListRemove (fuel : ℕ) (next : α → Option α) (list link : α) : Option (α → Option α) :=
  hdfSListRemoveFrom next link fuel (some list)

/-- The walk of `HdfSListAddTail` from a node on: a link that is in the list stays where it
is. -/
def hdfSListAddTailFrom (next : α → Option α) (link : α) : ℕ → α → Option (α → Option α)
  | 0, _ => none
  | fuel + 1, iterator =>
    match next iterator with
    | none => some (Function.update (Function.update next link none) iterator (some link))
    | some after =>
      if after = link then some next else hdfSListAddTailFrom next link fuel after

/-- `HdfSListAddTail`. -/
def hdfSListAddTail (fuel : ℕ) (next : α → Option α) (list link : α) : Option (α → Option α) :=
  hdfSListAddTailFrom next link fuel list

/-! ## Iterators -/

/-- `struct HdfSListIterator`. -/
structure HdfSListIterator (α : Type*) where
  stepOnNext : Bool
  prev : Option α
  curr : Option α

/-- `HdfSListIteratorInit`. -/
def hdfSListIteratorInit (next : α → Option α) : Option α → HdfSListIterator α
  | none => { stepOnNext := false, prev := none, curr := none }
  | some list => { stepOnNext := false, prev := some list, curr := next list }

/-- `HdfSListIteratorHasNext`. -/
def hdfSListIteratorHasNext (next : α → Option α) (iterator : HdfSListIterator α) : Bool :=
  match iterator.curr, iterator.prev with
  | some curr, some prev =>
    if !iterator.stepOnNext then true
    else if next prev ≠ some curr then (next prev).isSome
    else (next curr).isSome
  | _, _ => false

/-- `HdfSListIteratorNext`: the iterator afterwards and the node it returns. -/
def hdfSListIteratorNext (next : α → Option α) (iterator : HdfSListIterator α) :
    HdfSListIterator α × Option α :=
  match iterator.curr, iterator.prev with
  | some curr, some prev =>
    if iterator.stepOnNext then
      if next prev = some curr then
        ({ iterator with prev := some curr, curr := next curr }, next curr)
      else ({ iterator with curr := next prev }, next prev)
    else ({ iterator with stepOnNext := true }, some curr)
  | _, _ => (iterator, none)

/-- `HdfSListIteratorRemove`. -/
def hdfSListIteratorRemove (next : α → Option α) (iterator : HdfSListIterator α) :
    (α → Option α) × HdfSListIterator α :=
  match iterator.curr, iterator.prev with
  | some curr, some prev =>
    (Function.update next prev (next curr),
      { iterator with curr := next curr, stepOnNext := false })
  | _, _ => (next, iterator)

/-- `HdfSListIteratorInsert`. It follows the previous node without a test. -/
def hdfSListIteratorInsert (next : α → Option α) (iterator : HdfSListIterator α) (link : α) :
    Option ((α → Option α) × HdfSListIterator α) :=
  iterator.prev.map fun prev =>
    (Function.update (Function.update next link iterator.curr) prev (some link),
      { iterator with prev := some link })

/-! ## The loop -/

/-- What is done about the node that `HdfSListIteratorNext` has returned. -/
inductive Decision (α : Type*)
  | nothing
  | iteratorRemove
  | remove
  | insert (link : α)
  deriving DecidableEq

/-- The loop: the pointers, the iterator and the nodes that were returned, with what was
decided about them. -/
structure Walk (α : Type*) where
  next : α → Option α
  iterator : HdfSListIterator α
  visited : List (α × Decision α)

/-- Carries out a decision. -/
def carryOut (fuel : ℕ) (list : α) (next : α → Option α) (iterator : HdfSListIterator α)
    (link : α) : Decision α → Option ((α → Option α) × HdfSListIterator α)
  | .nothing => some (next, iterator)
  | .iteratorRemove => some (hdfSListIteratorRemove next iterator)
  | .remove => (hdfSListRemove fuel next list link).map fun next => (next, iterator)
  | .insert fresh => hdfSListIteratorInsert next iterator fresh

/-- One pass of the loop. -/
def pass (fuel : ℕ) (list : α) (choose : Walk α → α → Decision α) (walk : Walk α) :
    Option (Walk α) :=
  let (iterator, returned) := hdfSListIteratorNext walk.next walk.iterator
  returned.bind fun link =>
    let decision := choose { walk with iterator } link
    (carryOut fuel list walk.next iterator link decision).map fun after =>
      { next := after.1, iterator := after.2, visited := walk.visited ++ [(link, decision)] }

/-- The loop from a state on. -/
def iterateFrom (fuel : ℕ) (list : α) (choose : Walk α → α → Decision α) :
    ℕ → Walk α → Option (Walk α)
  | 0, _ => none
  | passes + 1, walk =>
    if hdfSListIteratorHasNext walk.next walk.iterator then
      (pass fuel list choose walk).bind (iterateFrom fuel list choose passes)
    else some walk

/-- The loop over a list. -/
def iterate (fuel : ℕ) (next : α → Option α) (list : α) (choose : Walk α → α → Decision α) :
    Option (Walk α) :=
  iterateFrom fuel list choose fuel
    { next, iterator := hdfSListIteratorInit next (some list), visited := [] }

/-- What a decision leaves of a node: the node itself, nothing, or the node behind a new one. -/
def edited : α × Decision α → List α
  | (link, .nothing) => [link]
  | (_, .iteratorRemove) | (_, .remove) => []
  | (link, .insert fresh) => [fresh, link]

/-- The nodes that were put in. -/
def inserted (visited : List (α × Decision α)) : List α :=
  visited.filterMap fun
    | (_, .insert fresh) => some fresh
    | _ => none

/-! ## The states of an iterator -/

/-- An iterator between two passes: some nodes are behind it and some ahead. -/
inductive Paused (list : α) (next : α → Option α) :
    HdfSListIterator α → List α → List α → Prop
  /-- The node ahead is known: at the start, and after a removal through the iterator. -/
  | ahead {done rest : List α} (leads : Leads next list (done ++ rest) none) :
    Paused list next { stepOnNext := false, prev := some (done.getLastD list), curr := rest.head? }
      done rest
  /-- The node that was returned is still in the list. -/
  | kept {done rest : List α} {link : α} (leads : Leads next list (done ++ link :: rest) none) :
    Paused list next
      { stepOnNext := true, prev := some (done.getLastD list), curr := some link }
      (done ++ [link]) rest
  /-- The node that was returned was taken out behind the iterator's back. -/
  | gone {done rest : List α} {link : α} (leads : Leads next list (done ++ rest) none)
      (removed : link ∉ rest) :
    Paused list next
      { stepOnNext := true, prev := some (done.getLastD list), curr := some link } done rest

/-- An iterator that has just returned a node. -/
structure Current (list : α) (next : α → Option α) (iterator : HdfSListIterator α)
    (done : List α) (link : α) (rest : List α) : Prop where
  leads : Leads next list (done ++ link :: rest) none
  iterator_eq : iterator =
    { stepOnNext := true, prev := some (done.getLastD list), curr := some link }

variable {list link x : α} {next : α → Option α} {iterator : HdfSListIterator α}
  {done rest links : List α} {fuel : ℕ}

/-- `HdfSListRemove` finds the node before the link. -/
theorem hdfSListRemoveFrom_eq {p : α} (leads : Leads next p (done ++ link :: rest) none)
    (distinct : (p :: (done ++ link :: rest)).Nodup) (enough : done.length < fuel) :
    hdfSListRemoveFrom next link fuel (some p) =
      some (Function.update next (done.getLastD p) (next link)) := by
  induction done generalizing p fuel with
  | nil =>
    obtain ⟨fuel, rfl⟩ : ∃ n, fuel = n + 1 := ⟨fuel - 1, by simp at enough; omega⟩
    simp [hdfSListRemoveFrom, leads.1]
  | cons a done ih =>
    obtain ⟨fuel, rfl⟩ : ∃ n, fuel = n + 1 := ⟨fuel - 1, by simp at enough; omega⟩
    have behind : (a :: (done ++ link :: rest)).Nodup := (List.nodup_cons.mp distinct).2
    have other : a ≠ link := by
      rintro rfl
      exact (List.nodup_cons.mp behind).1 (by simp)
    rw [hdfSListRemoveFrom, leads.1, if_neg fun same => other (Option.some.inj same),
      List.getLastD_cons]
    exact ih leads.2 behind (by simpa using enough)

theorem hdfSListRemove_eq (leads : Leads next list (done ++ link :: rest) none)
    (distinct : (list :: (done ++ link :: rest)).Nodup) (enough : done.length < fuel) :
    ∃ next', hdfSListRemove fuel next list link = some next' ∧
      Leads next' list (done ++ rest) none :=
  ⟨_, hdfSListRemoveFrom_eq leads distinct enough, leads.unlink distinct⟩

omit [DecidableEq α] in
theorem paused_init (leads : Leads next list links none) :
    Paused list next (hdfSListIteratorInit next (some list)) [] links := by
  have first : next list = links.head? := by simpa using leads.next_eq
  have atStart : hdfSListIteratorInit next (some list) =
      { stepOnNext := false, prev := some ([].getLastD list), curr := links.head? } := by
    rw [hdfSListIteratorInit, first, List.getLastD_nil]
  rw [atStart]
  exact .ahead leads

omit [DecidableEq α] in
theorem Paused.leads (paused : Paused list next iterator done rest) :
    Leads next list (done ++ rest) none := by
  cases paused with
  | ahead leads | gone leads => exact leads
  | kept leads => simpa using leads

/-- There is a next node exactly if there are nodes ahead. -/
theorem Paused.hasNext (paused : Paused list next iterator done rest) :
    hdfSListIteratorHasNext next iterator = true ↔ rest ≠ [] := by
  cases paused with
  | ahead leads => cases rest <;> simp [hdfSListIteratorHasNext]
  | @kept done rest link leads =>
    obtain ⟨-, toLink, fromLink⟩ := leads_append.mp leads
    have after : next link = rest.head? := by simpa using fromLink.next_eq
    cases rest <;> simp_all [hdfSListIteratorHasNext]
  | @gone done rest link leads removed =>
    have after : next (done.getLastD list) = rest.head? := by
      simpa using (leads_append.mp leads).2.next_eq
    have other : rest.head? ≠ some link := fun same => removed (List.mem_of_head? same)
    rw [hdfSListIteratorHasNext]
    simp only [after, other, Bool.not_true, ne_eq, not_false_eq_true, if_true]
    cases rest <;> simp

/-- The iterator returns the first node ahead. -/
theorem Paused.iteratorNext (paused : Paused list next iterator done (link :: rest)) :
    ∃ iterator', hdfSListIteratorNext next iterator = (iterator', some link) ∧
      Current list next iterator' done link rest := by
  generalize ahead : link :: rest = nodes at paused
  cases paused with
  | ahead leads =>
    subst ahead
    exact ⟨_, rfl, leads, rfl⟩
  | @kept done nodes last leads =>
    subst ahead
    obtain ⟨-, toLast, fromLast⟩ := leads_append.mp leads
    refine ⟨_, ?_, by simpa using leads, rfl⟩
    simp only [hdfSListIteratorNext, toLast, fromLast.1, if_true, List.getLastD_concat]
  | @gone done nodes last leads removed =>
    subst ahead
    have after : next (done.getLastD list) = some link := (leads_append.mp leads).2.1
    have other : link ≠ last := fun same => removed (same ▸ List.mem_cons_self)
    refine ⟨_, ?_, leads, rfl⟩
    simp only [hdfSListIteratorNext, after, if_true, Option.some.injEq, other, if_false]

omit [DecidableEq α] in
theorem Current.kept (current : Current list next iterator done link rest) :
    Paused list next iterator (done ++ [link]) rest := by
  obtain ⟨leads, rfl⟩ := current
  exact .kept leads

theorem Current.iteratorRemove (current : Current list next iterator done link rest)
    (distinct : (list :: (done ++ link :: rest)).Nodup) :
    Paused list (hdfSListIteratorRemove next iterator).1
      (hdfSListIteratorRemove next iterator).2 done rest := by
  obtain ⟨leads, rfl⟩ := current
  have after : next link = rest.head? := by
    simpa using (leads_append.mp leads).2.2.next_eq
  have unlinked := leads.unlink distinct
  simp only [hdfSListIteratorRemove, after] at unlinked ⊢
  exact .ahead unlinked

/-- Taking the node out behind the iterator's back. -/
theorem Current.remove (current : Current list next iterator done link rest)
    (distinct : (list :: (done ++ link :: rest)).Nodup) (enough : done.length < fuel) :
    ∃ next', hdfSListRemove fuel next list link = some next' ∧
      Paused list next' iterator done rest := by
  obtain ⟨leads, rfl⟩ := current
  obtain ⟨next', removed, leads'⟩ := hdfSListRemove_eq leads distinct enough
  have behind : (link :: rest).Nodup := by
    exact (List.nodup_append.mp (List.nodup_cons.mp distinct).2).2.1
  exact ⟨next', removed, .gone leads' (List.nodup_cons.mp behind).1⟩

theorem Current.iteratorInsert (current : Current list next iterator done link rest)
    (distinct : (list :: (done ++ link :: rest)).Nodup)
    (fresh : x ∉ list :: (done ++ link :: rest)) :
    ∃ next' iterator', hdfSListIteratorInsert next iterator x = some (next', iterator') ∧
      Paused list next' iterator' (done ++ [x, link]) rest := by
  obtain ⟨leads, rfl⟩ := current
  have linked : next (done.getLastD list) = some link := (leads_append.mp leads).2.1
  have put := leads.link distinct fresh linked.symm
  rw [← List.singleton_append, ← List.append_assoc] at put
  refine ⟨_, _, rfl, ?_⟩
  have moved : done ++ [x, link] = (done ++ [x]) ++ [link] := by simp
  simpa only [moved, List.getLastD_concat] using Paused.kept put

/-- What the decision on a node leaves, and where it leaves the iterator. -/
theorem Current.carryOut (current : Current list next iterator done link rest)
    (distinct : (list :: (done ++ link :: rest)).Nodup) (enough : done.length < fuel)
    {decision : Decision α}
    (fresh : ∀ x, decision = .insert x → x ∉ list :: (done ++ link :: rest)) :
    ∃ next' iterator', carryOut fuel list next iterator link decision = some (next', iterator') ∧
      Paused list next' iterator' (done ++ edited (link, decision)) rest := by
  cases decision with
  | nothing => exact ⟨next, iterator, rfl, current.kept⟩
  | iteratorRemove =>
    have left : done ++ edited (link, .iteratorRemove) = done := List.append_nil done
    exact ⟨_, _, rfl, left.symm ▸ current.iteratorRemove distinct⟩
  | remove =>
    obtain ⟨next', removed, paused⟩ := current.remove distinct enough
    refine ⟨next', iterator, by rw [SList.carryOut, removed]; rfl, ?_⟩
    simpa only [edited, List.append_nil] using paused
  | insert x => exact current.iteratorInsert distinct (fresh x rfl)

/-! ## What the loop does -/

/-- The loop is on its way: it has visited a front of the list, and what is behind the iterator
is what the decisions have left of that front. -/
structure Along (list : α) (links : List α) (choose : Walk α → α → Decision α) (walk : Walk α)
    (rest : List α) : Prop where
  paused : Paused list walk.next walk.iterator (walk.visited.flatMap edited) rest
  order : walk.visited.map Prod.fst ++ rest = links
  distinct : (list :: (walk.visited.flatMap edited ++ rest)).Nodup
  origin : ∀ x ∈ walk.visited.flatMap edited, x ∈ links ∨ x ∈ inserted walk.visited
  new : ∀ x ∈ inserted walk.visited, x ∉ links
  chosen : ∀ entry ∈ walk.visited, ∃ seen, choose seen entry.1 = entry.2

omit [DecidableEq α] in
theorem length_edited_le {visited : List (α × Decision α)} :
    (visited.flatMap edited).length ≤ 2 * visited.length := by
  induction visited with
  | nil => simp
  | cons entry visited ih =>
    have one : (edited entry).length ≤ 2 := by
      obtain ⟨link, decision⟩ := entry
      cases decision <;> simp [edited]
    simp only [List.flatMap_cons, List.length_append, List.length_cons]
    omega

/-- The decisions put in nodes that were never in the list. -/
def PutsInFresh (list : α) (links : List α) (choose : Walk α → α → Decision α) : Prop :=
  ∀ walk link x, choose walk link = .insert x →
    x ∉ list :: links ∧ x ∉ inserted walk.visited

variable {choose : Walk α → α → Decision α} {walk : Walk α}

omit [DecidableEq α] in
theorem mem_inserted_concat {visited : List (α × Decision α)} {decision : Decision α} {y : α} :
    y ∈ inserted (visited ++ [(link, decision)]) ↔
      y ∈ inserted visited ∨ decision = .insert y := by
  rw [inserted, List.filterMap_append, List.mem_append]
  apply or_congr .rfl
  cases decision with
  | nothing | iteratorRemove | remove =>
    exact iff_of_false List.not_mem_nil (fun put => by cases put)
  | insert fresh =>
    exact List.mem_singleton.trans ⟨fun same => same ▸ rfl, fun put => by cases put; rfl⟩

/-- One pass of the loop visits one node. -/
theorem Along.pass (along : Along list links choose walk (link :: rest))
    (fresh : PutsInFresh list links choose) (enough : 2 * links.length < fuel) :
    ∃ walk', pass fuel list choose walk = some walk' ∧ Along list links choose walk' rest := by
  obtain ⟨paused, order, distinct, origin, new, chosen⟩ := along
  obtain ⟨iterator, returned, current⟩ := paused.iteratorNext
  have known : link ∈ links := by simp [← order]
  generalize decided : choose { walk with iterator } link = decision
  -- a node that is put in is neither one of the list nor one put in before
  have notThere : ∀ x, decision = .insert x →
      x ∉ list :: (walk.visited.flatMap edited ++ link :: rest) := by
    rintro x rfl mem
    obtain ⟨notOld, notNew⟩ := fresh _ _ _ decided
    rcases List.mem_cons.mp mem with rfl | mem
    · exact notOld List.mem_cons_self
    · rcases List.mem_append.mp mem with behind | ahead
      · exact (origin x behind).elim (fun old => notOld (List.mem_cons_of_mem _ old)) notNew
      · exact notOld (List.mem_cons_of_mem _ (by simp [← order, ahead]))
  -- a visit at most doubles a node, so that there is fuel to walk over what is behind
  have short : (walk.visited.flatMap edited).length < fuel := by
    have bound : (walk.visited.flatMap edited).length ≤ 2 * walk.visited.length :=
      length_edited_le
    have total := congrArg List.length order
    simp only [List.length_append, List.length_map, List.length_cons] at total
    omega
  obtain ⟨next', iterator', done, paused'⟩ := current.carryOut distinct short notThere
  refine ⟨{ next := next', iterator := iterator', visited := walk.visited ++ [(link, decision)] },
    ?_, ?_, ?_, ?_, ?_, ?_, ?_⟩
  · rw [SList.pass, returned]
    simp only [Option.bind_some, decided, done, Option.map_some]
  · simpa using paused'
  · simp [← order]
  · -- the new node is the only one that was not there
    cases decision with
    | nothing => simpa [edited] using distinct
    | iteratorRemove | remove =>
      simpa [edited] using distinct.sublist
        (((List.sublist_cons_self link rest).append_left _).cons_cons list)
    | insert x =>
      have apart := notThere x rfl
      have moved : (list :: (walk.visited.flatMap edited ++ x :: link :: rest)).Perm
          (x :: list :: (walk.visited.flatMap edited ++ link :: rest)) := by
        exact (List.perm_middle.cons list).trans (List.Perm.swap _ _ _)
      suffices (list :: (walk.visited.flatMap edited ++ x :: link :: rest)).Nodup by
        simpa [edited] using this
      exact moved.nodup_iff.mpr (List.nodup_cons.mpr ⟨apart, distinct⟩)
  · intro y mem
    simp only [List.flatMap_append, List.flatMap_cons, List.flatMap_nil, List.append_nil,
      List.mem_append] at mem
    rcases mem with behind | here
    · exact (origin y behind).imp_right fun old => mem_inserted_concat.mpr (.inl old)
    · cases decision with
      | nothing =>
        obtain rfl : y = link := by simpa [edited] using here
        exact .inl known
      | iteratorRemove | remove => simp [edited] at here
      | insert x =>
        rcases (by simpa [edited] using here : y = x ∨ y = link) with rfl | rfl
        · exact .inr (mem_inserted_concat.mpr (.inr rfl))
        · exact .inl known
  · intro y mem
    rcases mem_inserted_concat.mp mem with before | put
    · exact new y before
    · exact fun old => (fresh _ _ _ (decided.trans put)).1 (List.mem_cons_of_mem list old)
  · intro entry mem
    rcases List.mem_append.mp mem with before | last
    · exact chosen entry before
    · obtain rfl := List.mem_singleton.mp last
      exact ⟨_, decided⟩

/-- The loop ends when nothing is ahead. -/
theorem Along.iterateFrom {passes : ℕ} (along : Along list links choose walk rest)
    (fresh : PutsInFresh list links choose) (enough : 2 * links.length < fuel)
    (many : rest.length < passes) :
    ∃ walk', iterateFrom fuel list choose passes walk = some walk' ∧
      Along list links choose walk' [] := by
  induction rest generalizing walk passes with
  | nil =>
    obtain ⟨passes, rfl⟩ : ∃ n, passes = n + 1 := ⟨passes - 1, by simp at many; omega⟩
    have last : hdfSListIteratorHasNext walk.next walk.iterator = false := by
      simpa using along.paused.hasNext.not
    exact ⟨walk, by simp [SList.iterateFrom, last], along⟩
  | cons link rest ih =>
    obtain ⟨passes, rfl⟩ : ∃ n, passes = n + 1 := ⟨passes - 1, by simp at many; omega⟩
    have more : hdfSListIteratorHasNext walk.next walk.iterator = true := by
      simpa using along.paused.hasNext
    obtain ⟨walk', passed, along'⟩ := along.pass fresh enough
    obtain ⟨walk'', ran, finished⟩ := ih along' (by simpa using many)
    exact ⟨walk'', by rw [SList.iterateFrom, if_pos more, passed, Option.bind_some, ran], finished⟩

/-- The loop over a list ends. -/
theorem exists_iterate (leads : Leads next list links none) (distinct : (list :: links).Nodup)
    (fresh : PutsInFresh list links choose) (enough : 2 * links.length < fuel) :
    ∃ walk, iterate fuel next list choose = some walk ∧ Along list links choose walk [] := by
  have start : Along list links choose
      { next, iterator := hdfSListIteratorInit next (some list), visited := [] } links :=
    ⟨paused_init leads, rfl, distinct, by simp, by simp [inserted], by simp⟩
  exact start.iterateFrom fresh enough (by omega)

omit [DecidableEq α] in
theorem Along.visited_eq (finished : Along list links choose walk []) :
    walk.visited.map Prod.fst = links := by
  simpa using finished.order

/-- The loop ends, visits every node of the list once and in order and no node that was put in,
decides on each, and leaves the list with the removed nodes taken out and each new node directly
before the node it was put in at. -/
theorem iterate_visits (leads : Leads next list links none) (distinct : (list :: links).Nodup)
    (fresh : PutsInFresh list links choose) (enough : 2 * links.length < fuel) :
    ∃ walk, iterate fuel next list choose = some walk ∧
      walk.visited.map Prod.fst = links ∧
      (∀ entry ∈ walk.visited, ∃ seen, choose seen entry.1 = entry.2) ∧
      (∀ x ∈ inserted walk.visited, x ∉ walk.visited.map Prod.fst) ∧
      Leads walk.next list (walk.visited.flatMap edited) none := by
  obtain ⟨walk, ran, finished⟩ := exists_iterate leads distinct fresh enough
  have chain := finished.paused.leads
  rw [List.append_nil] at chain
  exact ⟨walk, ran, finished.visited_eq, finished.chosen,
    finished.visited_eq.symm ▸ finished.new, chain⟩

/-- The first node is taken out through the iterator, the second behind its back, and a new node is
put in before the next one. -/
def mixed (walk : Walk ℕ) (link : ℕ) : Decision ℕ :=
  if link = 1 then .iteratorRemove
  else if link = 2 then .remove
  else if inserted walk.visited = [] then .insert 4
  else .nothing

theorem iterate_visits_three :
    ∃ walk, iterate 7 (fun a : ℕ => if a < 3 then some (a + 1) else none) 0 mixed = some walk ∧
      walk.visited.map Prod.fst = [1, 2, 3] ∧
      (∀ entry ∈ walk.visited, ∃ seen, mixed seen entry.1 = entry.2) ∧
      (∀ x ∈ inserted walk.visited, x ∉ walk.visited.map Prod.fst) ∧
      Leads walk.next 0 (walk.visited.flatMap edited) none := by
  refine iterate_visits (by simp) (by simp) ?_ (by simp)
  intro walk link x put
  rw [mixed] at put
  split_ifs at put with first second none
  obtain rfl : 4 = x := Decision.insert.inj put
  simp [none]

/-! ## Flushing -/

/-- The loop of `HdfSListFlush`: the nodes that are given to the deleter, with the pointers that it
finds, and the pointers at the end. The memory of a deleted node may hold anything. -/
def hdfSListFlushFrom (freed : α → Option α) : ℕ → (α → Option α) → HdfSListIterator α →
    Option (List (α × (α → Option α)) × (α → Option α))
  | 0, _, _ => none
  | passes + 1, next, iterator =>
    if hdfSListIteratorHasNext next iterator then
      let (iterator, returned) := hdfSListIteratorNext next iterator
      let (next, iterator) := hdfSListIteratorRemove next iterator
      returned.bind fun listNode =>
        (hdfSListFlushFrom freed passes (Function.update next listNode (freed listNode))
          iterator).map fun rest => ((listNode, next) :: rest.1, rest.2)
    else some ([], next)

/-- `HdfSListFlush`. -/
def hdfSListFlush (freed : α → Option α) (passes : ℕ) (next : α → Option α) (list : α) :
    Option (List (α × (α → Option α)) × (α → Option α)) :=
  hdfSListFlushFrom freed passes next (hdfSListIteratorInit next (some list))

/-- Flushing a list ends, gives its nodes to the deleter, each once and in order, and leaves it
empty. When the deleter gets a node, the list consists of the nodes behind it. -/
theorem hdfSListFlush_empties {freed : α → Option α} {passes : ℕ}
    (leads : Leads next list links none) (distinct : (list :: links).Nodup)
    (enough : links.length < passes) :
    ∃ calls next', hdfSListFlush freed passes next list = some (calls, next') ∧
      calls.map Prod.fst = links ∧
      (∀ i call, calls[i]? = some call → Leads call.2 list (links.drop (i + 1)) none) ∧
      Leads next' list [] none := by
  induction links generalizing next passes with
  | nil =>
    obtain ⟨passes, rfl⟩ : ∃ n, passes = n + 1 := ⟨passes - 1, by simp at enough; omega⟩
    have none : next list = none := leads
    exact ⟨[], next, by simp [hdfSListFlush, hdfSListFlushFrom, hdfSListIteratorInit,
      hdfSListIteratorHasNext, none], rfl, by simp, leads⟩
  | cons link rest ih =>
    obtain ⟨passes, rfl⟩ : ∃ n, passes = n + 1 := ⟨passes - 1, by simp at enough; omega⟩
    have apart := distinct
    simp only [List.nodup_cons, List.mem_cons, not_or] at apart
    obtain ⟨⟨other, away⟩, new, distinct'⟩ := apart
    have unlinked : Leads (Function.update next list (next link)) list rest Option.none :=
      Leads.unlink (l := []) leads distinct
    have later := unlinked.update (a := link) (v := freed link) (by simp [Ne.symm other, new])
    obtain ⟨calls, next', ran, order, open', last⟩ :=
      ih later (List.nodup_cons.mpr ⟨away, distinct'⟩) (by simpa using enough)
    refine ⟨(link, Function.update next list (next link)) :: calls, next', ?_,
      congrArg (link :: ·) order, fun i call found => ?_, last⟩
    · have first : next list = some link := leads.1
      simpa [hdfSListFlush, hdfSListFlushFrom, hdfSListIteratorInit, hdfSListIteratorHasNext,
        hdfSListIteratorNext, hdfSListIteratorRemove, first, other] using ran
    · cases i with
      | zero =>
        obtain rfl := Option.some.inj found
        exact unlinked
      | succ i => exact open' i call found

theorem hdfSListFlush_empties_three :
    ∃ calls next', hdfSListFlush (fun _ => none) 4
        (fun a : ℕ => if a < 3 then some (a + 1) else none) 0 = some (calls, next') ∧
      calls.map Prod.fst = [1, 2, 3] ∧
      (∀ i call, calls[i]? = some call → Leads call.2 0 ([1, 2, 3].drop (i + 1)) none) ∧
      Leads next' 0 [] none :=
  hdfSListFlush_empties (by simp) (by simp) (by simp)

end Hdf.Utils.SList
