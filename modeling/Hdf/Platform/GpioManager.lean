import Hdf.Lib.Runs
import Mathlib.Data.List.Pairwise

/-!
# GPIO numbers

A GPIO controller has the numbers of a range. The manager looks whether the range of a
new controller is free and adds the controller at the end of its list, and a number is
looked for in the ranges from the first one on.

The loop that looks for a free range remembers the controller before the current one in
a variable that it never sets. So it takes every controller of the list for the first
one, with all the numbers below it free.

## Main results

* `checkStart_iff`: which ranges the manager takes for free
* `oneCntlr_of_runs`: every number belongs to one controller after orderly calls
* `shares_numbers`: two controllers with the same numbers
-/

namespace Hdf.Platform.Gpio

/-- `struct GpioCntlr`, at an address. -/
structure GpioCntlr where
  addr : ℕ
  ops : Bool
  start : UInt16
  count : UInt16
  deriving DecidableEq, Repr

/-- The first number behind the range of a controller. -/
def GpioCntlr.stop (cntlr : GpioCntlr) : ℕ := cntlr.start.toNat + cntlr.count.toNat

/-- What the functions return. -/
inductive Status where
  | success | invalidObject | invalidParam | mallocFail | initFailed | rscNotAvl | gpioNumMax
  deriving DecidableEq, Repr

/-- `MAX_CNT_PER_CNTLR`. -/
def maxCntPerCntlr : UInt16 := 1024

/-- The loop of `GpioCntlrCheckStart`, and what follows it. The sums and the difference that are
stored have 16 bits, and those that are compared do not wrap around. -/
def checkStartLoop (cntlr : GpioCntlr) (iterLast cntlrLast : Option GpioCntlr) :
    List GpioCntlr → Status
  | [] =>
    match cntlrLast with
    | none => .success
    | some last => if last.stop ≤ cntlr.start.toNat then .success else .gpioNumMax
  | cur :: list =>
    let freeStart := match iterLast with
      | none => 0
      | some last => last.start + last.count
    let freeCount := cur.start - freeStart
    if cntlr.start < freeStart then .rscNotAvl
    else if cntlr.stop ≤ freeStart.toNat + freeCount.toNat then .success
    else checkStartLoop cntlr iterLast (some cur) list

/-- `GpioCntlrCheckStart`. -/
def gpioCntlrCheckStart (cntlr : GpioCntlr) (list : List GpioCntlr) : Status :=
  checkStartLoop cntlr none none list

/-- `GpioManagerAdd`. -/
def gpioManagerAdd (cntlr : GpioCntlr) (list : List GpioCntlr) : Status × List GpioCntlr :=
  if gpioCntlrCheckStart cntlr list = .success then (.success, list ++ [cntlr])
  else (.invalidParam, list)

/-- `GpioCntlrAdd`, with `PlatformDeviceAdd`. Creating the infos and initialising the device may
fail. A device that is initialised while it is in the list takes the list apart. -/
def gpioCntlrAdd (cntlr : GpioCntlr) (infos initialises : Bool) (list : List GpioCntlr) :
    Option (Status × List GpioCntlr) :=
  if ¬cntlr.ops then some (.invalidObject, list)
  else if cntlr.count = 0 ∨ maxCntPerCntlr ≤ cntlr.count then some (.invalidParam, list)
  else if ¬infos then some (.mallocFail, list)
  else if ¬initialises then some (.initFailed, list)
  else if cntlr ∈ list then none
  else some (gpioManagerAdd cntlr list)

/-- `GpioCntlrRemove`, with `PlatformDeviceDel` and `GpioManagerDel`. -/
def gpioCntlrRemove (cntlr : GpioCntlr) (list : List GpioCntlr) : List GpioCntlr :=
  list.erase cntlr

/-- `GpioCntlrFindMatch`. -/
def gpioCntlrFindMatch (gpio : UInt16) (cntlr : GpioCntlr) : Bool :=
  cntlr.start ≤ gpio ∧ gpio.toNat < cntlr.stop

/-- `GpioCntlrGetByGpio`. -/
def gpioCntlrGetByGpio (gpio : UInt16) (list : List GpioCntlr) : Option GpioCntlr :=
  list.find? (gpioCntlrFindMatch gpio)

/-- The calls. -/
inductive Action where
  | add (cntlr : GpioCntlr) (infos initialises : Bool)
  | remove (cntlr : GpioCntlr)
  deriving DecidableEq, Repr

/-- One call. -/
def step (action : Action) (list : List GpioCntlr) : Option (List GpioCntlr) :=
  match action with
  | .add cntlr infos initialises => (gpioCntlrAdd cntlr infos initialises list).map Prod.snd
  | .remove cntlr => some (gpioCntlrRemove cntlr list)

/-- Two controllers have no number in common. -/
def Apart (a b : GpioCntlr) : Prop := a.stop ≤ b.start.toNat ∨ b.stop ≤ a.start.toNat

instance : DecidableRel Apart := fun a b =>
  inferInstanceAs (Decidable (a.stop ≤ b.start.toNat ∨ b.stop ≤ a.start.toNat))

/-- A controller that can be added. -/
def GpioCntlr.Valid (cntlr : GpioCntlr) : Prop :=
  cntlr.ops = true ∧ 0 < cntlr.count.toNat ∧ cntlr.count.toNat < 1024

instance (cntlr : GpioCntlr) : Decidable cntlr.Valid :=
  inferInstanceAs (Decidable (_ ∧ _ ∧ _))

/-- The calls that keep the ranges apart: a controller that is added is not in the list, and if
it has a number in common with another one, then it neither ends before any range begins nor
begins behind the range of the last controller. -/
def Orderly (action : Action) (list : List GpioCntlr) : Prop :=
  match action with
  | .add cntlr infos initialises => infos → initialises → cntlr.Valid → cntlr ∉ list ∧
      ((∃ cur ∈ list, ¬Apart cntlr cur) → (∀ cur ∈ list, cur.start.toNat < cntlr.stop) ∧
        ∀ last ∈ list.getLast?, cntlr.start.toNat < last.stop)
  | .remove _ => True

instance (action : Action) (list : List GpioCntlr) : Decidable (Orderly action list) :=
  match action with
  | .add cntlr infos initialises => inferInstanceAs (Decidable
      (infos → initialises → cntlr.Valid → cntlr ∉ list ∧
        ((∃ cur ∈ list, ¬Apart cntlr cur) → (∀ cur ∈ list, cur.start.toNat < cntlr.stop) ∧
          ∀ last ∈ list.getLast?, cntlr.start.toNat < last.stop)))
  | .remove _ => .isTrue trivial

/-- Every number belongs to one controller: the ranges have no number in common, a controller is
refused if and only if it has a number of another one, and a number is found if and only if
it is in a range. -/
structure OneCntlr (list : List GpioCntlr) : Prop where
  disjoint : list.Pairwise Apart
  refused : ∀ cntlr, Orderly (.add cntlr true true) list → cntlr.Valid →
    ∃ status list', gpioCntlrAdd cntlr true true list = some (status, list') ∧
      (status ≠ .success ↔ ∃ cur ∈ list, ¬Apart cntlr cur)
  found : ∀ gpio cntlr, gpioCntlrGetByGpio gpio list = some cntlr ↔
    cntlr ∈ list ∧ cntlr.start.toNat ≤ gpio.toNat ∧ gpio.toNat < cntlr.stop

variable {cntlr a b : GpioCntlr} {list list' : List GpioCntlr}

instance : Std.Symm Apart := ⟨fun _ _ apart => Or.symm apart⟩

/-- The manager takes a range for free that ends before any range begins or that begins behind
the last one. -/
theorem checkStartLoop_iff (cntlrLast : Option GpioCntlr) :
    checkStartLoop cntlr none cntlrLast list = .success ↔
      (∃ cur ∈ list, cntlr.stop ≤ cur.start.toNat) ∨
        ∀ last ∈ list.getLast?.or cntlrLast, last.stop ≤ cntlr.start.toNat := by
  induction list generalizing cntlrLast with
  | nil =>
    cases cntlrLast with
    | none => simp [checkStartLoop]
    | some last =>
      rw [checkStartLoop]
      split <;> simp_all
  | cons cur list ih =>
    have nothing : ¬cntlr.start < 0 := by simp
    have all : (0 : UInt16).toNat + (cur.start - 0).toNat = cur.start.toNat := by simp
    have last : ((cur :: list).getLast?.or cntlrLast) = list.getLast?.or (some cur) := by
      cases list with
      | nil => rfl
      | cons next list => simp [List.getLast?_cons]
    rw [checkStartLoop, last, if_neg nothing, all]
    split
    · rename_i before
      exact iff_of_true rfl (.inl ⟨cur, List.mem_cons_self, before⟩)
    · rename_i behind
      rw [ih]
      simp [behind]

theorem checkStart_iff : gpioCntlrCheckStart cntlr list = .success ↔
    (∃ cur ∈ list, cntlr.stop ≤ cur.start.toNat) ∨
      ∀ last ∈ list.getLast?, last.stop ≤ cntlr.start.toNat := by
  rw [gpioCntlrCheckStart, checkStartLoop_iff, Option.or_none]

/-- A range that is free is taken for free. -/
theorem checkStart_of_apart (apart : ∀ cur ∈ list, Apart cntlr cur) :
    gpioCntlrCheckStart cntlr list = .success := by
  refine checkStart_iff.mpr ?_
  by_cases before : ∃ cur ∈ list, cntlr.stop ≤ cur.start.toNat
  · exact .inl before
  · refine .inr fun last member => ?_
    have inside := List.mem_of_getLast? member
    exact (apart last inside).resolve_left fun below => before ⟨last, inside, below⟩

/-- A range that is not free is refused, if the call is orderly. -/
theorem checkStart_of_meets (meets : ∃ cur ∈ list, ¬Apart cntlr cur)
    (above : ∀ cur ∈ list, cur.start.toNat < cntlr.stop)
    (below : ∀ last ∈ list.getLast?, cntlr.start.toNat < last.stop) :
    gpioCntlrCheckStart cntlr list ≠ .success := by
  intro free
  rcases checkStart_iff.mp free with ⟨cur, member, before⟩ | behind
  · exact Nat.not_lt.mpr before (above cur member)
  · obtain ⟨cur, member, -⟩ := meets
    have last : list.getLast? = some (list.getLast (List.ne_nil_of_mem member)) :=
      List.getLast?_eq_some_getLast _
    exact Nat.not_lt.mpr (behind _ last) (below _ last)

/-- What adding a controller does. -/
theorem gpioCntlrAdd_of_valid (orderly : Orderly (.add cntlr true true) list)
    (valid : cntlr.Valid) :
    (gpioCntlrAdd cntlr true true list = some (.success, list ++ [cntlr]) ∧
        ∀ cur ∈ list, Apart cntlr cur) ∨
      gpioCntlrAdd cntlr true true list = some (.invalidParam, list) ∧
        ∃ cur ∈ list, ¬Apart cntlr cur := by
  obtain ⟨fresh, refused⟩ := orderly rfl rfl valid
  obtain ⟨ops, positive, small⟩ := valid
  have count : ¬(cntlr.count = 0 ∨ maxCntPerCntlr ≤ cntlr.count) := by
    rintro (zero | large)
    · rw [zero] at positive
      cases positive
    · exact Nat.not_le.mpr small (UInt16.le_iff_toNat_le.mp large)
  have added : gpioCntlrAdd cntlr true true list = some (gpioManagerAdd cntlr list) := by
    rw [gpioCntlrAdd, if_neg (not_not.mpr ops), if_neg count, if_neg (not_not.mpr rfl),
      if_neg (not_not.mpr rfl), if_neg fresh]
  rw [added, gpioManagerAdd]
  by_cases meets : ∃ cur ∈ list, ¬Apart cntlr cur
  · obtain ⟨above, below⟩ := refused meets
    rw [if_neg (checkStart_of_meets meets above below)]
    exact .inr ⟨rfl, meets⟩
  · have apart : ∀ cur ∈ list, Apart cntlr cur := by simpa using meets
    rw [if_pos (checkStart_of_apart apart)]
    exact .inl ⟨rfl, apart⟩

/-- What a call keeps. -/
theorem disjoint_step {action : Action} (disjoint : list.Pairwise Apart)
    (orderly : Orderly action list) (stepped : step action list = some list') :
    list'.Pairwise Apart := by
  cases action with
  | remove cntlr =>
    cases stepped
    exact disjoint.sublist List.erase_sublist
  | add cntlr infos initialises =>
    obtain ⟨⟨status, list''⟩, added, rfl⟩ := Option.map_eq_some_iff.mp stepped
    by_cases runs : infos = true ∧ initialises = true ∧ cntlr.Valid
    · obtain ⟨rfl, rfl, valid⟩ := runs
      rcases gpioCntlrAdd_of_valid orderly valid with ⟨result, apart⟩ | ⟨result, -⟩
      · cases result.symm.trans added
        refine List.pairwise_append.mpr ⟨disjoint, List.pairwise_singleton _ _, ?_⟩
        intro cur member new last
        rw [List.mem_singleton.mp last]
        exact Or.symm (apart cur member)
      · cases result.symm.trans added
        exact disjoint
    · -- nothing is added
      have same : list'' = list := by
        rw [gpioCntlrAdd] at added
        split at added
        · cases added
          rfl
        · split at added
          · cases added
            rfl
          · split at added
            · cases added
              rfl
            · split at added
              · cases added
                rfl
              · rename_i ops count created initialised
                refine absurd ⟨not_not.mp created, not_not.mp initialised, not_not.mp ops, ?_⟩ runs
                have zero : cntlr.count ≠ 0 := fun zero => count (.inl zero)
                have small : ¬maxCntPerCntlr ≤ cntlr.count := fun large => count (.inr large)
                rw [UInt16.le_iff_toNat_le, Nat.not_le] at small
                refine ⟨Nat.pos_of_ne_zero fun none => zero (UInt16.toNat_inj.mp none), small⟩
      rw [same]
      exact disjoint

theorem oneCntlr_of_disjoint (disjoint : list.Pairwise Apart) : OneCntlr list where
  disjoint := disjoint
  refused cntlr orderly valid := by
    rcases gpioCntlrAdd_of_valid orderly valid with ⟨result, apart⟩ | ⟨result, meets⟩
    · refine ⟨_, _, result, iff_of_false (not_not.mpr rfl) ?_⟩
      rintro ⟨cur, member, meets⟩
      exact meets (apart cur member)
    · exact ⟨_, _, result, iff_of_true (by decide) meets⟩
  found gpio cntlr := by
    have matched (cntlr : GpioCntlr) : gpioCntlrFindMatch gpio cntlr = true ↔
        cntlr.start.toNat ≤ gpio.toNat ∧ gpio.toNat < cntlr.stop := by
      rw [gpioCntlrFindMatch, decide_eq_true_iff, UInt16.le_iff_toNat_le]
    rw [gpioCntlrGetByGpio, ← matched]
    constructor
    · exact fun found => ⟨List.mem_of_find?_eq_some found, List.find?_some found⟩
    · rintro ⟨member, here⟩
      cases found : list.find? (gpioCntlrFindMatch gpio) with
      | none => exact absurd here (List.find?_eq_none.mp found cntlr member)
      | some first =>
        by_contra differs
        have there := (matched first).mp (List.find?_some found)
        rw [matched] at here
        have apart := disjoint.forall (List.mem_of_find?_eq_some found) member
          fun same => differs (congrArg some same)
        rcases apart with before | behind
        · exact Nat.not_lt.mpr (Nat.le_trans before here.1) there.2
        · exact Nat.not_lt.mpr (Nat.le_trans behind there.1) here.2

/-- Every number belongs to one controller after orderly calls. -/
theorem oneCntlr_of_runs {actions : List Action} (orderly : Meets step Orderly [] actions)
    (ran : runs step [] actions = some list) : OneCntlr list :=
  oneCntlr_of_disjoint (runs_invariant
    (fun _ _ _ disjoint orderly stepped => disjoint_step disjoint orderly stepped)
    .nil orderly ran)

/-! ### Some runs -/

/-- A controller with its start and count. -/
def range (addr : ℕ) (start count : UInt16) : GpioCntlr := ⟨addr, true, start, count⟩

/-- Three controllers, the second of which is removed. -/
def orderlyRun : List Action :=
  [.add (range 0 100 10) true true, .add (range 1 0 20) true true,
    .add (range 2 110 1023) true true, .remove (range 1 0 20), .add (range 3 1100 50) true true]

theorem oneCntlr_orderlyRun : ∃ list, runs step [] orderlyRun = some list ∧ OneCntlr list ∧
    list = [range 0 100 10, range 2 110 1023] :=
  ⟨_, rfl, @oneCntlr_of_runs _ orderlyRun (by decide) rfl, rfl⟩

/-- The second and the third controller have the numbers from 55 on in common, as both are below
the first one. -/
theorem shares_numbers : ∃ list, runs step [] [.add (range 0 100 10) true true,
    .add (range 1 50 10) true true, .add (range 2 55 10) true true] = some list ∧
    list = [range 0 100 10, range 1 50 10, range 2 55 10] ∧ ¬Apart (range 1 50 10) (range 2 55 10) ∧
    gpioCntlrGetByGpio 57 list = some (range 1 50 10) :=
  ⟨_, rfl, rfl, by decide, rfl⟩

end Hdf.Platform.Gpio
