import Hdf.Audio.SapmPower
import Mathlib.Data.Fin.VecNotation

/-!
# Which components a power update reaches

The walk over the dirty components visits exactly those that a chain of wakes
leads to: a component whose new power differs from its stored power wakes the
neighbours over connected paths whose stored power differs from that new power.
So the power follows the paths after the update exactly when each component with a
register whose check changes is reached in this way, and each one that is reached
has a count of endpoints that its eight bits of new power tell from zero.

## Main results

* `power_of_reached`, `power_of_not_reached`: the stored power that an update leaves
* `follows_iff`: the exact condition, and the order of the writes
* `staysUp_behind_mixer`: a card on which components stay up without a path
-/

namespace Hdf.Audio.Sapm

open Relation

variable {α : Type*} [DecidableEq α]

/-- Every component with a register is up exactly when its check is positive. -/
def PowerFollows (card : AudioCard α) : Prop :=
  ∀ c, 0 ≤ (card.component c).reg →
    (card.component c).power =
      if 0 < (powerCheck card c).toInt then SAPM_POWER_UP else SAPM_POWER_DOWN

/-- A connected path joins the two components. -/
def Joined (card : AudioCard α) (c d : α) : Prop :=
  ∃ path ∈ card.paths, path.connect ≠ 0 ∧
    (path.sink = c ∧ path.source = d ∨ path.source = c ∧ path.sink = d)

/-- The component `c`, when it is visited, makes its neighbour `d` dirty. -/
def Wakes (card : AudioCard α) (c d : α) : Prop :=
  newPower card c ≠ (card.component c).power ∧ Joined card c d ∧
    (card.component d).power ≠ newPower card c

/-- A chain of wakes leads from the list to the component. -/
def Reached (card : AudioCard α) (dirty : List α) (d : α) : Prop :=
  ∃ c ∈ dirty, ReflTransGen (Wakes card) c d

/-! ### One round -/

section

variable {card : AudioCard α} {power : BitVec 8} {neighbour : AudioSapmpath α → α}

theorem markDirty_eq_or (dirty : List α) (path : AudioSapmpath α) :
    markDirty card power neighbour dirty path = dirty ∨
      neighbour path ∉ dirty ∧
        markDirty card power neighbour dirty path = dirty ++ [neighbour path] := by
  rw [markDirty]
  split
  · split
    · exact .inl rfl
    · exact .inr ⟨by assumption, rfl⟩
  · exact .inl rfl

theorem mem_markDirty_iff {dirty : List α} {path : AudioSapmpath α} {d : α} :
    d ∈ markDirty card power neighbour dirty path ↔
      d ∈ dirty ∨ path.connect ≠ 0 ∧ (card.component d).power ≠ power ∧ neighbour path = d := by
  rw [markDirty]
  split
  · rename_i wakes
    split
    · rename_i listed
      refine ⟨.inl, ?_⟩
      rintro (old | ⟨-, -, rfl⟩)
      · exact old
      · exact listed
    · rw [List.mem_append, List.mem_singleton]
      refine or_congr Iff.rfl ⟨?_, fun h => h.2.2.symm⟩
      rintro rfl
      exact ⟨wakes.2, wakes.1, rfl⟩
  · rename_i quiet
    refine ⟨.inl, ?_⟩
    rintro (old | ⟨connected, differs, rfl⟩)
    · exact old
    · exact absurd ⟨differs, connected⟩ quiet

theorem markAll_extends (paths : List (AudioSapmpath α)) (dirty : List α) :
    dirty <+: paths.foldl (markDirty card power neighbour) dirty := by
  induction paths generalizing dirty with
  | nil => exact List.prefix_rfl
  | cons path paths ih =>
    refine List.IsPrefix.trans ?_ (ih _)
    rcases @markDirty_eq_or _ _ card power neighbour dirty path with same | ⟨-, longer⟩
    · rw [same]
    · rw [longer]
      exact List.prefix_append _ _

theorem markAll_nodup (paths : List (AudioSapmpath α)) {dirty : List α} (nodup : dirty.Nodup) :
    (paths.foldl (markDirty card power neighbour) dirty).Nodup := by
  induction paths generalizing dirty with
  | nil => exact nodup
  | cons path paths ih =>
    refine ih ?_
    rcases @markDirty_eq_or _ _ card power neighbour dirty path with same | ⟨fresh, longer⟩
    · rwa [same]
    · rw [longer]
      exact nodup.append (List.nodup_singleton _) (List.disjoint_singleton.mpr fresh)

theorem mem_markAll_iff {paths : List (AudioSapmpath α)} {dirty : List α} {d : α} :
    d ∈ paths.foldl (markDirty card power neighbour) dirty ↔
      d ∈ dirty ∨ ∃ path ∈ paths,
        path.connect ≠ 0 ∧ (card.component d).power ≠ power ∧ neighbour path = d := by
  induction paths generalizing dirty with
  | nil => simp
  | cons path paths ih =>
    rw [List.foldl_cons, ih, mem_markDirty_iff, List.exists_mem_cons_iff, or_assoc]

end

theorem powerClockOp_succeeds {sapmType : AudioSapmType} {ret : ℤ}
    (called : ret ∈ powerClockOp sapmType) : ret = 0 := by
  cases sapmType <;> simp_all [powerClockOp]

section

variable (beyond : Bool → AudioSapmType → ℤ) (isStandby : Bool) (card : AudioCard α)

/-- In stand-by the clock callbacks succeed, so they keep no component from its new power. -/
theorem visitDirty_eq (c : α) (sweep : Sweep α) :
    visitDirty beyond isStandby card c sweep =
      if newPower card c = (card.component c).power then sweep
      else audioSapmSetPower beyond card c (newPower card c) sweep := by
  have succeeds : ¬ ∃ ret ∈ powerClockOp (card.component c).sapmType, ret ≠ 0 := by
    rintro ⟨ret, called, failed⟩
    exact failed (powerClockOp_succeeds called)
  rw [visitDirty, if_neg (c := isStandby = true ∧ _) (fun both => succeeds both.2)]

theorem setPower_sapmDirty (c : α) (power : BitVec 8) (sweep : Sweep α) :
    (audioSapmSetPower beyond card c power sweep).sapmDirty =
      (card.sinks c).foldl (markDirty card power (·.sink))
        ((card.sources c).foldl (markDirty card power (·.source)) sweep.sapmDirty) := by
  rw [audioSapmSetPower]
  split <;> rfl

/-- A round appends the components that its component wakes. -/
theorem visitDirty_appends :
    Worklist.Appends Sweep.sapmDirty (visitDirty beyond isStandby card) (Wakes card) := by
  refine ⟨fun c sweep => ?_, fun c sweep nodup => ?_, fun c sweep d => ?_⟩ <;>
    rw [visitDirty_eq] <;> split
  · exact List.prefix_rfl
  · rw [setPower_sapmDirty]
    exact (markAll_extends _ _).trans (markAll_extends _ _)
  · exact nodup
  · rw [setPower_sapmDirty]
    exact markAll_nodup _ (markAll_nodup _ nodup)
  · rename_i same
    exact ⟨.inl, fun h => h.elim id fun wakes => absurd same wakes.1⟩
  · rename_i differs
    rw [setPower_sapmDirty, mem_markAll_iff, mem_markAll_iff, or_assoc]
    refine or_congr Iff.rfl ⟨?_, ?_⟩
    · rintro (⟨path, listed, connected, wakes, rfl⟩ | ⟨path, listed, connected, wakes, rfl⟩)
      · obtain ⟨member, ends⟩ := List.mem_filter.mp listed
        exact ⟨differs, ⟨path, member, connected, .inl ⟨of_decide_eq_true ends, rfl⟩⟩, wakes⟩
      · obtain ⟨member, starts⟩ := List.mem_filter.mp listed
        exact ⟨differs, ⟨path, member, connected, .inr ⟨of_decide_eq_true starts, rfl⟩⟩, wakes⟩
    · rintro ⟨-, ⟨path, member, connected, ⟨rfl, rfl⟩ | ⟨rfl, rfl⟩⟩, wakes⟩
      · exact .inl ⟨path, List.mem_filter.mpr ⟨member, decide_eq_true rfl⟩, connected, wakes, rfl⟩
      · exact .inr ⟨path, List.mem_filter.mpr ⟨member, decide_eq_true rfl⟩, connected, wakes, rfl⟩

end

/-! ### The two power sequences -/

section

variable {seq : α → ℤ}

omit [DecidableEq α] in
theorem mem_powerSeqInsert {c d : α} {list : List α} :
    d ∈ audioSapmPowerSeqInsert seq c list ↔ d = c ∨ d ∈ list := by
  induction list with
  | nil => rw [audioSapmPowerSeqInsert, List.mem_singleton]; simp
  | cons e list ih =>
    rw [audioSapmPowerSeqInsert]
    split
    · rw [List.mem_cons]
    · rw [List.mem_cons, ih, List.mem_cons, or_left_comm]

omit [DecidableEq α] in
theorem powerSeqInsert_sorted (c : α) {list : List α}
    (sorted : list.Pairwise fun a b => seq a ≤ seq b) :
    (audioSapmPowerSeqInsert seq c list).Pairwise fun a b => seq a ≤ seq b := by
  induction list with
  | nil => exact List.pairwise_singleton _ _
  | cons e list ih =>
    obtain ⟨first, rest⟩ := List.pairwise_cons.mp sorted
    rw [audioSapmPowerSeqInsert]
    split
    · rename_i before
      refine List.pairwise_cons.mpr ⟨fun d member => ?_, sorted⟩
      rcases List.mem_cons.mp member with rfl | later
      · omega
      · have := first d later
        omega
    · rename_i behind
      refine List.pairwise_cons.mpr ⟨fun d member => ?_, ih rest⟩
      rcases mem_powerSeqInsert.mp member with rfl | later
      · omega
      · exact first d later

end

omit [DecidableEq α] in
theorem mem_regWrites {card : AudioCard α} {c : α} {power : BitVec 8} {write : RegWrite α}
    (member : write ∈ regWrites card c power) : write.power = power ∧ write.component = c := by
  rcases List.mem_append.mp member with first | second
  · split at first
    · rw [List.mem_singleton.mp first]
      exact ⟨rfl, rfl⟩
    · exact absurd first List.not_mem_nil
  · split at second
    · rw [List.mem_singleton.mp second]
      exact ⟨rfl, rfl⟩
    · exact absurd second List.not_mem_nil

section

variable {before after : BitVec 8} (list : List α) (card : AudioCard α)

theorem powerSeqRun_sameGraph : SameGraph card (powerSeqRun before after list card).1 := by
  induction list generalizing card with
  | nil => exact .refl card
  | cons c list ih =>
    rw [powerSeqRun]
    split
    · exact (SameGraph.storePower card c after).trans (ih _)
    · exact ih card

theorem power_storePower (c d : α) (power : BitVec 8) :
    ((card.storePower c power).component d).power =
      if d = c then power else (card.component d).power := by
  by_cases same : d = c
  · subst same
    simp [AudioCard.storePower]
  · simp [AudioCard.storePower, same]

theorem power_powerSeqRun (changes : after ≠ before) (d : α) :
    ((powerSeqRun before after list card).1.component d).power =
      if d ∈ list ∧ 0 ≤ (card.component d).reg ∧ (card.component d).power = before then after
      else (card.component d).power := by
  induction list generalizing card with
  | nil => rw [powerSeqRun, if_neg (fun h => List.not_mem_nil h.1)]
  | cons c list ih =>
    rw [powerSeqRun]
    split
    · rename_i switches
      rw [ih, (SameGraph.storePower card c after).reg, power_storePower]
      by_cases same : d = c
      · subst same
        rw [if_pos rfl, if_neg (fun h => changes h.2.2), if_pos ⟨List.mem_cons_self, switches⟩]
      · rw [if_neg same]
        exact if_congr (by rw [List.mem_cons, or_iff_right same]) rfl rfl
    · rename_i stays
      rw [ih]
      refine if_congr (and_congr_left fun rest => ?_) rfl rfl
      refine ⟨List.mem_cons_of_mem c, fun member => (List.mem_cons.mp member).resolve_left ?_⟩
      rintro rfl
      exact stays rest

theorem mem_powerSeqRun {write : RegWrite α}
    (member : write ∈ (powerSeqRun before after list card).2) :
    write.power = after ∧ write.component ∈ list := by
  induction list generalizing card with
  | nil => exact absurd member List.not_mem_nil
  | cons c list ih =>
    rw [powerSeqRun] at member
    split at member
    · rcases List.mem_append.mp member with first | later
      · have here : write.power = after ∧ write.component = c := mem_regWrites first
        exact ⟨here.1, here.2 ▸ List.mem_cons_self⟩
      · exact (ih _ later).imp_right (List.mem_cons_of_mem c)
    · exact (ih _ member).imp_right (List.mem_cons_of_mem c)

theorem powerSeqRun_sorted {seq : α → ℤ} (sorted : list.Pairwise fun a b => seq a ≤ seq b) :
    (powerSeqRun before after list card).2.Pairwise
      fun w w' => seq w.component ≤ seq w'.component := by
  induction list generalizing card with
  | nil => exact List.Pairwise.nil
  | cons c list ih =>
    obtain ⟨first, rest⟩ := List.pairwise_cons.mp sorted
    rw [powerSeqRun]
    split
    · refine List.pairwise_append.mpr ⟨?_, ih _ rest, fun w here w' later => ?_⟩
      · refine List.pairwise_of_forall_mem_list fun w here w' here' => ?_
        rw [(mem_regWrites here).2, (mem_regWrites here').2]
      · rw [(mem_regWrites here).2]
        exact first _ (mem_powerSeqRun _ _ later).2
    · exact ih _ rest

end

/-! ### The whole update -/

/-- The order of the register writes: first the components that go down and then those that go
up, both along their sequence. -/
structure InSequence (beyond : Bool → AudioSapmType → ℤ) (card : AudioCard α)
    (writes : List (RegWrite α)) : Prop where
  downsFirst : writes.Pairwise fun w w' => w.power = SAPM_POWER_UP → w'.power = SAPM_POWER_UP
  downs : (writes.filter (·.power = SAPM_POWER_DOWN)).Pairwise fun w w' =>
    placeIn beyond card false w.component ≤ placeIn beyond card false w'.component
  ups : (writes.filter (·.power = SAPM_POWER_UP)).Pairwise fun w w' =>
    placeIn beyond card true w.component ≤ placeIn beyond card true w'.component

section

variable [Fintype α] (beyond : Bool → AudioSapmType → ℤ) (isStandby : Bool) (card : AudioCard α)

/-- What holds of the power sequences when some components have been visited. -/
structure Collected (visited : List α) (sweep : Sweep α) : Prop where
  mem_upList : ∀ c, c ∈ sweep.upList ↔
    c ∈ visited ∧ newPower card c ≠ (card.component c).power ∧ newPower card c ≠ 0
  mem_downList : ∀ c, c ∈ sweep.downList ↔
    c ∈ visited ∧ newPower card c ≠ (card.component c).power ∧ newPower card c = 0
  upSorted : sweep.upList.Pairwise fun c d =>
    placeIn beyond card true c ≤ placeIn beyond card true d
  downSorted : sweep.downList.Pairwise fun c d =>
    placeIn beyond card false c ≤ placeIn beyond card false d

omit [Fintype α] in
theorem Collected.visit {visited : List α} {sweep : Sweep α} (c : α)
    (collected : Collected beyond card visited sweep) :
    Collected beyond card (visited ++ [c]) (visitDirty beyond isStandby card c sweep) := by
  have visitedOr : ∀ d, d ∈ visited ++ [c] ↔ d = c ∨ d ∈ visited := by simp [or_comm]
  -- a component that is not in a list is none of the visited ones that belong there
  have leavesOut : ∀ {P : Prop} d, (d = c → ¬ P) →
      (d ∈ visited ++ [c] ∧ P ↔ d ∈ visited ∧ P) := by
    intro P d excluded
    rw [visitedOr]
    exact and_congr_left fun holds => or_iff_right fun same => excluded same holds
  rw [visitDirty_eq]
  split
  · rename_i same
    refine ⟨fun d => (collected.mem_upList d).trans (leavesOut d ?_).symm,
      fun d => (collected.mem_downList d).trans (leavesOut d ?_).symm,
      collected.upSorted, collected.downSorted⟩ <;>
    · rintro rfl ⟨differs, -⟩
      exact differs same
  · rename_i differs
    rw [audioSapmSetPower]
    split
    · rename_i up
      refine ⟨fun d => ?_, fun d => ?_, powerSeqInsert_sorted c collected.upSorted,
        collected.downSorted⟩
      · rw [mem_powerSeqInsert, collected.mem_upList, visitedOr, or_and_right]
        refine or_congr_left (and_iff_left_of_imp ?_).symm
        rintro rfl
        exact ⟨differs, up⟩
      · refine (collected.mem_downList d).trans (leavesOut d ?_).symm
        rintro rfl ⟨-, down⟩
        exact up down
    · rename_i down
      refine ⟨fun d => ?_, fun d => ?_, collected.upSorted,
        powerSeqInsert_sorted c collected.downSorted⟩
      · refine (collected.mem_upList d).trans (leavesOut d ?_).symm
        rintro rfl ⟨-, up⟩
        exact down up
      · rw [mem_powerSeqInsert, collected.mem_downList, visitedOr, or_and_right]
        refine or_congr_left (and_iff_left_of_imp ?_).symm
        rintro rfl
        exact ⟨differs, not_not.mp down⟩

variable {dirty : List α} (nodup : dirty.Nodup)

include nodup

/-- The walk collects the components reached whose new power differs. -/
theorem sweepDirty_collected :
    Collected beyond card (sweepDirty beyond isStandby card dirty).sapmDirty
      (sweepDirty beyond isStandby card dirty) := by
  refine Worklist.walk_induction (visitDirty_appends beyond isStandby card)
    (fun visited c sweep => Collected.visit beyond isStandby card c) nodup ?_
  exact ⟨by simp, by simp, List.Pairwise.nil, List.Pairwise.nil⟩

theorem mem_sweepDirty_iff {c : α} :
    c ∈ (sweepDirty beyond isStandby card dirty).sapmDirty ↔ Reached card dirty c :=
  Worklist.mem_walk_iff (visitDirty_appends beyond isStandby card) nodup

omit nodup in
theorem powerComponents_sameGraph :
    SameGraph card (audioSapmPowerComponents beyond isStandby card dirty).1 :=
  (powerSeqRun_sameGraph _ card).trans (powerSeqRun_sameGraph _ _)

omit nodup in
/-- The power that the two sequences leave to a component. -/
theorem power_powerComponents (c : α) :
    ((audioSapmPowerComponents beyond isStandby card dirty).1.component c).power =
      let sweep := sweepDirty beyond isStandby card dirty
      let lowered :=
        if c ∈ sweep.downList ∧ 0 ≤ (card.component c).reg ∧
          (card.component c).power = SAPM_POWER_UP then SAPM_POWER_DOWN
        else (card.component c).power
      if c ∈ sweep.upList ∧ 0 ≤ (card.component c).reg ∧ lowered = SAPM_POWER_DOWN then
        SAPM_POWER_UP
      else lowered := by
  rw [audioSapmPowerComponents, audioSapmPowerUpSeqRun, audioSapmPowerDownSeqRun,
    power_powerSeqRun _ _ (by decide), power_powerSeqRun _ _ (by decide),
    (powerSeqRun_sameGraph _ card).reg]

/-- A component with a register that the walk reaches gets its new power. -/
theorem power_of_reached {c : α} (register : 0 ≤ (card.component c).reg)
    (flag : (card.component c).power = SAPM_POWER_UP ∨
      (card.component c).power = SAPM_POWER_DOWN) (reached : Reached card dirty c) :
    ((audioSapmPowerComponents beyond isStandby card dirty).1.component c).power =
      if newPower card c = 0 then SAPM_POWER_DOWN else SAPM_POWER_UP := by
  have collected := sweepDirty_collected beyond isStandby card nodup
  have visited := (mem_sweepDirty_iff beyond isStandby card nodup (c := c)).mpr reached
  rw [power_powerComponents]
  by_cases down : newPower card c = 0
  · have stays : c ∉ (sweepDirty beyond isStandby card dirty).upList :=
      fun member => ((collected.mem_upList c).mp member).2.2 down
    rw [if_neg (fun h => stays h.1), if_pos down]
    rcases flag with up | alreadyDown
    · have lowers := (collected.mem_downList c).mpr ⟨visited, by rw [down, up]; decide, down⟩
      exact if_pos ⟨lowers, register, up⟩
    · rw [alreadyDown]
      exact ite_self _
  · have stays : c ∉ (sweepDirty beyond isStandby card dirty).downList :=
      fun member => down ((collected.mem_downList c).mp member).2.2
    simp only [if_neg (fun h => stays (And.left h)), if_neg down]
    rcases flag with alreadyUp | low
    · rw [alreadyUp]
      exact ite_self _
    · have raises := (collected.mem_upList c).mpr ⟨visited, by rw [low]; exact down, down⟩
      exact if_pos ⟨raises, register, low⟩

/-- A component that the walk does not reach keeps its power. -/
theorem power_of_not_reached {c : α} (unreached : ¬ Reached card dirty c) :
    ((audioSapmPowerComponents beyond isStandby card dirty).1.component c).power =
      (card.component c).power := by
  have collected := sweepDirty_collected beyond isStandby card nodup
  have unvisited := mt (mem_sweepDirty_iff beyond isStandby card nodup (c := c)).mp unreached
  rw [power_powerComponents, if_neg (fun h => unvisited ((collected.mem_upList c).mp h.1).1)]
  exact if_neg (fun h => unvisited ((collected.mem_downList c).mp h.1).1)

theorem powerComponents_inSequence :
    InSequence beyond card (audioSapmPowerComponents beyond isStandby card dirty).2 := by
  have collected := sweepDirty_collected beyond isStandby card nodup
  rw [audioSapmPowerComponents, audioSapmPowerUpSeqRun, audioSapmPowerDownSeqRun]
  refine ⟨List.pairwise_append.mpr ⟨?_, ?_, ?_⟩, ?_, ?_⟩
  · refine List.pairwise_of_forall_mem_list fun w first _ _ up => ?_
    exact absurd ((mem_powerSeqRun _ _ first).1.symm.trans up) (by decide)
  · exact List.pairwise_of_forall_mem_list fun _ _ w' later _ => (mem_powerSeqRun _ _ later).1
  · exact fun _ _ w' later _ => (mem_powerSeqRun _ _ later).1
  · rw [List.filter_append, List.filter_eq_self.mpr, List.filter_eq_nil_iff.mpr, List.append_nil]
    · exact powerSeqRun_sorted _ _ collected.downSorted
    · intro w later
      rw [(mem_powerSeqRun _ _ later).1]
      decide
    · intro w first
      exact decide_eq_true (mem_powerSeqRun _ _ first).1
  · rw [List.filter_append, List.filter_eq_nil_iff.mpr, List.filter_eq_self.mpr, List.nil_append]
    · exact powerSeqRun_sorted _ _ collected.upSorted
    · intro w later
      exact decide_eq_true (mem_powerSeqRun _ _ later).1
    · intro w first
      rw [(mem_powerSeqRun _ _ first).1]
      decide

end

omit [DecidableEq α] in
theorem switchPath_spec {card switched : AudioCard α} {kcontrol : ℕ} {pathStatus : BitVec 32}
    {dirty : List α} (switches : switchPath card kcontrol pathStatus = some (switched, dirty)) :
    switched.component = card.component ∧ dirty.Nodup := by
  rw [switchPath] at switches
  split at switches
  · cases switches
    exact ⟨rfl, List.nodup_nil⟩
  · rename_i path found
    split at switches
    · cases switches
      have rises := card.rises path (List.mem_of_find?_eq_some found)
      refine ⟨rfl, List.nodup_cons.mpr ⟨fun member => ?_, List.nodup_singleton _⟩⟩
      exact rises.ne (congrArg card.level (List.mem_singleton.mp member))
    · cases switches

/-- The condition on a card before its path is switched: a component with a register that a
chain of wakes leads to has a new power that tells its check from zero, and no other
component with a register has its check changed. -/
def ReachesChanges (card : AudioCard α) (kcontrol : ℕ) (pathStatus : BitVec 32) : Prop :=
  ∀ switched dirty, switchPath card kcontrol pathStatus = some (switched, dirty) →
    ∀ c, 0 ≤ (card.component c).reg →
      (Reached switched dirty c →
        (newPower switched c ≠ 0 ↔ 0 < (powerCheck switched c).toInt)) ∧
      (¬ Reached switched dirty c →
        (0 < (powerCheck switched c).toInt ↔ 0 < (powerCheck card c).toInt))

theorem PowerFollows.flag {card : AudioCard α} (follows : PowerFollows card) {c : α}
    (register : 0 ≤ (card.component c).reg) :
    (card.component c).power = SAPM_POWER_UP ∨ (card.component c).power = SAPM_POWER_DOWN := by
  rw [follows c register]
  split
  · exact .inl rfl
  · exact .inr rfl

theorem flag_eq_iff {P Q : Prop} [Decidable P] [Decidable Q] :
    (if P then SAPM_POWER_UP else SAPM_POWER_DOWN) =
      (if Q then SAPM_POWER_UP else SAPM_POWER_DOWN) ↔ (P ↔ Q) := by
  by_cases p : P <;> by_cases q : Q <;> simp [p, q, SAPM_POWER_UP, SAPM_POWER_DOWN]

/-- The power follows the paths after an update exactly when the walk reaches every component
with a register whose check changes, and counts the endpoints of those it reaches rightly. The
register writes come in sequence in any case. -/
theorem follows_iff [Fintype α] (beyond : Bool → AudioSapmType → ℤ) (isStandby : Bool)
    (card : AudioCard α) (kcontrol : ℕ) (pathStatus : BitVec 32) (follows : PowerFollows card) :
    PowerFollows (mixerUpdatePowerStatus beyond isStandby card kcontrol pathStatus).card ∧
        InSequence beyond card
          (mixerUpdatePowerStatus beyond isStandby card kcontrol pathStatus).writes ↔
      ReachesChanges card kcontrol pathStatus := by
  cases switches : switchPath card kcontrol pathStatus with
  | none =>
    rw [mixerUpdatePowerStatus, switches, ReachesChanges, switches]
    exact iff_of_true ⟨follows, ⟨.nil, .nil, .nil⟩⟩ nofun
  | some result =>
    obtain ⟨switched, dirty⟩ := result
    obtain ⟨components, nodup⟩ := switchPath_spec switches
    have same := @powerComponents_sameGraph _ _ _ beyond isStandby switched dirty
    have ordered : InSequence beyond card
        (audioSapmPowerComponents beyond isStandby switched dirty).2 := by
      have inSequence := powerComponents_inSequence beyond isStandby switched nodup
      have places : placeIn beyond switched = placeIn beyond card := by
        funext isPowerUp c
        rw [placeIn, placeIn, components]
      exact ⟨inSequence.downsFirst, places ▸ inSequence.downs, places ▸ inSequence.ups⟩
    rw [mixerUpdatePowerStatus, switches, and_iff_left ordered, ReachesChanges]
    -- each component with a register on its own: the stored power that the update leaves
    -- against the check of the switched card
    have pointwise : ∀ c, 0 ≤ (card.component c).reg →
        (((audioSapmPowerComponents beyond isStandby switched dirty).1.component c).power =
            (if 0 < (powerCheck switched c).toInt then SAPM_POWER_UP else SAPM_POWER_DOWN) ↔
          (Reached switched dirty c →
            (newPower switched c ≠ 0 ↔ 0 < (powerCheck switched c).toInt)) ∧
          (¬ Reached switched dirty c →
            (0 < (powerCheck switched c).toInt ↔ 0 < (powerCheck card c).toInt))) := by
      intro c register
      by_cases reached : Reached switched dirty c
      · rw [power_of_reached beyond isStandby switched nodup (components ▸ register)
          (components ▸ follows.flag register) reached, ← ite_not, flag_eq_iff]
        simp only [reached, forall_const, not_true_eq_false, false_imp_iff, and_true]
      · rw [power_of_not_reached beyond isStandby switched nodup reached, components,
          follows c register, flag_eq_iff]
        simp only [reached, false_imp_iff, not_false_eq_true, forall_const, true_and]
        exact iff_comm
    constructor
    · intro holds _ _ found c register
      cases switches.symm.trans found
      refine (pointwise c register).mp ?_
      rw [← same.powerCheck_eq c]
      exact holds c ((same.reg c).symm ▸ components ▸ register)
    · intro condition c register
      have original : 0 ≤ (card.component c).reg := components ▸ same.reg c ▸ register
      rw [same.powerCheck_eq c]
      exact (pointwise c original).mpr (condition _ _ switches c original)

/-- A microphone on a speaker, through a mixer and an amplifier. The mixer has the register
given, or none when it is negative, and the power given. All other components are up. -/
def chainCard (mixerReg : ℤ) (mixerPower : BitVec 8) : AudioCard (Fin 4) where
  component := ![⟨.mic, true, false, 1, 0, 0, 1, 0, 1⟩,
    ⟨.mixer, true, false, mixerReg, 0, 0, 1, 0, mixerPower⟩,
    ⟨.pga, true, false, 3, 0, 0, 1, 0, 1⟩, ⟨.spk, true, false, 4, 0, 0, 1, 0, 1⟩]
  paths := [⟨0, 1, some 7, 1⟩, ⟨1, 2, none, 1⟩, ⟨2, 3, none, 1⟩]
  level := Fin.val
  levels := 3
  rises := by decide
  below := by decide

/-- When the mixer has a register, disconnecting the microphone reaches every component. -/
theorem reachesChanges_chain : ReachesChanges (chainCard 2 1) 7 0 :=
  (follows_iff (fun _ _ => 0) false (chainCard 2 1) 7 0 (by unfold PowerFollows; decide +kernel)).mp
    ⟨by unfold PowerFollows; decide +kernel,
      by decide +kernel, by decide +kernel, by decide +kernel⟩

/-- When the mixer has no register and stores no power, the amplifier and the speaker stay up
after the microphone has been disconnected. -/
theorem staysUp_behind_mixer :
    PowerFollows (chainCard (-1) 0) ∧
      ¬ PowerFollows
        (mixerUpdatePowerStatus (fun _ _ => 0) false (chainCard (-1) 0) 7 0).card := by
  unfold PowerFollows
  decide +kernel

end Hdf.Audio.Sapm
