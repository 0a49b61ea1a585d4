import Hdf.Audio.SapmSweep
import Hdf.Lib.WalkCount

/-!
# When a power update reaches every change

A component is live when connected paths lead to it from an input endpoint and from
it to an output endpoint, and its check is positive exactly then, as long as the
counts of endpoints stay in range. Switching one path changes the liveness of
components in one direction only. Every component that changes is joined to an end
of the path by components that change as well, so the walk comes to it when each of
them still stores its old check. With a register they do; a component without one
may not, and this is where an update can stop short.

## Main results

* `powerCheck_pos_iff`: what a positive check means
* `OneMore.flips_along`: what joins a component that changes to the path
* `reachesChanges_of_steady`: then the update reaches every change
* `up_iff_live`: the power of components with registers after any updates
-/

namespace Hdf.Audio.Sapm

open Relation

variable {α : Type*} [DecidableEq α]

/-! ### What a positive check means -/

section

variable (card : AudioCard α)

/-- A connected path leads from `c` to `d`. -/
def Connected (c d : α) : Prop :=
  ∃ path ∈ card.paths, path.connect = 1 ∧ path.source = c ∧ path.sink = d

/-- Connected paths lead from an input endpoint to the component. -/
def Fed (c : α) : Prop :=
  ∃ e, isInputEndPoint (card.component e).sapmType ∧ ReflTransGen (Connected card) e c

/-- Connected paths lead from the component to an output endpoint. -/
def Heard (c : α) : Prop :=
  ∃ e, isOutputEndPoint (card.component e).sapmType ∧ ReflTransGen (Connected card) c e

/-- The sources that connected paths come from. -/
def connectedSources (c : α) : List α :=
  ((card.sources c).filter (·.connect = 1)).map (·.source)

/-- The sinks that connected paths lead to. -/
def connectedSinks (c : α) : List α :=
  ((card.sinks c).filter (·.connect = 1)).map (·.sink)

variable {card}

theorem mem_connectedSources {c d : α} : d ∈ connectedSources card c ↔ Connected card d c := by
  simp only [connectedSources, AudioCard.sources, List.mem_map, List.mem_filter,
    decide_eq_true_eq, Connected]
  grind

theorem mem_connectedSinks {c d : α} : d ∈ connectedSinks card c ↔ Connected card c d := by
  simp only [connectedSinks, AudioCard.sinks, List.mem_map, List.mem_filter,
    decide_eq_true_eq, Connected]
  grind

omit [DecidableEq α] in
theorem Connected.level_lt {c d : α} (connected : Connected card c d) :
    card.level c < card.level d := by
  obtain ⟨path, listed, -, rfl, rfl⟩ := connected
  exact card.rises path listed

variable (card)

/-- How many connected walks come from an input endpoint. -/
def inputCount : α → ℕ :=
  endCount (fun c => isInputEndPoint (card.component c).sapmType) (connectedSources card)
    card.level fun _ _ member => (mem_connectedSources.mp member).level_lt

/-- How many connected walks lead to an output endpoint. -/
def outputCount : α → ℕ :=
  endCount (fun c => isOutputEndPoint (card.component c).sapmType) (connectedSinks card)
    (fun c => card.levels - card.level c) fun c d member => by
      have higher := (mem_connectedSinks.mp member).level_lt
      have bounded := card.below d
      omega

end

theorem inputCount_pos_iff {card : AudioCard α} {c : α} : 0 < inputCount card c ↔ Fed card c := by
  rw [inputCount, endCount_pos_iff]
  refine exists_congr fun e => and_congr Iff.rfl ?_
  simp only [mem_connectedSources]
  exact reflTransGen_swap

theorem outputCount_pos_iff {card : AudioCard α} {c : α} :
    0 < outputCount card c ↔ Heard card c := by
  rw [outputCount, endCount_pos_iff]
  simp only [mem_connectedSinks]
  rfl

omit [DecidableEq α] in
theorem sum_connected (paths : List (AudioSapmpath α)) (neighbour : AudioSapmpath α → α)
    (count : α → BitVec 32) :
    (paths.map fun path => if path.connect = 1 then count (neighbour path) else 0).sum =
      (((paths.filter (·.connect = 1)).map neighbour).map count).sum := by
  induction paths with
  | nil => rfl
  | cons path paths ih =>
    rw [List.map_cons, List.sum_cons, ih, List.filter_cons]
    split <;> simp_all

theorem connectedInputEndPoint_eq_count (card : AudioCard α) (c : α) :
    connectedInputEndPoint card c = BitVec.ofNat 32 (inputCount card c) := by
  refine eq_ofNat_endCount _ _ _ _ (fun d => ?_) c
  rw [connectedInputEndPoint_eq, sum_connected, connectedSources]

theorem connectedOutputEndPoint_eq_count (card : AudioCard α) (c : α) :
    connectedOutputEndPoint card c = BitVec.ofNat 32 (outputCount card c) := by
  refine eq_ofNat_endCount _ _ _ _ (fun d => ?_) c
  rw [connectedOutputEndPoint_eq, sum_connected, connectedSinks]

/-- The counts of endpoints stay in the range of an `int32_t`, and the eight bits of new power
tell a positive count of an active converter from zero. -/
structure CountsFit (card : AudioCard α) : Prop where
  inputs : ∀ c, inputCount card c < 2 ^ 31
  outputs : ∀ c, outputCount card c < 2 ^ 31
  bytes : ∀ c, newPower card c = 0 → powerCheck card c = 0

theorem ofNat_eq_zero_iff {n : ℕ} (small : n < 2 ^ 31) : BitVec.ofNat 32 n = 0 ↔ n = 0 := by
  rw [← BitVec.toNat_inj, BitVec.toNat_ofNat]
  simp
  omega

theorem ofNat_ne_failure {n : ℕ} (small : n < 2 ^ 31) : BitVec.ofNat 32 n ≠ HDF_FAILURE := by
  intro same
  have values := congrArg BitVec.toNat same
  rw [BitVec.toNat_ofNat, Nat.mod_eq_of_lt (by omega)] at values
  simp [HDF_FAILURE] at values
  omega

theorem toInt_ofNat_pos_iff {n : ℕ} (small : n < 2 ^ 31) :
    0 < (BitVec.ofNat 32 n).toInt ↔ 0 < n := by
  have value : (BitVec.ofNat 32 n).toNat = n := by
    rw [BitVec.toNat_ofNat, Nat.mod_eq_of_lt (by omega)]
  rw [BitVec.toInt_eq_toNat_of_lt (by omega), value]
  omega

/-- Handing a failure on changes nothing. -/
theorem failure_handed_on (check : BitVec 32) :
    (if check = HDF_FAILURE then HDF_FAILURE else check) = check := by
  split
  · exact Eq.symm (by assumption)
  · rfl

theorem inputCount_endPoint {card : AudioCard α} {c : α}
    (ends : isInputEndPoint (card.component c).sapmType) : inputCount card c = 1 := by
  rw [inputCount, endCount_eq, if_pos ends]

theorem outputCount_endPoint {card : AudioCard α} {c : α}
    (ends : isOutputEndPoint (card.component c).sapmType) : outputCount card c = 1 := by
  rw [outputCount, endCount_eq, if_pos ends]

section

variable {card : AudioCard α} (fit : CountsFit card) (c : α)

include fit

/-- The check gives a number in range that is positive when walks lead here from both sides. -/
theorem genericCheckPower_eq_ofNat :
    ∃ n < 2 ^ 31, audioSapmGenericCheckPower card c = BitVec.ofNat 32 n ∧
      (0 < n ↔ 0 < inputCount card c ∧ 0 < outputCount card c) := by
  refine ⟨if 0 < inputCount card c ∧ 0 < outputCount card c then 1 else 0, ?_, ?_, ?_⟩
  · split <;> decide
  · rw [audioSapmGenericCheckPower, connectedInputEndPoint_eq_count,
      if_neg (ofNat_ne_failure (fit.inputs c)), connectedOutputEndPoint_eq_count,
      if_neg (ofNat_ne_failure (fit.outputs c))]
    simp only [ofNat_eq_zero_iff (fit.inputs c), ofNat_eq_zero_iff (fit.outputs c)]
    by_cases complete : 0 < inputCount card c ∧ 0 < outputCount card c
    · rw [if_pos complete, if_neg (by omega)]
      rfl
    · rw [if_neg complete, if_pos (by omega)]
      rfl
  · split <;> simp_all

/-- A converter stands at one end itself, so the walks on the other side decide. -/
theorem powerCheck_eq_ofNat :
    ∃ n < 2 ^ 31, powerCheck card c = BitVec.ofNat 32 n ∧
      (0 < n ↔ 0 < inputCount card c ∧ 0 < outputCount card c) := by
  have generic := genericCheckPower_eq_ofNat fit c
  have atOutput (ends : isOutputEndPoint (card.component c).sapmType) :
      ∃ n < 2 ^ 31, audioSapmAdcCheckPower card c = BitVec.ofNat 32 n ∧
        (0 < n ↔ 0 < inputCount card c ∧ 0 < outputCount card c) := by
    rw [audioSapmAdcCheckPower, failure_handed_on]
    split
    · exact generic
    · rw [outputCount_endPoint ends]
      exact ⟨_, fit.inputs c, connectedInputEndPoint_eq_count card c, by simp⟩
  have atInput (ends : isInputEndPoint (card.component c).sapmType) :
      ∃ n < 2 ^ 31, audioSapmDacCheckPower card c = BitVec.ofNat 32 n ∧
        (0 < n ↔ 0 < inputCount card c ∧ 0 < outputCount card c) := by
    rw [audioSapmDacCheckPower, failure_handed_on]
    split
    · exact generic
    · rw [inputCount_endPoint ends]
      exact ⟨_, fit.outputs c, connectedOutputEndPoint_eq_count card c, by simp⟩
  rw [powerCheck]
  cases type : (card.component c).sapmType
  case adc | aifOut => exact atOutput (type ▸ rfl)
  case dac | aifIn => exact atInput (type ▸ rfl)
  all_goals exact generic

theorem powerCheck_pos_iff :
    0 < (powerCheck card c).toInt ↔ Fed card c ∧ Heard card c := by
  obtain ⟨n, small, check, positive⟩ := powerCheck_eq_ofNat fit c
  rw [check, toInt_ofNat_pos_iff small, positive, inputCount_pos_iff, outputCount_pos_iff]

theorem newPower_ne_zero_iff : newPower card c ≠ 0 ↔ Fed card c ∧ Heard card c := by
  obtain ⟨n, small, check, positive⟩ := powerCheck_eq_ofNat fit c
  rw [← inputCount_pos_iff, ← outputCount_pos_iff, ← positive, Nat.pos_iff_ne_zero, ne_eq, ne_eq,
    not_iff_not, ← ofNat_eq_zero_iff small, ← check]
  refine ⟨fit.bytes c, fun none => ?_⟩
  rw [newPower, none]
  rfl

end

/-! ### The changes that one path makes -/

/-- The component is live on the card with the path connected and not on the card without. -/
def Flips (small big : AudioCard α) (c : α) : Prop :=
  (Fed big c ∧ Heard big c) ∧ ¬ (Fed small c ∧ Heard small c)

section

variable {small big : AudioCard α} {s t : α}

/-- The cards differ by a path from `s` to `t`. -/
structure OneMore (small big : AudioCard α) (s t : α) : Prop where
  components : big.component = small.component
  keeps : ∀ a b, Connected small a b → Connected big a b
  adds : ∀ a b, Connected big a b → Connected small a b ∨ a = s ∧ b = t

variable (oneMore : OneMore small big s t)

include oneMore

omit [DecidableEq α] in
theorem OneMore.reach {a b : α} (walk : ReflTransGen (Connected small) a b) :
    ReflTransGen (Connected big) a b :=
  ReflTransGen.mono oneMore.keeps _ _ walk

omit [DecidableEq α] in
/-- A component that flips is joined to an end of the path by a walk along which everything
flips. -/
theorem OneMore.flips_along {d : α} (flips : Flips small big d) :
    (ReflTransGen (Connected small) t d ∧ ∀ v, ReflTransGen (Connected small) t v →
      ReflTransGen (Connected small) v d → Flips small big v) ∨
    (ReflTransGen (Connected small) d s ∧ ∀ v, ReflTransGen (Connected small) d v →
      ReflTransGen (Connected small) v s → Flips small big v) := by
  obtain ⟨⟨⟨e, isInput, fed⟩, ⟨f, isOutput, heard⟩⟩, dead⟩ := flips
  have sameInput := isInput
  have sameOutput := isOutput
  rw [oneMore.components] at sameInput sameOutput
  by_cases fedBefore : Fed small d
  · have unheard : ¬ Heard small d := fun heard => dead ⟨fedBefore, heard⟩
    obtain ⟨e', isInput', fed'⟩ := fedBefore
    rcases reach_or_to_edge oneMore.adds heard with inSmall | ⟨toEdge, beyond⟩
    · exact absurd ⟨f, sameOutput, inSmall⟩ unheard
    · refine .inr ⟨toEdge, fun v above below => ⟨⟨?_, ?_⟩, fun live => ?_⟩⟩
      · exact ⟨e, isInput, fed.trans (oneMore.reach above)⟩
      · exact ⟨f, isOutput, (oneMore.reach below).trans beyond⟩
      · obtain ⟨f', isOutput', heard'⟩ := live.2
        exact unheard ⟨f', isOutput', above.trans heard'⟩
  · rcases reach_or_from_edge oneMore.adds fed with inSmall | ⟨before, fromEdge⟩
    · exact absurd ⟨e, sameInput, inSmall⟩ fedBefore
    · refine .inl ⟨fromEdge, fun v above below => ⟨⟨?_, ?_⟩, fun live => ?_⟩⟩
      · exact ⟨e, isInput, before.trans (oneMore.reach above)⟩
      · exact ⟨f, isOutput, (oneMore.reach below).trans heard⟩
      · obtain ⟨e', isInput', fed'⟩ := live.1
        exact fedBefore ⟨e', isInput', fed'.trans below⟩

omit [DecidableEq α] in
theorem OneMore.live {c : α} (live : Fed small c ∧ Heard small c) : Fed big c ∧ Heard big c := by
  obtain ⟨⟨e, isInput, fed⟩, ⟨f, isOutput, heard⟩⟩ := live
  rw [← oneMore.components] at isInput isOutput
  exact ⟨⟨e, isInput, oneMore.reach fed⟩, ⟨f, isOutput, oneMore.reach heard⟩⟩

/-- The walk of an update comes to everything that flips, when the new power of what flips
differs from the power stored there. -/
theorem OneMore.reached {switched : AudioCard α}
    (within : ∀ a b, Connected small a b → Connected switched a b)
    (differs : ∀ v w, Flips small big v → Flips small big w →
      (switched.component w).power ≠ newPower switched v)
    {d : α} (flips : Flips small big d) : Reached switched [s, t] d := by
  have wakes : ∀ v w, Connected small v w ∨ Connected small w v → Flips small big v →
      Flips small big w → Wakes switched v w := by
    intro v w joined flipsV flipsW
    refine ⟨(differs v v flipsV flipsV).symm, ?_, differs v w flipsV flipsW⟩
    rcases joined with down | up
    · obtain ⟨path, listed, connected, source, sink⟩ := within v w down
      exact ⟨path, listed, by rw [connected]; decide, .inr ⟨source, sink⟩⟩
    · obtain ⟨path, listed, connected, source, sink⟩ := within w v up
      exact ⟨path, listed, by rw [connected]; decide, .inl ⟨sink, source⟩⟩
  rcases oneMore.flips_along flips with ⟨walk, along⟩ | ⟨walk, along⟩
  · have downwards : ∀ v, ReflTransGen (Connected small) t v →
        ReflTransGen (Connected small) v d → ReflTransGen (Wakes switched) t v := by
      intro v above
      induction above with
      | refl => exact fun _ => .refl
      | @tail v w above last ih =>
        intro below
        have flipsV := along v above (.head last below)
        exact (ih (.head last below)).tail
          (wakes v w (.inl last) flipsV (along w (above.tail last) below))
    exact ⟨t, by simp, downwards d walk .refl⟩
  · have upwards : ∀ v, ReflTransGen (Connected small) v s →
        ReflTransGen (Connected small) d v → ReflTransGen (Wakes switched) s v := by
      intro v below
      induction below using ReflTransGen.head_induction_on with
      | refl => exact fun _ => .refl
      | @head v w first below ih =>
        intro above
        have flipsW := along w (above.tail first) below
        exact (ih (above.tail first)).tail
          (wakes w v (.inr first) flipsW (along v above (.head first below)))
    exact ⟨s, by simp, upwards d walk .refl⟩

end

/-! ### When the update reaches every change -/

/-- The counts of endpoints fit before and after, and a component without a register whose
check changes stores its old check. -/
structure Steady (card switched : AudioCard α) : Prop where
  before : CountsFit card
  after : CountsFit switched
  stored : ∀ c, (card.component c).reg < 0 →
    ¬ (0 < (powerCheck card c).toInt ↔ 0 < (powerCheck switched c).toInt) →
      (card.component c).power =
        if 0 < (powerCheck card c).toInt then SAPM_POWER_UP else SAPM_POWER_DOWN

omit [DecidableEq α] in
theorem setConnect_of_find {kcontrol : ℕ} (pathStatus : BitVec 32)
    {paths : List (AudioSapmpath α)} {path : AudioSapmpath α}
    (found : paths.find? (·.kcontrol = some kcontrol) = some path) :
    ∃ pre post, paths = pre ++ path :: post ∧ setConnect kcontrol pathStatus paths =
      pre ++ { path with connect := pathStatus.setWidth 8 } :: post := by
  induction paths with
  | nil => cases found
  | cons first paths ih =>
    rw [List.find?_cons] at found
    rw [setConnect]
    split at found
    · cases found
      exact ⟨[], paths, rfl, if_pos (of_decide_eq_true (by assumption))⟩
    · rename_i other
      obtain ⟨pre, post, split, set⟩ := ih found
      rw [if_neg (of_decide_eq_false other)]
      exact ⟨first :: pre, post, congrArg _ split, congrArg _ set⟩

omit [DecidableEq α] in
theorem connected_split {card : AudioCard α} {pre post : List (AudioSapmpath α)}
    {path : AudioSapmpath α} (parts : card.paths = pre ++ path :: post) {a b : α} :
    Connected card a b ↔
      (∃ other ∈ pre ++ post, other.connect = 1 ∧ other.source = a ∧ other.sink = b) ∨
        path.connect = 1 ∧ path.source = a ∧ path.sink = b := by
  simp only [Connected, parts, List.mem_append, List.mem_cons, or_and_right, exists_or,
    exists_eq_left]
  exact (or_congr_right or_comm).trans or_assoc.symm

omit [DecidableEq α] in
/-- Before and after a switch, the card with the path connected has one path more. -/
theorem oneMore_of_switch {card : AudioCard α} {kcontrol : ℕ} (pathStatus : BitVec 32)
    {path : AudioSapmpath α} (found : card.paths.find? (·.kcontrol = some kcontrol) = some path) :
    if pathStatus.setWidth 8 = 1 then
      OneMore card (card.connectPath kcontrol pathStatus) path.source path.sink
    else OneMore (card.connectPath kcontrol pathStatus) card path.source path.sink := by
  obtain ⟨pre, post, parts, set⟩ := setConnect_of_find pathStatus found
  have after : (card.connectPath kcontrol pathStatus).paths =
    pre ++ { path with connect := pathStatus.setWidth 8 } :: post := set
  split
  · rename_i connects
    refine ⟨rfl, fun a b => ?_, fun a b => ?_⟩ <;>
      rw [connected_split parts, connected_split after]
    · exact Or.imp_right fun old => ⟨connects, old.2⟩
    · exact Or.imp .inl fun new => ⟨new.2.1.symm, new.2.2.symm⟩
  · rename_i disconnects
    refine ⟨rfl, fun a b => ?_, fun a b => ?_⟩ <;>
      rw [connected_split parts, connected_split after]
    · exact Or.imp_right fun new => absurd new.1 disconnects
    · exact Or.imp .inl fun old => ⟨old.2.1.symm, old.2.2.symm⟩

/-- The update reaches every change when the counts fit and the components without a register
store their old check, as far as it changes. -/
theorem reachesChanges_of_steady {card : AudioCard α} {kcontrol : ℕ} {pathStatus : BitVec 32}
    (follows : PowerFollows card)
    (steady : ∀ switched dirty, switchPath card kcontrol pathStatus = some (switched, dirty) →
      Steady card switched) :
    ReachesChanges card kcontrol pathStatus := by
  intro switched dirty switches c register
  obtain ⟨before, after, stored⟩ := steady switched dirty switches
  refine ⟨fun _ => ?_, fun unreached => ?_⟩
  · rw [newPower_ne_zero_iff after, powerCheck_pos_iff after]
  by_contra changes
  refine unreached ?_
  have components := (switchPath_spec switches).1
  -- what changes stores its old check, with a register or without
  have power_of_changed : ∀ w,
      ¬ (0 < (powerCheck card w).toInt ↔ 0 < (powerCheck switched w).toInt) →
        (switched.component w).power =
          if 0 < (powerCheck card w).toInt then SAPM_POWER_UP else SAPM_POWER_DOWN := by
    intro w changed
    rw [components]
    rcases lt_or_ge (card.component w).reg 0 with bare | hasRegister
    · exact stored w bare changed
    · exact follows w hasRegister
  simp only [powerCheck_pos_iff before, powerCheck_pos_iff after] at changes power_of_changed
  rw [switchPath] at switches
  split at switches
  · cases switches
    exact absurd Iff.rfl changes
  · rename_i path found
    split at switches
    · cases switches
      have oneMore := oneMore_of_switch pathStatus found
      split at oneMore
      · -- connected: what flips comes to be live
        refine oneMore.reached oneMore.keeps (fun v w flipsV flipsW => ?_) ?_
        · rw [power_of_changed w (fun same => flipsW.2 (same.mpr flipsW.1)),
            if_neg ((powerCheck_pos_iff before w).not.mpr flipsW.2)]
          exact ((newPower_ne_zero_iff after v).mpr flipsV.1).symm
        · by_contra quiet
          refine changes ⟨fun live => ?_, oneMore.live⟩
          by_contra dead
          exact quiet ⟨live, dead⟩
      · -- disconnected: what flips was live
        refine oneMore.reached (fun _ _ => id) (fun v w flipsV flipsW => ?_) ?_
        · have lowered := not_not.mp (mt (newPower_ne_zero_iff after v).mp flipsV.2)
          rw [power_of_changed w (fun same => flipsW.2 (same.mp flipsW.1)),
            if_pos ((powerCheck_pos_iff before w).mpr flipsW.1), lowered]
          decide
        · by_contra quiet
          refine changes ⟨oneMore.live, fun live => ?_⟩
          by_contra dead
          exact quiet ⟨live, dead⟩
    · cases switches

/-! ### Updates one after the other -/

theorem SameGraph.counts_eq {card card' : AudioCard α} (same : SameGraph card card') (c : α) :
    inputCount card' c = inputCount card c ∧ outputCount card' c = outputCount card c := by
  obtain ⟨paths, level, levels, types, -, -⟩ := same
  cases card
  cases card'
  cases paths
  cases level
  cases levels
  have inputs := funext fun d => congrArg isInputEndPoint (types d)
  have outputs := funext fun d => congrArg isOutputEndPoint (types d)
  exact ⟨congrArg (fun ends => endCount ends _ _ _ c) inputs,
    congrArg (fun ends => endCount ends _ _ _ c) outputs⟩

theorem SameGraph.countsFit {card card' : AudioCard α} (same : SameGraph card card')
    (fit : CountsFit card') : CountsFit card where
  inputs c := (same.counts_eq c).1 ▸ fit.inputs c
  outputs c := (same.counts_eq c).2 ▸ fit.outputs c
  bytes c := by
    have bytes := fit.bytes c
    rwa [newPower, same.powerCheck_eq] at bytes

section

variable [Fintype α] {beyond : Bool → AudioSapmType → ℤ} {card final : AudioCard α}

theorem PowerFollows.update (follows : PowerFollows card) {isStandby : Bool} {kcontrol : ℕ}
    {pathStatus : BitVec 32} (reaches : ReachesChanges card kcontrol pathStatus) :
    PowerFollows (mixerUpdatePowerStatus beyond isStandby card kcontrol pathStatus).card := by
  rw [mixerUpdatePowerStatus]
  cases switches : switchPath card kcontrol pathStatus with
  | none => exact follows
  | some result =>
    obtain ⟨switched, dirty⟩ := result
    obtain ⟨components, nodup⟩ := switchPath_spec switches
    have same := @powerComponents_sameGraph _ _ _ beyond isStandby switched dirty
    intro c register
    have original : 0 ≤ (card.component c).reg := components ▸ same.reg c ▸ register
    obtain ⟨counted, kept⟩ := reaches switched dirty switches c original
    rw [same.powerCheck_eq c]
    by_cases reached : Reached switched dirty c
    · rw [power_of_reached beyond isStandby switched nodup (components ▸ original)
        (components ▸ follows.flag original) reached, ← ite_not, flag_eq_iff]
      exact counted reached
    · rw [power_of_not_reached beyond isStandby switched nodup reached, components,
        follows c original, flag_eq_iff]
      exact (kept reached).symm

/-- Updates of mixer controls one after the other, with counts of endpoints that fit. -/
inductive MixerUpdates (beyond : Bool → AudioSapmType → ℤ) (card : AudioCard α) :
    AudioCard α → Prop
  | start (fit : CountsFit card) : MixerUpdates beyond card card
  | update {card' : AudioCard α} (before : MixerUpdates beyond card card') (isStandby : Bool)
    (kcontrol : ℕ) (pathStatus : BitVec 32)
    (fit : CountsFit (mixerUpdatePowerStatus beyond isStandby card' kcontrol pathStatus).card) :
    MixerUpdates beyond card
      (mixerUpdatePowerStatus beyond isStandby card' kcontrol pathStatus).card

theorem update_reg (isStandby : Bool) (kcontrol : ℕ) (pathStatus : BitVec 32) (c : α) :
    ((mixerUpdatePowerStatus beyond isStandby card kcontrol pathStatus).card.component c).reg =
      (card.component c).reg := by
  rw [mixerUpdatePowerStatus]
  cases switches : switchPath card kcontrol pathStatus with
  | none => rfl
  | some result =>
    exact ((powerComponents_sameGraph _ _ _).reg c).trans
      (congrArg (fun component => (component c).reg) (switchPath_spec switches).1)

theorem MixerUpdates.countsFit (updates : MixerUpdates beyond card final) : CountsFit final := by
  cases updates with
  | start fit | update _ _ _ _ fit => exact fit

/-- When every component has a register, it is up after any updates exactly when it is on a way
over connected paths from an input endpoint to an output endpoint. -/
theorem up_iff_live (registers : ∀ c, 0 ≤ (card.component c).reg) (follows : PowerFollows card)
    (updates : MixerUpdates beyond card final) (c : α) :
    ((final.component c).power = SAPM_POWER_UP ↔ Fed final c ∧ Heard final c) ∧
      ((final.component c).power = SAPM_POWER_UP ∨
        (final.component c).power = SAPM_POWER_DOWN) := by
  have kept : PowerFollows final ∧ ∀ c, 0 ≤ (final.component c).reg := by
    induction updates with
    | start => exact ⟨follows, registers⟩
    | @update card' before isStandby kcontrol pathStatus fit ih =>
      obtain ⟨follows, registers⟩ := ih
      refine ⟨follows.update (reachesChanges_of_steady follows fun switched dirty switches => ?_),
        fun c => by rw [update_reg]; exact registers c⟩
      rw [mixerUpdatePowerStatus, switches] at fit
      exact ⟨before.countsFit, (powerComponents_sameGraph _ _ _).countsFit fit,
        fun c bare => absurd bare (Int.not_lt.mpr (registers c))⟩
  refine ⟨?_, kept.1.flag (kept.2 c)⟩
  rw [kept.1 c (kept.2 c), ← powerCheck_pos_iff updates.countsFit]
  split <;> simp_all [SAPM_POWER_UP, SAPM_POWER_DOWN]

end

/-- A microphone is disconnected from a speaker. -/
theorem up_iff_live_chain :
    let final := (mixerUpdatePowerStatus (fun _ _ => 0) false (chainCard 2 1) 7 0).card
    ∀ c, ((final.component c).power = SAPM_POWER_UP ↔ Fed final c ∧ Heard final c) ∧
      ((final.component c).power = SAPM_POWER_UP ∨ (final.component c).power = SAPM_POWER_DOWN) :=
  up_iff_live (by decide) (by unfold PowerFollows; decide +kernel)
    (.update (.start ⟨by decide +kernel, by decide +kernel, by decide +kernel⟩) false 7 0
      ⟨by decide +kernel, by decide +kernel, by decide +kernel⟩)

end Hdf.Audio.Sapm
