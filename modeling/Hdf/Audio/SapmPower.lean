import Hdf.Lib.Acyclic
import Hdf.Lib.Worklist
import Mathlib.Algebra.BigOperators.Group.List.Basic
import Mathlib.Data.BitVec
import Mathlib.Data.Fintype.Basic

/-!
# The power of the components on an audio card

The components of a card are joined by paths from a source to a sink. A component
is to be powered while connected paths lead to it from an input endpoint and from
it to an output endpoint. When a mixer control connects or disconnects a path, its
two ends go to a list of dirty components. The list is walked once: a component
whose new power differs from its stored power appends its connected neighbours,
as far as their stored power differs from the new one, and is kept for the power
sequences, which then switch off the components to go down and switch on the
components to go up.

The stored power of a component without a register is never updated, so it may stop
the walk.

## Main results

* `exists_card`: every set of routes without a cycle makes a card
* `SameGraph.powerCheck_eq`: the check does not depend on the stored power
-/

namespace Hdf.Audio.Sapm

open Relation

/-- `enum AudioSapmType`. -/
inductive AudioSapmType
  | input | output | mux | demux | virtMux | valueMux | mixer | mixerNamedCtrl | pga | outDrv
  | adc | dac | micbias | mic | hp | spk | line | analogSwitch | vmid | pre | post | supply
  | regulatorSupply | clockSupply | aifIn | aifOut | siggen | sink
  deriving DecidableEq

/-- The fields of a component that the power depends on. The flags say whether it belongs to a
codec and to an accessory. -/
structure AudioSapmComponent where
  sapmType : AudioSapmType
  codec : Bool
  accessory : Bool
  reg : ℤ
  shift : ℕ
  invert : ℕ
  mask : ℕ
  active : ℕ
  power : BitVec 8

/-- A path between two components. -/
structure AudioSapmpath (α : Type*) where
  source : α
  sink : α
  kcontrol : Option ℕ
  connect : BitVec 8

/-- A card with its components and its paths. The routes have no cycle: each component stands
on a level, and a path leads to a higher one. -/
structure AudioCard (α : Type*) where
  component : α → AudioSapmComponent
  paths : List (AudioSapmpath α)
  level : α → ℕ
  levels : ℕ
  rises : ∀ path ∈ paths, level path.source < level path.sink
  below : ∀ c, level c ≤ levels

def HDF_FAILURE : BitVec 32 := -1

def SAPM_POWER_DOWN : BitVec 8 := 0

def SAPM_POWER_UP : BitVec 8 := 1

variable {α : Type*} [DecidableEq α]

namespace AudioCard

/-- The list `sources` of a component. -/
def sources (card : AudioCard α) (c : α) : List (AudioSapmpath α) :=
  card.paths.filter (·.sink = c)

/-- The list `sinks` of a component. -/
def sinks (card : AudioCard α) (c : α) : List (AudioSapmpath α) :=
  card.paths.filter (·.source = c)

theorem level_source {card : AudioCard α} {c : α} {path : AudioSapmpath α}
    (member : path ∈ card.sources c) : card.level path.source < card.level c := by
  obtain ⟨listed, ends⟩ := List.mem_filter.mp member
  exact of_decide_eq_true ends ▸ card.rises path listed

theorem level_sink {card : AudioCard α} {c : α} {path : AudioSapmpath α}
    (member : path ∈ card.sinks c) : card.level c < card.level path.sink := by
  obtain ⟨listed, starts⟩ := List.mem_filter.mp member
  exact of_decide_eq_true starts ▸ card.rises path listed

end AudioCard

omit [DecidableEq α] in
/-- Routes without a cycle have levels, so each of them makes a card. -/
theorem exists_card [Fintype α] (component : α → AudioSapmComponent)
    (paths : List (AudioSapmpath α))
    (acyclic : ∀ c, ¬ TransGen (fun d c => ∃ path ∈ paths, path.source = c ∧ path.sink = d) c c) :
    ∃ card : AudioCard α, card.component = component ∧ card.paths = paths := by
  obtain ⟨level, falls, below⟩ := @exists_rank_of_acyclic _ _ Finset.univ.toList
    (fun _ _ _ => Finset.mem_toList.mpr (Finset.mem_univ _)) acyclic
  refine ⟨⟨component, paths, level, _, fun path listed => falls _ _ ⟨path, listed, rfl, rfl⟩,
    fun c => (below c (Finset.mem_toList.mpr (Finset.mem_univ c))).le⟩, rfl, rfl⟩

/-! ### What power a component is to have -/

/-- The types at which the search for inputs ends. -/
def isInputEndPoint : AudioSapmType → Bool
  | .dac | .aifIn | .input | .mic | .line => true
  | _ => false

/-- The types at which the search for outputs ends. -/
def isOutputEndPoint : AudioSapmType → Bool
  | .adc | .aifOut | .output | .hp | .spk | .line => true
  | _ => false

def connectedInputEndPoint (card : AudioCard α) (c : α) : BitVec 32 :=
  if isInputEndPoint (card.component c).sapmType then 1
  else ((card.sources c).attach.map fun path =>
    if path.1.connect = 1 then connectedInputEndPoint card path.1.source else 0).sum
termination_by card.level c
decreasing_by exact AudioCard.level_source path.2

def connectedOutputEndPoint (card : AudioCard α) (c : α) : BitVec 32 :=
  if isOutputEndPoint (card.component c).sapmType then 1
  else ((card.sinks c).attach.map fun path =>
    if path.1.connect = 1 then connectedOutputEndPoint card path.1.sink else 0).sum
termination_by card.levels - card.level c
decreasing_by
  have higher := AudioCard.level_sink path.2
  have bounded := card.below path.1.sink
  omega

def audioSapmGenericCheckPower (card : AudioCard α) (c : α) : BitVec 32 :=
  let input := connectedInputEndPoint card c
  if input = HDF_FAILURE then HDF_FAILURE
  else
    let output := connectedOutputEndPoint card c
    if output = HDF_FAILURE then HDF_FAILURE
    else if input = 0 ∨ output = 0 then SAPM_POWER_DOWN.setWidth 32
    else SAPM_POWER_UP.setWidth 32

def audioSapmAdcCheckPower (card : AudioCard α) (c : α) : BitVec 32 :=
  let input :=
    if (card.component c).active = 0 then audioSapmGenericCheckPower card c
    else connectedInputEndPoint card c
  if input = HDF_FAILURE then HDF_FAILURE else input

def audioSapmDacCheckPower (card : AudioCard α) (c : α) : BitVec 32 :=
  let output :=
    if (card.component c).active = 0 then audioSapmGenericCheckPower card c
    else connectedOutputEndPoint card c
  if output = HDF_FAILURE then HDF_FAILURE else output

/-- The callback `PowerCheck` that the type of the component selects. -/
def powerCheck (card : AudioCard α) (c : α) : BitVec 32 :=
  match (card.component c).sapmType with
  | .adc | .aifOut => audioSapmAdcCheckPower card c
  | .dac | .aifIn => audioSapmDacCheckPower card c
  | _ => audioSapmGenericCheckPower card c

/-- The field `newPower`, of eight bits. -/
def newPower (card : AudioCard α) (c : α) : BitVec 8 := (powerCheck card c).setWidth 8

/-! ### The walk over the dirty components -/

/-- `g_audioSapmPowerUpSeq` and `g_audioSapmPowerDownSeq`. The tables end with the entry of
`AUDIO_SAPM_AIF_OUT`; `beyond` is what stands behind them. -/
def powerSeq (beyond : Bool → AudioSapmType → ℤ) : Bool → AudioSapmType → ℤ
  | true, .pre => 0
  | true, .supply => 1
  | true, .micbias => 2
  | true, .aifIn | true, .aifOut => 3
  | true, .mic => 4
  | true, .mux | true, .virtMux | true, .valueMux => 5
  | true, .dac => 6
  | true, .mixer | true, .mixerNamedCtrl => 7
  | true, .pga => 8
  | true, .adc => 9
  | true, .outDrv | true, .hp | true, .spk => 10
  | true, .post => 11
  | false, .pre => 0
  | false, .adc => 1
  | false, .hp | false, .spk | false, .outDrv => 2
  | false, .pga => 4
  | false, .mixerNamedCtrl | false, .mixer => 5
  | false, .dac => 6
  | false, .mic => 7
  | false, .micbias => 8
  | false, .mux | false, .virtMux | false, .valueMux => 9
  | false, .aifIn | false, .aifOut => 10
  | false, .supply => 11
  | false, .post => 12
  | isPowerUp, .siggen => beyond isPowerUp .siggen
  | isPowerUp, .sink => beyond isPowerUp .sink
  | _, _ => 0

/-- `AudioSapmPowerSeqInsert`: before the first component that comes later in the sequence. -/
def audioSapmPowerSeqInsert (seq : α → ℤ) (new : α) : List α → List α
  | [] => [new]
  | c :: list =>
    if seq new - seq c < 0 then new :: c :: list else c :: audioSapmPowerSeqInsert seq new list

/-- What `AudioSapmPowerComponents` collects: the list of dirty components and the components of
the two power sequences. -/
structure Sweep (α : Type*) where
  sapmDirty : List α
  upList : List α
  downList : List α

section

variable (beyond : Bool → AudioSapmType → ℤ) (isStandby : Bool) (card : AudioCard α)

/-- The place of a component in one of the sequences. -/
def placeIn (isPowerUp : Bool) (c : α) : ℤ := powerSeq beyond isPowerUp (card.component c).sapmType

/-- A neighbour becomes dirty when its power differs and the path is connected. -/
def markDirty (power : BitVec 8) (neighbour : AudioSapmpath α → α) (dirty : List α)
    (path : AudioSapmpath α) : List α :=
  if (card.component (neighbour path)).power ≠ power ∧ path.connect ≠ 0 then
    if neighbour path ∈ dirty then dirty else dirty ++ [neighbour path]
  else dirty

def audioSapmSetPower (c : α) (power : BitVec 8) (sweep : Sweep α) : Sweep α :=
  let dirty := (card.sources c).foldl (markDirty card power (·.source)) sweep.sapmDirty
  let dirty := (card.sinks c).foldl (markDirty card power (·.sink)) dirty
  if power ≠ 0 then
    { sweep with
      sapmDirty := dirty
      upList := audioSapmPowerSeqInsert (placeIn beyond card true) c sweep.upList }
  else
    { sweep with
      sapmDirty := dirty
      downList := audioSapmPowerSeqInsert (placeIn beyond card false) c sweep.downList }

/-- The callback `PowerClockOp` that the type selects, with what it returns. -/
def powerClockOp : AudioSapmType → Option ℤ
  | .adc | .aifOut | .dac | .aifIn => some 0
  | _ => none

/-- One round of the loop over the dirty components. -/
def visitDirty (c : α) (sweep : Sweep α) : Sweep α :=
  if newPower card c = (card.component c).power then sweep
  else if isStandby ∧ ∃ ret ∈ powerClockOp (card.component c).sapmType, ret ≠ 0 then sweep
  else audioSapmSetPower beyond card c (newPower card c) sweep

/-! ### The power sequences -/

/-- The device whose register is written. -/
inductive Device
  | codec | accessory
  deriving DecidableEq

/-- A register write, with the component and the power it is for. -/
structure RegWrite (α : Type*) where
  component : α
  power : BitVec 8
  device : Device
  reg : ℤ
  mask : ℕ
  shift : ℕ
  val : ℕ

/-- The writes that set the power of one component. -/
def regWrites (c : α) (power : BitVec 8) : List (RegWrite α) :=
  let component := card.component c
  let val := if component.invert ≠ 0 then (if power = 0 then 1 else 0) else power.toNat
  let write device : RegWrite α :=
    ⟨c, power, device, component.reg, component.mask, component.shift, val⟩
  (if component.codec then [write .codec] else []) ++
    (if component.accessory then [write .accessory] else [])

/-- The card after the stored power of one component has been set. -/
def AudioCard.storePower (c : α) (power : BitVec 8) : AudioCard α :=
  { card with component := Function.update card.component c { card.component c with power } }

end

/-- `AudioSapmPowerUpSeqRun` and `AudioSapmPowerDownSeqRun`: every component of the list with a
register and the power `before` gets the power `after`. -/
def powerSeqRun (before after : BitVec 8) :
    List α → AudioCard α → AudioCard α × List (RegWrite α)
  | [], card => (card, [])
  | c :: list, card =>
    if 0 ≤ (card.component c).reg ∧ (card.component c).power = before then
      let rest := powerSeqRun before after list (card.storePower c after)
      (rest.1, regWrites card c after ++ rest.2)
    else powerSeqRun before after list card

def audioSapmPowerUpSeqRun : List α → AudioCard α → AudioCard α × List (RegWrite α) :=
  powerSeqRun SAPM_POWER_DOWN SAPM_POWER_UP

def audioSapmPowerDownSeqRun : List α → AudioCard α → AudioCard α × List (RegWrite α) :=
  powerSeqRun SAPM_POWER_UP SAPM_POWER_DOWN

/-! ### The update that a mixer control makes -/

section

variable [Fintype α] (beyond : Bool → AudioSapmType → ℤ) (isStandby : Bool)

/-- The walk over the list `sapmDirty`. -/
def sweepDirty (card : AudioCard α) (dirty : List α) : Sweep α :=
  Worklist.walk Sweep.sapmDirty (visitDirty beyond isStandby card) (Fintype.card α) 0
    ⟨dirty, [], []⟩

/-- `AudioSapmPowerComponents`, with the register writes. -/
def audioSapmPowerComponents (card : AudioCard α) (dirty : List α) :
    AudioCard α × List (RegWrite α) :=
  let sweep := sweepDirty beyond isStandby card dirty
  let down := audioSapmPowerDownSeqRun sweep.downList card
  let up := audioSapmPowerUpSeqRun sweep.upList down.1
  (up.1, down.2 ++ up.2)

end

/-- The types of a sink whose paths a mixer control switches. -/
def isMixerSink : AudioSapmType → Bool
  | .mixer | .mixerNamedCtrl | .pga | .spk | .analogSwitch => true
  | _ => false

/-- The first path of a control gets the new status. -/
def setConnect (kcontrol : ℕ) (pathStatus : BitVec 32) :
    List (AudioSapmpath α) → List (AudioSapmpath α)
  | [] => []
  | path :: paths =>
    if path.kcontrol = some kcontrol then
      { path with connect := pathStatus.setWidth 8 } :: paths
    else path :: setConnect kcontrol pathStatus paths

omit [DecidableEq α] in
theorem mem_setConnect {kcontrol : ℕ} {pathStatus : BitVec 32} {paths : List (AudioSapmpath α)}
    {path : AudioSapmpath α} (member : path ∈ setConnect kcontrol pathStatus paths) :
    ∃ old ∈ paths, old.source = path.source ∧ old.sink = path.sink := by
  induction paths with
  | nil => exact absurd member List.not_mem_nil
  | cons first paths ih =>
    rw [setConnect] at member
    split at member
    · rcases List.mem_cons.mp member with rfl | later
      · exact ⟨first, List.mem_cons_self, rfl, rfl⟩
      · exact ⟨path, List.mem_cons_of_mem _ later, rfl, rfl⟩
    · rcases List.mem_cons.mp member with rfl | later
      · exact ⟨path, List.mem_cons_self, rfl, rfl⟩
      · obtain ⟨old, listed, ends⟩ := ih later
        exact ⟨old, List.mem_cons_of_mem _ listed, ends⟩

/-- The card after the first path of a control has got the new status. -/
def AudioCard.connectPath (card : AudioCard α) (kcontrol : ℕ) (pathStatus : BitVec 32) :
    AudioCard α :=
  { card with
    paths := setConnect kcontrol pathStatus card.paths
    rises := by
      intro path member
      obtain ⟨old, listed, source, sink⟩ := mem_setConnect member
      exact source ▸ sink ▸ card.rises old listed }

/-- What `MixerUpdatePowerStatus` does before the power is updated: the card with the path
switched, and the list `sapmDirty`, which is empty between two calls. -/
def switchPath (card : AudioCard α) (kcontrol : ℕ) (pathStatus : BitVec 32) :
    Option (AudioCard α × List α) :=
  match card.paths.find? (·.kcontrol = some kcontrol) with
  | none => some (card, [])
  | some path =>
    if isMixerSink (card.component path.sink).sapmType then
      some (card.connectPath kcontrol pathStatus, [path.source, path.sink])
    else none

/-- What a call of `MixerUpdatePowerStatus` leaves. -/
structure Update (α : Type*) where
  ret : ℤ
  card : AudioCard α
  writes : List (RegWrite α)

def HDF_SUCCESS : ℤ := 0

def HDF_DEV_ERR_NO_DEVICE : ℤ := -202

def mixerUpdatePowerStatus [Fintype α] (beyond : Bool → AudioSapmType → ℤ) (isStandby : Bool)
    (card : AudioCard α) (kcontrol : ℕ) (pathStatus : BitVec 32) : Update α :=
  match switchPath card kcontrol pathStatus with
  | none => ⟨HDF_DEV_ERR_NO_DEVICE, card, []⟩
  | some (switched, dirty) =>
    let powered := audioSapmPowerComponents beyond isStandby switched dirty
    ⟨HDF_SUCCESS, powered.1, powered.2⟩

/-! ### What the check depends on -/

theorem connectedInputEndPoint_eq (card : AudioCard α) (c : α) :
    connectedInputEndPoint card c =
      if isInputEndPoint (card.component c).sapmType then 1
      else ((card.sources c).map fun path =>
        if path.connect = 1 then connectedInputEndPoint card path.source else 0).sum := by
  rw [connectedInputEndPoint]
  refine if_congr Iff.rfl rfl (congrArg List.sum ?_)
  exact List.attach_map_val (f := fun path : AudioSapmpath α =>
    if path.connect = 1 then connectedInputEndPoint card path.source else 0)

theorem connectedOutputEndPoint_eq (card : AudioCard α) (c : α) :
    connectedOutputEndPoint card c =
      if isOutputEndPoint (card.component c).sapmType then 1
      else ((card.sinks c).map fun path =>
        if path.connect = 1 then connectedOutputEndPoint card path.sink else 0).sum := by
  rw [connectedOutputEndPoint]
  refine if_congr Iff.rfl rfl (congrArg List.sum ?_)
  exact List.attach_map_val (f := fun path : AudioSapmpath α =>
    if path.connect = 1 then connectedOutputEndPoint card path.sink else 0)

/-- The cards differ in the stored power only. -/
structure SameGraph (card card' : AudioCard α) : Prop where
  paths : card'.paths = card.paths
  level : card'.level = card.level
  levels : card'.levels = card.levels
  sapmType : ∀ c, (card'.component c).sapmType = (card.component c).sapmType
  active : ∀ c, (card'.component c).active = (card.component c).active
  reg : ∀ c, (card'.component c).reg = (card.component c).reg

namespace SameGraph

variable {card card' card'' : AudioCard α}

omit [DecidableEq α] in
theorem refl (card : AudioCard α) : SameGraph card card :=
  ⟨rfl, rfl, rfl, fun _ => rfl, fun _ => rfl, fun _ => rfl⟩

omit [DecidableEq α] in
theorem trans (same : SameGraph card card') (same' : SameGraph card' card'') :
    SameGraph card card'' :=
  ⟨same'.paths.trans same.paths, same'.level.trans same.level, same'.levels.trans same.levels,
    fun c => (same'.sapmType c).trans (same.sapmType c),
    fun c => (same'.active c).trans (same.active c), fun c => (same'.reg c).trans (same.reg c)⟩

theorem storePower (card : AudioCard α) (c : α) (power : BitVec 8) :
    SameGraph card (card.storePower c power) := by
  refine ⟨rfl, rfl, rfl, fun d => ?_, fun d => ?_, fun d => ?_⟩ <;>
  · by_cases same : d = c
    · subst same
      simp [AudioCard.storePower]
    · simp [AudioCard.storePower, Function.update_of_ne same]

theorem connectedInputEndPoint_eq (same : SameGraph card card') (c : α) :
    connectedInputEndPoint card' c = connectedInputEndPoint card c := by
  obtain ⟨n, level⟩ : ∃ n, card.level c = n := ⟨_, rfl⟩
  induction n using Nat.strong_induction_on generalizing c with
  | _ n ih =>
    rw [Sapm.connectedInputEndPoint_eq, Sapm.connectedInputEndPoint_eq, same.sapmType,
      AudioCard.sources, same.paths]
    refine if_congr Iff.rfl rfl (congrArg List.sum (List.map_congr_left fun path member => ?_))
    rw [ih _ (level ▸ AudioCard.level_source member) _ rfl]

theorem connectedOutputEndPoint_eq (same : SameGraph card card') (c : α) :
    connectedOutputEndPoint card' c = connectedOutputEndPoint card c := by
  obtain ⟨n, level⟩ : ∃ n, card.levels - card.level c = n := ⟨_, rfl⟩
  induction n using Nat.strong_induction_on generalizing c with
  | _ n ih =>
    rw [Sapm.connectedOutputEndPoint_eq, Sapm.connectedOutputEndPoint_eq, same.sapmType,
      AudioCard.sinks, same.paths]
    refine if_congr Iff.rfl rfl (congrArg List.sum (List.map_congr_left fun path member => ?_))
    have higher := AudioCard.level_sink member
    have bounded := card.below path.sink
    rw [ih _ (by omega) _ rfl]

theorem powerCheck_eq (same : SameGraph card card') (c : α) :
    powerCheck card' c = powerCheck card c := by
  simp only [powerCheck, audioSapmAdcCheckPower, audioSapmDacCheckPower,
    audioSapmGenericCheckPower, same.sapmType, same.active, same.connectedInputEndPoint_eq,
    same.connectedOutputEndPoint_eq]

end SameGraph

end Hdf.Audio.Sapm
