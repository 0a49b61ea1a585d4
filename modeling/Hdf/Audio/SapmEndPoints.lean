import Hdf.Audio.SapmPower
import Hdf.Lib.EndSearch
import Mathlib.Tactic.IntervalCases

/-!
# The search for end points on an audio card

The components of a card are joined by the paths of its routes, which may form loops. The search
for the end points of a component goes along the connected paths. It marks nothing.

What a mixer control finds in its register when a path is made comes with the routes.

## Main results

* `endPointsRight_iff`: the searches are right exactly if no loop of connected paths passes around
  the end points, and the number of chains fits
* `loop_never_ends`: two mixers that feed each other
-/

namespace Hdf.Audio.Sapm.EndPoints

open Relation

/-- The fields of a component that the routes and the searches depend on: its name, its type, and
the names of its controls. -/
structure Component where
  componentName : String
  sapmType : AudioSapmType
  kcontrolNews : List (Option String)
  deriving DecidableEq

/-- A path between two components, which are given by their numbers. -/
structure Path where
  source : ℕ
  sink : ℕ
  name : Option String
  connect : BitVec 8
  deriving DecidableEq

/-- A card with its components, numbered from the first one that has been made on, and its paths,
the newest one first. The paths join components of the card. -/
structure Card where
  components : List Component
  paths : List Path
  joins : ∀ path ∈ paths, path.source < components.length ∧ path.sink < components.length

/-- `struct AudioSapmRoute`. -/
structure AudioSapmRoute where
  sink : String
  control : Option String
  source : String

/-- A card without components. -/
def Card.empty : Card := ⟨[], [], fun _ member => absurd member List.not_mem_nil⟩

/-! ### Building a card -/

/-- `AudioSapmNewComponent`. -/
def audioSapmNewComponent (card : Card) (component : Component) : Card where
  components := card.components ++ [component]
  paths := card.paths
  joins := fun path member => by
    have inside := card.joins path member
    rw [List.length_append]
    exact ⟨Nat.lt_add_right _ inside.1, Nat.lt_add_right _ inside.2⟩

/-- `AudioSapmNewComponents`. -/
def audioSapmNewComponents (card : Card) (components : List Component) : Card :=
  components.foldl audioSapmNewComponent card

/-- The card with a path between two of its components. -/
def Card.insertPath (card : Card) (source sink : Fin card.components.length) (name : Option String)
    (connect : BitVec 8) : Card where
  components := card.components
  paths := ⟨source, sink, name, connect⟩ :: card.paths
  joins := List.forall_mem_cons.mpr ⟨⟨source.isLt, sink.isLt⟩, card.joins⟩

/-- The loop of `AudioSapmAddRoute` over the components, the newest one first: the source and the
sink that it finds. A component that is taken for the source is not looked at as the sink. -/
def findEnds {n : ℕ} (name : Fin n → String) (route : AudioSapmRoute) :
    List (Fin n) → Option (Fin n) → Option (Fin n) → Option (Fin n) × Option (Fin n)
  | [], source, sink => (source, sink)
  | c :: cs, source, sink =>
    if source.isNone ∧ name c = route.source then findEnds name route cs (some c) sink
    else
      let sink := if sink.isNone ∧ name c = route.sink then some c else sink
      if source.isSome ∧ sink.isSome then (source, sink) else findEnds name route cs source sink

/-- The connect state that `AudioSapmSetPathStatus` stores for a sink with controls: of a mixer what
is found in the register of the control, else that the path is connected. -/
def pathStatus (sapmType : AudioSapmType) (mixerStatus : BitVec 8) : BitVec 8 :=
  match sapmType with
  | .mixer | .analogSwitch | .mixerNamedCtrl => mixerStatus
  | _ => 1

/-- `AudioSapmConnectMixer`. -/
def audioSapmConnectMixer (card : Card) (source sink : Fin card.components.length)
    (controlName : String) (mixerStatus : BitVec 8) : Option Card :=
  if some controlName ∈ card.components[sink].kcontrolNews then
    some (card.insertPath source sink (some controlName)
      (pathStatus card.components[sink].sapmType mixerStatus))
  else none

/-- `AudioSampStaticOrDynamicPath`. The path to a multiplexer with a control is dropped. -/
def audioSampStaticOrDynamicPath (card : Card) (source sink : Fin card.components.length)
    (route : AudioSapmRoute) (mixerStatus : BitVec 8) : Option Card :=
  match route.control with
  | none => some (card.insertPath source sink none 1)
  | some control =>
    match card.components[sink].sapmType with
    | .mux | .virtMux | .valueMux => some card
    | .analogSwitch | .mixer | .mixerNamedCtrl | .pga | .spk =>
      audioSapmConnectMixer card source sink control mixerStatus
    | _ => some (card.insertPath source sink none 1)

/-- `AudioSapmAddRoute`. -/
def audioSapmAddRoute (card : Card) (route : AudioSapmRoute) (mixerStatus : BitVec 8) :
    Option Card :=
  match findEnds (fun c => card.components[c].componentName) route
      (List.finRange card.components.length).reverse none none with
  | (some source, some sink) => audioSampStaticOrDynamicPath card source sink route mixerStatus
  | _ => none

/-- `AudioSapmAddRoutes`, with what the mixer control of each route finds. -/
def audioSapmAddRoutes (card : Card) : List (AudioSapmRoute × BitVec 8) → Option Card
  | [] => some card
  | (route, mixerStatus) :: routes =>
    (audioSapmAddRoute card route mixerStatus).bind fun card => audioSapmAddRoutes card routes

/-! ### The searches -/

/-- The list `sources` of a component. -/
def Card.sources (card : Card) (c : ℕ) : List Path := card.paths.filter (·.sink = c)

/-- The list `sinks` of a component. -/
def Card.sinks (card : Card) (c : ℕ) : List Path := card.paths.filter (·.source = c)

/-- The type of a component. -/
def Card.typeOf (card : Card) (c : ℕ) : Option AudioSapmType :=
  card.components[c]?.map Component.sapmType

/-- The loop of a search over the paths of a component, with what the search finds at their other
ends. -/
def countPaths (found : ℕ → Option (BitVec 32)) (other : Path → ℕ) (count : BitVec 32) :
    List Path → Option (BitVec 32)
  | [] => some count
  | path :: paths =>
    if path.connect = 1 then
      (found (other path)).bind fun n => countPaths found other (count + n) paths
    else countPaths found other count paths

/-- `ConnectedInputEndPoint`, if its recursion takes less than the given depth. -/
def connectedInputEndPoint (card : Card) : ℕ → ℕ → Option (BitVec 32)
  | 0, _ => none
  | depth + 1, c =>
    if (card.typeOf c).any isInputEndPoint then some 1
    else countPaths (connectedInputEndPoint card depth) Path.source 0 (card.sources c)

/-- `ConnectedOutputEndPoint`, if its recursion takes less than the given depth. -/
def connectedOutputEndPoint (card : Card) : ℕ → ℕ → Option (BitVec 32)
  | 0, _ => none
  | depth + 1, c =>
    if (card.typeOf c).any isOutputEndPoint then some 1
    else countPaths (connectedOutputEndPoint card depth) Path.sink 0 (card.sinks c)

/-- A connected path leads from a component to another one. -/
def Connected (card : Card) (c d : ℕ) : Prop :=
  ∃ path ∈ card.paths, path.connect = 1 ∧ path.source = c ∧ path.sink = d

/-- A chain of connected paths leads from an input end point to the component. -/
def Fed (card : Card) (c : ℕ) : Prop :=
  ∃ e, (card.typeOf e).any isInputEndPoint = true ∧ ReflTransGen (Connected card) e c

/-- A chain of connected paths leads from the component to an output end point. -/
def Heard (card : Card) (c : ℕ) : Prop :=
  ∃ e, (card.typeOf e).any isOutputEndPoint = true ∧ ReflTransGen (Connected card) c e

/-- The searches end for every component of a card, and what they find is positive exactly if a
chain of connected paths joins an end point to it. -/
structure EndPointsRight (card : Card) : Prop where
  input : ∀ c < card.components.length, ∃ depth count,
    connectedInputEndPoint card depth c = some count ∧ (0 < count.toInt ↔ Fed card c)
  output : ∀ c < card.components.length, ∃ depth count,
    connectedOutputEndPoint card depth c = some count ∧ (0 < count.toInt ↔ Heard card c)

/-- The sources of the connected paths to a component. -/
def connectedSources (card : Card) (c : ℕ) : List ℕ :=
  ((card.sources c).filter (·.connect = 1)).map Path.source

/-- The sinks of the connected paths from a component. -/
def connectedSinks (card : Card) (c : ℕ) : List ℕ :=
  ((card.sinks c).filter (·.connect = 1)).map Path.sink

/-- A component is an input end point. -/
def Card.isInput (card : Card) (c : ℕ) : Bool := (card.typeOf c).any isInputEndPoint

/-- A component is an output end point. -/
def Card.isOutput (card : Card) (c : ℕ) : Bool := (card.typeOf c).any isOutputEndPoint

/-- The search for inputs goes on from a component to one of its sources. -/
def GoesToSource (card : Card) (c d : ℕ) : Prop := card.isInput c = false ∧ Connected card d c

/-- The search for outputs goes on from a component to one of its sinks. -/
def GoesToSink (card : Card) (c d : ℕ) : Prop := card.isOutput c = false ∧ Connected card c d

/-- No loop of connected paths passes around the end points. -/
structure LoopFree (card : Card) : Prop where
  input : ∀ c, ¬TransGen (GoesToSource card) c c
  output : ∀ c, ¬TransGen (GoesToSink card) c c

/-- The number of chains of connected paths that join end points to a component is positive as a
32-bit number as well. -/
structure CountsFit (card : Card) : Prop where
  input : ChainsFit 32 card.isInput (connectedSources card) (List.range card.components.length)
  output : ChainsFit 32 card.isOutput (connectedSinks card) (List.range card.components.length)

variable {card : Card} {c d depth : ℕ}

theorem countPaths_eq (found : ℕ → Option (BitVec 32)) (other : Path → ℕ) (count : BitVec 32)
    (paths : List Path) : countPaths found other count paths =
      countAll found count ((paths.filter (·.connect = 1)).map other) := by
  induction paths generalizing count with
  | nil => rfl
  | cons path paths ih =>
    rw [countPaths, List.filter_cons]
    by_cases connected : path.connect = 1
    · rw [if_pos connected, if_pos (decide_eq_true connected), List.map_cons, countAll]
      simp only [ih]
    · rw [if_neg connected, if_neg (by simpa using connected), ih]

/-- The search for inputs is a search in the graph of the connected paths. -/
theorem connectedInputEndPoint_eq (card : Card) (depth : ℕ) : connectedInputEndPoint card depth =
    endSearch card.isInput (connectedSources card) depth := by
  induction depth with
  | zero => rfl
  | succ depth ih =>
    funext c
    rw [connectedInputEndPoint, endSearch, ih, countPaths_eq]
    rfl

theorem connectedOutputEndPoint_eq (card : Card) (depth : ℕ) :
    connectedOutputEndPoint card depth =
      endSearch card.isOutput (connectedSinks card) depth := by
  induction depth with
  | zero => rfl
  | succ depth ih =>
    funext c
    rw [connectedOutputEndPoint, endSearch, ih, countPaths_eq]
    rfl

theorem mem_connectedSources : d ∈ connectedSources card c ↔ Connected card d c := by
  simp only [connectedSources, Card.sources, List.mem_map, List.mem_filter, decide_eq_true_eq,
    Connected]
  grind

theorem mem_connectedSinks : d ∈ connectedSinks card c ↔ Connected card c d := by
  simp only [connectedSinks, Card.sinks, List.mem_map, List.mem_filter, decide_eq_true_eq,
    Connected]
  grind

theorem Connected.lt (connected : Connected card c d) :
    c < card.components.length ∧ d < card.components.length := by
  obtain ⟨path, member, -, rfl, rfl⟩ := connected
  exact card.joins path member

theorem inputs_right_iff : (∀ c < card.components.length, ∃ depth count,
    connectedInputEndPoint card depth c = some count ∧ (0 < count.toInt ↔ Fed card c)) ↔
    (∀ c, ¬TransGen (GoesToSource card) c c) ∧
      ChainsFit 32 card.isInput (connectedSources card) (List.range card.components.length) := by
  have inside : ∀ c, ∀ d ∈ connectedSources card c, d ∈ List.range card.components.length :=
    fun c d member => List.mem_range.mpr (mem_connectedSources.mp member).lt.1
  have passes : Passes card.isInput (connectedSources card) = GoesToSource card := by
    funext c d
    rw [Passes, mem_connectedSources, GoesToSource]
  have fed (c : ℕ) : (∃ e, card.isInput e = true ∧
      ReflTransGen (fun a b => b ∈ connectedSources card a) c e) ↔ Fed card c := by
    simp only [mem_connectedSources]
    exact exists_congr fun e => and_congr Iff.rfl reflTransGen_swap
  have whole := @endSearch_right_iff _ 32 card.isInput _ _ inside
  simp only [List.mem_range, passes, fed] at whole
  simp only [connectedInputEndPoint_eq]
  rw [whole]
  refine and_congr_left fun _ => ⟨fun acyclic c cycle => ?_, fun acyclic c _ => acyclic c⟩
  obtain ⟨d, first, -⟩ := TransGen.head'_iff.mp cycle
  exact acyclic c first.2.lt.2 cycle

theorem outputs_right_iff : (∀ c < card.components.length, ∃ depth count,
    connectedOutputEndPoint card depth c = some count ∧ (0 < count.toInt ↔ Heard card c)) ↔
    (∀ c, ¬TransGen (GoesToSink card) c c) ∧
      ChainsFit 32 card.isOutput (connectedSinks card) (List.range card.components.length) := by
  have inside : ∀ c, ∀ d ∈ connectedSinks card c, d ∈ List.range card.components.length :=
    fun c d member => List.mem_range.mpr (mem_connectedSinks.mp member).lt.2
  have passes : Passes card.isOutput (connectedSinks card) = GoesToSink card := by
    funext c d
    rw [Passes, mem_connectedSinks, GoesToSink]
  have heard (c : ℕ) : (∃ e, card.isOutput e = true ∧
      ReflTransGen (fun a b => b ∈ connectedSinks card a) c e) ↔ Heard card c := by
    simp only [mem_connectedSinks]
    rfl
  have whole := @endSearch_right_iff _ 32 card.isOutput _ _ inside
  simp only [List.mem_range, passes, heard] at whole
  simp only [connectedOutputEndPoint_eq]
  rw [whole]
  refine and_congr_left fun _ => ⟨fun acyclic c cycle => ?_, fun acyclic c _ => acyclic c⟩
  obtain ⟨d, first, -⟩ := TransGen.head'_iff.mp cycle
  exact acyclic c first.2.lt.1 cycle

/-- The searches are right exactly if no loop of connected paths passes around the end points, and
the number of chains fits. -/
theorem endPointsRight_iff (card : Card) :
    EndPointsRight card ↔ LoopFree card ∧ CountsFit card := by
  have parts : EndPointsRight card ↔ _ ∧ _ :=
    ⟨fun right => ⟨right.input, right.output⟩, fun right => ⟨right.1, right.2⟩⟩
  rw [parts, inputs_right_iff, outputs_right_iff]
  constructor
  · rintro ⟨⟨free, fit⟩, free', fit'⟩
    exact ⟨⟨free, free'⟩, fit, fit'⟩
  · rintro ⟨free, fit⟩
    exact ⟨⟨free.input, fit.input⟩, free.output, fit.output⟩

/-- Two mixers. -/
def mixers : Card :=
  audioSapmNewComponents Card.empty [⟨"Left Mixer", .mixer, []⟩, ⟨"Right Mixer", .mixer, []⟩]

/-- A route from each of them to the other one. -/
def loopRoutes : List (AudioSapmRoute × BitVec 8) :=
  [(⟨"Right Mixer", none, "Left Mixer"⟩, 0), (⟨"Left Mixer", none, "Right Mixer"⟩, 0)]

/-- The paths that these routes make. -/
def loopPaths : List Path := [⟨1, 0, none, 1⟩, ⟨0, 1, none, 1⟩]

/-- Two mixers that feed each other: the searches never end. -/
theorem loop_never_ends : ∃ card, audioSapmAddRoutes mixers loopRoutes = some card ∧
    ¬EndPointsRight card := by
  have built : (audioSapmAddRoutes mixers loopRoutes).map
      (fun card => (card.components, card.paths)) = some (mixers.components, loopPaths) := by
    decide +kernel
  obtain ⟨card, made, same⟩ := Option.map_eq_some_iff.mp built
  obtain ⟨components, paths⟩ := Prod.mk.inj same
  refine ⟨card, made, fun right => (inputs_right_iff.mp right.input).1 0 ?_⟩
  have passed (c : ℕ) (lt : c < 2) : card.isInput c = false := by
    rw [Card.isInput, Card.typeOf, components]
    interval_cases c <;> rfl
  have connected (path : Path) (member : path ∈ loopPaths) :
      Connected card path.source path.sink :=
    ⟨path, paths ▸ member, by revert path; decide, rfl, rfl⟩
  have first : GoesToSource card 0 1 :=
    ⟨passed 0 (by decide), connected ⟨1, 0, none, 1⟩ (by decide)⟩
  have second : GoesToSource card 1 0 :=
    ⟨passed 1 (by decide), connected ⟨0, 1, none, 1⟩ (by decide)⟩
  exact .tail (.single first) second

end Hdf.Audio.Sapm.EndPoints
