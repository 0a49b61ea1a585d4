import Hdf.Utils.Map

/-!
# Maps when memory is exhausted

`MapSet` has two allocations for a new key: a larger array of buckets and a node. It
goes on without the larger array, which is right when there is an array already. The
first node of a map is then put into an array that is not there.

## Main results

* `setsOrFails_iff`: the calls that set a value or fail without a trace
-/

namespace Hdf.HashMap

open KeyedList Buckets

/-- The outcomes of the allocations of one call. -/
structure Memory where
  table : Bool
  node : Bool
  deriving DecidableEq, Repr

namespace Failing

variable (charSigned : Bool)

/-- The part of `MapSet` that enlarges the buckets. The result of `MapResize` is ignored. -/
def mapEnlarge (table : Bool) (map : Map) : Option Map :=
  if map.bucketSize ≤ map.nodeSize then
    if table then mapResize map (enlargedSize map.bucketSize) else some map
  else some map

/-- The part of `MapSet` that puts in a new node. -/
def mapInsert (memory : Memory) (map : Map) (key : CString) (value : List UInt8) :
    Option (ℤ × Map) := do
  let map ← mapEnlarge memory.table map
  if !memory.node then some (HDF_ERR_INVALID_OBJECT, map)
  else do
    let map ← mapAddNode map ⟨mapHash charSigned key, key, value⟩
    some (HDF_SUCCESS, { map with nodeSize := map.nodeSize + 1 })

/-- `MapSet`, with what it returns and the map it leaves. -/
def mapSet (memory : Memory) (map : Map) (key : CString) (value : List UInt8) :
    Option (ℤ × Map) :=
  if value.length = 0 then some (HDF_ERR_INVALID_PARAM, map)
  else if HDF_MAP_KEY_MAX_SIZE < value.length ∨ HDF_MAP_VALUE_MAX_SIZE < key.length then
    some (HDF_ERR_INVALID_PARAM, map)
  else
    let hash := mapHash charSigned key
    if 0 < map.nodeSize ∧ map.nodes ≠ [] then do
      let idx := mapHashIdx map.bucketSize hash
      let bucket ← map.nodes[idx]?
      match search hashedKey (hash, key) bucket with
      | none => mapInsert charSigned memory map key value
      | some node =>
        if node.value.length ≠ value.length then some (HDF_ERR_INVALID_OBJECT, map)
        else
          let nodes := map.nodes.modify idx (update hashedKey (hash, key) ({ · with value }))
          some (HDF_SUCCESS, { map with nodes })
    else mapInsert charSigned memory map key value

/-- A call on a map. -/
inductive Act
  | set (key : CString) (value : List UInt8) (memory : Memory)
  | erase (key : CString)
  | get (key : CString)

/-- A call, with the record of what it has given to its key when it succeeds. -/
def step : Act → State → Option State
  | .set key value memory, state => do
    let (ret, map) ← mapSet charSigned memory state.map key value
    some ⟨map, if ret = HDF_SUCCESS then Function.update state.contents key (some value)
      else state.contents⟩
  | .erase key, state => HashMap.step charSigned (.erase key) state
  | .get key, state => HashMap.step charSigned (.get key) state

/-- The call puts in a new node. -/
structure Inserts (state : State) (key : CString) (value : List UInt8) : Prop where
  some_value : value.length ≠ 0
  allowed : ¬ (HDF_MAP_KEY_MAX_SIZE < value.length ∨ HDF_MAP_VALUE_MAX_SIZE < key.length)
  absent : state.contents key = none

/-- A new node finds an array of buckets, and the counter of nodes has room for it. -/
def Sound : Act → State → Prop
  | .set key value memory, state => Inserts state key value → memory.node = true →
    state.map.nodeSize.toNat + 1 < 2 ^ 32 ∧ (state.map.nodes = [] → memory.table = true)
  | _, _ => True

/-- The value is set, or the call fails and all keys have the values that they had. -/
def SetsOrFails (state : State) (key : CString) (value : List UInt8) (memory : Memory) : Prop :=
  ∃ ret map, mapSet charSigned memory state.map key value = some (ret, map) ∧
    (ret = HDF_SUCCESS → mapGet charSigned map key = some (some value) ∧
      ∀ other ≠ key, mapGet charSigned map other = mapGet charSigned state.map other) ∧
    (ret ≠ HDF_SUCCESS → map.nodeSize = state.map.nodeSize ∧
      ∀ other, mapGet charSigned map other = mapGet charSigned state.map other)

section

variable {charSigned} {state : State} {key : CString} {value : List UInt8} {memory : Memory}

/-! ### New nodes -/

/-- Buckets that are there are as many as a power of two. -/
theorem power_of_ne_nil (kept : Kept charSigned state) (some_buckets : state.map.nodes ≠ []) :
    ∃ e, state.map.bucketSize.toNat = 2 ^ e := by
  refine kept.shape.resolve_left fun zero => some_buckets ?_
  rw [← List.length_eq_zero_iff, kept.sized, zero]
  rfl

theorem ne_nil_of_power (kept : Kept charSigned state)
    (power : ∃ e, state.map.bucketSize.toNat = 2 ^ e) : state.map.nodes ≠ [] := by
  obtain ⟨e, power⟩ := power
  intro none_there
  have sized := kept.sized
  rw [none_there, power] at sized
  exact (Nat.two_pow_pos e).ne sized

/-- The buckets before a node is put in. There are some unless the first array could not
be had. -/
theorem enlarge (kept : Kept charSigned state) (table : Bool) :
    ∃ map, mapEnlarge table state.map = some map ∧ map.nodeSize = state.map.nodeSize ∧
      (map.nodes = [] ↔ state.map.nodes = [] ∧ table = false) ∧
      map.nodes.flatten.Perm state.map.nodes.flatten ∧ Kept charSigned ⟨map, state.contents⟩ := by
  obtain ⟨map, grown, counter, power, perm, kept'⟩ := kept.enlarge
  have filled := ne_nil_of_power kept' power
  cases table with
  | true => exact ⟨map, grown, counter, by simpa using filled, perm, kept'⟩
  | false =>
    by_cases grows : state.map.bucketSize ≤ state.map.nodeSize
    · refine ⟨state.map, ?_, rfl, by simp, .refl _, kept⟩
      rw [mapEnlarge, if_pos grows]
      rfl
    · -- there is room in the array, so there is an array
      rw [HashMap.mapEnlarge, if_neg grows] at grown
      cases grown
      refine ⟨state.map, ?_, rfl, by simp, .refl _, kept⟩
      rw [mapEnlarge, if_neg grows]

/-- A node that cannot be had leaves the same values. -/
theorem insert_no_node (kept : Kept charSigned state) (table : Bool) :
    ∃ map, mapInsert charSigned ⟨table, false⟩ state.map key value =
        some (HDF_ERR_INVALID_OBJECT, map) ∧ map.nodeSize = state.map.nodeSize ∧
      Kept charSigned ⟨map, state.contents⟩ := by
  obtain ⟨map, grown, counter, -, -, kept'⟩ := enlarge kept table
  refine ⟨map, ?_, counter, kept'⟩
  rw [mapInsert, grown]
  rfl

/-- A new node in an array that is there. -/
theorem insert_node (kept : Kept charSigned state) {table : Bool}
    (absent : search (·.key) key state.map.nodes.flatten = none)
    (there : state.map.nodes = [] → table = true) :
    ∃ map, mapInsert charSigned ⟨table, true⟩ state.map key value = some (HDF_SUCCESS, map) ∧
      map.nodeSize = state.map.nodeSize + 1 ∧
      (state.map.nodeSize.toNat + 1 < 2 ^ 32 →
        Kept charSigned ⟨map, Function.update state.contents key (some value)⟩) := by
  obtain ⟨map, grown, counter, none_iff, perm, kept'⟩ := enlarge kept table
  have filled : map.nodes ≠ [] := fun none_there => by
    obtain ⟨before, failed⟩ := none_iff.mp none_there
    rw [there before] at failed
    cases failed
  obtain ⟨e, power⟩ := power_of_ne_nil kept' filled
  obtain ⟨nodes, added, sized, placed, holds⟩ := kept'.added power key value
  refine ⟨⟨nodes, map.nodeSize + 1, map.bucketSize⟩, ?_, by rw [counter], fun roomy => ?_⟩
  · rw [mapInsert, grown, Option.bind_eq_bind, Option.bind_some, if_neg (by simp), added]
    rfl
  · have nowhere : search (·.key) key map.nodes.flatten = none := by
      rwa [search_perm kept'.unique perm]
    exact kept'.of_added (counter ▸ roomy) nowhere sized ⟨e, power⟩ placed holds

/-- A new node in an array that is not there. -/
theorem insert_nowhere (kept : Kept charSigned state) (none_there : state.map.nodes = []) :
    mapInsert charSigned ⟨false, true⟩ state.map key value = none := by
  obtain ⟨map, grown, -, none_iff, -, -⟩ := enlarge kept false
  have still : map.nodes = [] := none_iff.mpr ⟨none_there, rfl⟩
  rw [mapInsert, grown, Option.bind_eq_bind, Option.bind_some, if_neg (by simp), mapAddNode, still]
  rfl

/-! ### Calls -/

theorem search_eq_none (kept : Kept charSigned state) (absent : state.contents key = none) :
    search (·.key) key state.map.nodes.flatten = none := by
  rw [kept.holds] at absent
  exact Option.map_eq_none_iff.mp absent

theorem mapSet_eq (kept : Kept charSigned state) (some_value : value.length ≠ 0)
    (allowed : ¬ (HDF_MAP_KEY_MAX_SIZE < value.length ∨ HDF_MAP_VALUE_MAX_SIZE < key.length)) :
    mapSet charSigned memory state.map key value =
      match search (·.key) key state.map.nodes.flatten with
      | none => mapInsert charSigned memory state.map key value
      | some node =>
        if node.value.length ≠ value.length then some (HDF_ERR_INVALID_OBJECT, state.map)
        else
          some (HDF_SUCCESS, { state.map with
            nodes := state.map.nodes.modify
              (mapHashIdx state.map.bucketSize (mapHash charSigned key))
              (update hashedKey (mapHash charSigned key, key) ({ · with value })) }) := by
  rw [mapSet, if_neg some_value, if_neg allowed]
  exact kept.lookup_eq _ _

theorem mapSet_of_inserts (kept : Kept charSigned state) (inserts : Inserts state key value) :
    mapSet charSigned memory state.map key value =
      mapInsert charSigned memory state.map key value := by
  rw [mapSet_eq kept inserts.some_value inserts.allowed, search_eq_none kept inserts.absent]

/-- A call without a new node does not allocate anything. -/
theorem mapSet_of_not_inserts (kept : Kept charSigned state)
    (known : ¬ Inserts state key value) :
    mapSet charSigned memory state.map key value =
      HashMap.mapSet charSigned state.map key value := by
  by_cases some_value : value.length = 0
  · rw [mapSet, HashMap.mapSet, if_pos some_value, if_pos some_value]
  · by_cases large : HDF_MAP_KEY_MAX_SIZE < value.length ∨ HDF_MAP_VALUE_MAX_SIZE < key.length
    · rw [mapSet, HashMap.mapSet, if_neg some_value, if_neg some_value, if_pos large, if_pos large]
    · rw [mapSet_eq kept some_value large, kept.mapSet_eq some_value large]
      cases found : search (·.key) key state.map.nodes.flatten with
      | none =>
        refine absurd ⟨some_value, large, ?_⟩ known
        rw [kept.holds, found]
        rfl
      | some node => rfl

/-- A call that finds an array sets the value, or fails and leaves the values alone. -/
theorem set_sound (kept : Kept charSigned state)
    (sound : Sound (.set key value memory) state) :
    ∃ ret map, mapSet charSigned memory state.map key value = some (ret, map) ∧
      (ret = HDF_SUCCESS →
        Kept charSigned ⟨map, Function.update state.contents key (some value)⟩) ∧
      (ret ≠ HDF_SUCCESS → map.nodeSize = state.map.nodeSize ∧
        Kept charSigned ⟨map, state.contents⟩) := by
  by_cases inserts : Inserts state key value
  · rw [mapSet_of_inserts kept inserts]
    obtain ⟨table, node⟩ := memory
    cases node with
    | false =>
      obtain ⟨map, done, counter, kept'⟩ := insert_no_node kept table
      exact ⟨_, map, done, fun success => absurd success (by decide), fun _ => ⟨counter, kept'⟩⟩
    | true =>
      obtain ⟨roomy, there⟩ := sound inserts rfl
      obtain ⟨map, done, -, kept'⟩ :=
        insert_node kept (search_eq_none kept inserts.absent) there
      exact ⟨_, map, done, fun _ => kept' roomy, fun failed => absurd rfl failed⟩
  · rw [mapSet_of_not_inserts kept inserts]
    by_cases refused : value.length = 0 ∨
        HDF_MAP_KEY_MAX_SIZE < value.length ∨ HDF_MAP_VALUE_MAX_SIZE < key.length
    · have done : HashMap.mapSet charSigned state.map key value =
          some (HDF_ERR_INVALID_PARAM, state.map) := by
        rw [HashMap.mapSet]
        split
        · rfl
        · rw [if_pos (refused.resolve_left (by assumption))]
      exact ⟨_, _, done, fun success => absurd success (by decide), fun _ => ⟨rfl, kept⟩⟩
    · rw [not_or] at refused
      have roomy : Roomy (.set key value) state := fun absent =>
        absurd ⟨refused.1, refused.2, absent⟩ inserts
      obtain ⟨ret, map, done, failed, succeeded⟩ := kept.set key value roomy
      refine ⟨ret, map, done, succeeded, fun fails => ?_⟩
      rw [failed fails]
      exact ⟨rfl, kept⟩

/-- What a call keeps, when its node finds an array. -/
theorem kept_step {act : Act} (kept : Kept charSigned state) (sound : Sound act state) :
    ∃ after, step charSigned act state = some after ∧ Kept charSigned after := by
  cases act with
  | set key value memory =>
    obtain ⟨ret, map, done, succeeded, failed⟩ := set_sound kept sound
    rw [step, done]
    refine ⟨_, rfl, ?_⟩
    by_cases success : ret = HDF_SUCCESS
    · rw [if_pos success]
      exact succeeded success
    · rw [if_neg success]
      exact (failed success).2
  | erase key => exact kept.step (.erase key) trivial
  | get key => exact kept.step (.get key) trivial

theorem setsOrFails_of_sound (kept : Kept charSigned state)
    (sound : Sound (.set key value memory) state) :
    SetsOrFails charSigned state key value memory := by
  obtain ⟨ret, map, done, succeeded, failed⟩ := set_sound kept sound
  refine ⟨ret, map, done, fun success => ⟨?_, fun other differs => ?_⟩, fun fails =>
    ⟨(failed fails).1, fun other => ?_⟩⟩
  · exact ((succeeded success).get_eq key).trans (congrArg some (Function.update_self ..))
  · exact ((succeeded success).get_eq other).trans
      ((congrArg some (Function.update_of_ne differs ..)).trans (kept.get_eq other).symm)
  · exact ((failed fails).2.get_eq other).trans (kept.get_eq other).symm

theorem sound_of_setsOrFails (kept : Kept charSigned state)
    (holds : SetsOrFails charSigned state key value memory) :
    Sound (.set key value memory) state := by
  intro inserts node
  obtain ⟨ret, map, done, succeeded, -⟩ := holds
  obtain ⟨table, _⟩ := memory
  cases node
  rw [mapSet_of_inserts kept inserts] at done
  have there : state.map.nodes = [] → table = true := fun none_there => by
    cases table with
    | true => rfl
    | false =>
      rw [insert_nowhere kept none_there] at done
      cases done
  refine ⟨not_le.mp fun full => ?_, there⟩
  -- the counter is back at zero, and nothing is found
  obtain ⟨map', done', counter, -⟩ :=
    insert_node kept (search_eq_none kept inserts.absent) there
  cases done.symm.trans done'
  have zero : map.nodeSize = 0 := by
    refine UInt32.toNat_inj.mp ?_
    have last : state.map.nodeSize.toNat + 1 = 2 ^ 32 :=
      le_antisymm state.map.nodeSize.toNat_lt full
    rw [counter, UInt32.toNat_add, UInt32.toNat_one, last, Nat.mod_self]
    rfl
  have found := (succeeded rfl).1
  rw [mapGet, if_pos (.inl zero)] at found
  cases found

/-- After every history whose new nodes found an array, one more call sets its value or
fails without a trace if and only if its new node finds an array. -/
theorem setsOrFails_iff (acts : List Act)
    (sound : Meets (step charSigned) Sound created acts) :
    ∃ state, runs (step charSigned) created acts = some state ∧
      ∀ key value memory, SetsOrFails charSigned state key value memory ↔
        Sound (.set key value memory) state := by
  obtain ⟨state, ran, kept⟩ :=
    exists_runs (fun _ _ kept sound => kept_step kept sound) (kept_created charSigned) sound
  exact ⟨state, ran, fun key value memory =>
    ⟨sound_of_setsOrFails kept, setsOrFails_of_sound kept⟩⟩

end

/-! ### Examples -/

instance (state : State) (key : CString) (value : List UInt8) :
    Decidable (Inserts state key value) :=
  decidable_of_iff (value.length ≠ 0 ∧
      ¬ (HDF_MAP_KEY_MAX_SIZE < value.length ∨ HDF_MAP_VALUE_MAX_SIZE < key.length) ∧
      state.contents key = none)
    ⟨fun ⟨some_value, allowed, absent⟩ => ⟨some_value, allowed, absent⟩,
      fun ⟨some_value, allowed, absent⟩ => ⟨some_value, allowed, absent⟩⟩

instance (act : Act) (state : State) : Decidable (Sound act state) :=
  match act with
  | .set _ _ _ => inferInstanceAs (Decidable (_ → _ → _))
  | .erase _ => inferInstanceAs (Decidable True)
  | .get _ => inferInstanceAs (Decidable True)

/-- Two new keys, one of them after a call without memory for its node. -/
def scarce : List Act :=
  [.set (.ofAscii "a") [1] ⟨true, false⟩, .set (.ofAscii "a") [1] ⟨false, true⟩,
    .set (.ofAscii "b") [2] ⟨true, true⟩]

theorem setsOrFails_scarce : ∃ state, runs (step false) created scarce = some state ∧
    ∀ key value memory, SetsOrFails false state key value memory ↔
      Sound (.set key value memory) state :=
  @setsOrFails_iff false scarce (by decide +kernel)

/-- The first node of a map, without memory for the array that it belongs to. -/
theorem mapSet_nowhere : mapSet false ⟨false, true⟩ mapInit (.ofAscii "a") [1] = none ∧
    ¬ SetsOrFails false created (.ofAscii "a") [1] ⟨false, true⟩ := by
  refine ⟨rfl, fun ⟨ret, map, done, _⟩ => ?_⟩
  cases done

end Failing

end Hdf.HashMap
