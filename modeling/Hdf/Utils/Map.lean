import Hdf.Lib.Buckets
import Hdf.Lib.Runs
import Hdf.Utils.CString
import Mathlib.Data.Int.Notation
import Mathlib.Data.Nat.Bitwise
import Mathlib.Logic.Function.Basic

/-!
# Maps from strings to values

A map keeps its nodes in buckets. The hash of the key selects the bucket, and the
number of buckets is a power of two that grows with the number of nodes. A value
has a size of its own, which an update must not change.

The number of nodes is a counter of 32 bits. Up to there a map refines a finite
map: a key has the value that the latest successful call gave it.

## Main definitions

* `Map`, `mapSet`, `mapGet`, `mapErase`: the map and the calls
* `Act`, `step`: histories of calls, with the values that the latest ones gave
* `Refines`: what a map has in common with these values

## Main results

* `refines_of_runs`: every history during which the counter has room refines them
* `forgets_at_limit`: a history at whose end the map has lost everything
-/

namespace Hdf.HashMap

open KeyedList Buckets

/-- `struct MapNode`. The size of a value is the length of its bytes. -/
structure MapNode where
  hash : UInt32
  key : CString
  value : List UInt8

/-- `Map`. No buckets stand for a null pointer. -/
structure Map where
  nodes : List (List MapNode)
  nodeSize : UInt32
  bucketSize : UInt32

def HDF_SUCCESS : ℤ := 0
def HDF_FAILURE : ℤ := -1
def HDF_ERR_INVALID_PARAM : ℤ := -3
def HDF_ERR_INVALID_OBJECT : ℤ := -4

def HDF_MIN_MAP_SIZE : UInt32 := 8
def HDF_ENLARGE_FACTOR : UInt32 := 2
def HDF_MAP_KEY_MAX_SIZE : ℕ := 1000
def HDF_MAP_VALUE_MAX_SIZE : ℕ := 1000

variable (charSigned : Bool)

/-- `MapHash`. -/
def mapHash (key : CString) : UInt32 := hashLoop charSigned key &&& 0x7fffffff

/-- `MapHashIdx`. -/
def mapHashIdx (bucketSize hash : UInt32) : ℕ := (hash &&& (bucketSize - 1)).toNat

/-- The bucket that a node belongs to. -/
def placeIn (bucketSize : UInt32) (node : MapNode) : ℕ := mapHashIdx bucketSize node.hash

/-- What the loops over a bucket compare. -/
def hashedKey (node : MapNode) : UInt32 × CString := (node.hash, node.key)

/-- `MapAddNode`. There is no result when the bucket lies outside the array. -/
def mapAddNode (map : Map) (node : MapNode) : Option Map :=
  (add (placeIn map.bucketSize) map.nodes node).map fun nodes => { map with nodes }

/-- `MapResize`. An allocation of no bytes fails and leaves the map alone. -/
def mapResize (map : Map) (size : UInt32) : Option Map :=
  if size = 0 then some map
  else map.nodes.flatten.foldlM mapAddNode
    { map with nodes := List.replicate size.toNat [], bucketSize := size }

/-- The size that `MapSet` enlarges the buckets to. -/
def enlargedSize (bucketSize : UInt32) : UInt32 :=
  if bucketSize < HDF_MIN_MAP_SIZE then HDF_MIN_MAP_SIZE else bucketSize <<< HDF_ENLARGE_FACTOR

/-- The part of `MapSet` that enlarges the buckets. -/
def mapEnlarge (map : Map) : Option Map :=
  if map.bucketSize ≤ map.nodeSize then mapResize map (enlargedSize map.bucketSize) else some map

/-- The part of `MapSet` that puts in a new node. -/
def mapInsert (map : Map) (key : CString) (value : List UInt8) : Option (ℤ × Map) := do
  let map ← mapEnlarge map
  let map ← mapAddNode map ⟨mapHash charSigned key, key, value⟩
  some (HDF_SUCCESS, { map with nodeSize := map.nodeSize + 1 })

/-- `MapSet`, with what it returns and the map it leaves. -/
def mapSet (map : Map) (key : CString) (value : List UInt8) : Option (ℤ × Map) :=
  if value.length = 0 then some (HDF_ERR_INVALID_PARAM, map)
  else if HDF_MAP_KEY_MAX_SIZE < value.length ∨ HDF_MAP_VALUE_MAX_SIZE < key.length then
    some (HDF_ERR_INVALID_PARAM, map)
  else
    let hash := mapHash charSigned key
    if 0 < map.nodeSize ∧ map.nodes ≠ [] then do
      let idx := mapHashIdx map.bucketSize hash
      let bucket ← map.nodes[idx]?
      match search hashedKey (hash, key) bucket with
      | none => mapInsert charSigned map key value
      | some node =>
        if node.value.length ≠ value.length then some (HDF_ERR_INVALID_OBJECT, map)
        else
          let nodes := map.nodes.modify idx (update hashedKey (hash, key) ({ · with value }))
          some (HDF_SUCCESS, { map with nodes })
    else mapInsert charSigned map key value

/-- `MapGet`. The outer option says whether the access is inside the array. -/
def mapGet (map : Map) (key : CString) : Option (Option (List UInt8)) :=
  if map.nodeSize = 0 ∨ map.nodes = [] then some none
  else do
    let hash := mapHash charSigned key
    let bucket ← map.nodes[mapHashIdx map.bucketSize hash]?
    some ((search hashedKey (hash, key) bucket).map (·.value))

/-- `MapErase`, with what it returns and the map it leaves. -/
def mapErase (map : Map) (key : CString) : Option (ℤ × Map) :=
  if map.nodeSize = 0 ∨ map.nodes = [] then some (HDF_ERR_INVALID_PARAM, map)
  else do
    let hash := mapHash charSigned key
    let idx := mapHashIdx map.bucketSize hash
    let bucket ← map.nodes[idx]?
    match search hashedKey (hash, key) bucket with
    | none => some (HDF_FAILURE, map)
    | some _ =>
      some (HDF_SUCCESS,
        { map with
          nodes := map.nodes.modify idx (remove hashedKey (hash, key))
          nodeSize := map.nodeSize - 1 })

/-- `MapInit`. -/
def mapInit : Map := ⟨[], 0, 0⟩

/-! ### Histories -/

/-- A call on a map. -/
inductive Act
  | set (key : CString) (value : List UInt8)
  | erase (key : CString)
  | get (key : CString)

/-- A map after a history, with the value that the latest successful calls have given to
each key. -/
structure State where
  map : Map
  contents : CString → Option (List UInt8)

def created : State := ⟨mapInit, fun _ => none⟩

/-- A call, with the record of what it has given to its key when it succeeds. -/
def step : Act → State → Option State
  | .set key value, state => do
    let (ret, map) ← mapSet charSigned state.map key value
    some ⟨map, if ret = HDF_SUCCESS then Function.update state.contents key (some value)
      else state.contents⟩
  | .erase key, state => do
    let (ret, map) ← mapErase charSigned state.map key
    some ⟨map, if ret = HDF_SUCCESS then Function.update state.contents key none
      else state.contents⟩
  | .get key, state => do
    let _ ← mapGet charSigned state.map key
    some state

/-- What a map has in common with the values that the latest calls have given. -/
structure Refines (state : State) : Prop where
  get_eq : ∀ key, mapGet charSigned state.map key = some (state.contents key)
  set_fails : ∀ key value old, state.contents key = some old → old.length ≠ value.length →
    ∃ ret, ret ≠ HDF_SUCCESS ∧ mapSet charSigned state.map key value = some (ret, state.map)
  counts : ∃ keys : List CString, keys.Nodup ∧
    (∀ key, key ∈ keys ↔ (state.contents key).isSome) ∧ state.map.nodeSize.toNat = keys.length
  bucketSize : state.map.bucketSize = 0 ∨ ∃ e, state.map.bucketSize.toNat = 2 ^ e
  placed : ∀ idx bucket, state.map.nodes[idx]? = some bucket → ∀ node ∈ bucket,
    mapHashIdx state.map.bucketSize (mapHash charSigned node.key) = idx

/-- The counter of nodes has room for one more when a new key is set. -/
def Roomy : Act → State → Prop
  | .set key _, state => state.contents key = none → state.map.nodeSize.toNat + 1 < 2 ^ 32
  | _, _ => True

instance (act : Act) (state : State) : Decidable (Roomy act state) :=
  match act with
  | .set _ _ => inferInstanceAs (Decidable (_ → _))
  | .erase _ => inferInstanceAs (Decidable True)
  | .get _ => inferInstanceAs (Decidable True)

/-! ### What every call keeps -/

/-- A map between two calls of a history. -/
structure Kept (state : State) : Prop where
  sized : state.map.nodes.length = state.map.bucketSize.toNat
  shape : state.map.bucketSize = 0 ∨ ∃ e, state.map.bucketSize.toNat = 2 ^ e
  placed : Placed (placeIn state.map.bucketSize) state.map.nodes
  hashed : ∀ node ∈ state.map.nodes.flatten, node.hash = mapHash charSigned node.key
  unique : (state.map.nodes.flatten.map (·.key)).Nodup
  counted : state.map.nodeSize.toNat = state.map.nodes.flatten.length
  holds : ∀ key, state.contents key =
    (search (·.key) key state.map.nodes.flatten).map (·.value)

theorem kept_created : Kept charSigned created := by
  refine ⟨rfl, .inl rfl, ?_, ?_, List.nodup_nil, rfl, fun _ => rfl⟩
  · exact fun i bucket found => absurd found nofun
  · exact fun node member => absurd member List.not_mem_nil

theorem mapHashIdx_lt {bucketSize hash : UInt32} {e : ℕ} (power : bucketSize.toNat = 2 ^ e) :
    mapHashIdx bucketSize hash < bucketSize.toNat := by
  have positive : 1 ≤ bucketSize := by
    rw [UInt32.le_iff_toNat_le, power]
    exact Nat.one_le_two_pow
  rw [mapHashIdx, UInt32.toNat_and, UInt32.toNat_sub_of_le _ _ positive, power, UInt32.toNat_one,
    Nat.and_two_pow_sub_one_eq_mod]
  exact Nat.mod_lt _ (Nat.two_pow_pos e)

variable {charSigned} {state : State} {key : CString} {value : List UInt8}

namespace Kept

variable (kept : Kept charSigned state)

include kept

theorem hashedKey_iff {node : MapNode} (member : node ∈ state.map.nodes.flatten) :
    hashedKey node = (mapHash charSigned key, key) ↔ node.key = key := by
  rw [hashedKey, Prod.mk.injEq, kept.hashed node member]
  exact and_iff_right_of_imp fun same => congrArg _ same

/-- A key is only looked for in the bucket of its hash. -/
theorem only : Only (·.key) key (mapHashIdx state.map.bucketSize (mapHash charSigned key))
    state.map.nodes := by
  refine kept.placed.only fun node member same => ?_
  rw [placeIn, kept.hashed node member, same]

/-- The bucket of a hash is there as soon as there are buckets. -/
theorem exists_bucket (hash : UInt32) (some_buckets : state.map.nodes ≠ []) :
    ∃ bucket, state.map.nodes[mapHashIdx state.map.bucketSize hash]? = some bucket := by
  have inside : mapHashIdx state.map.bucketSize hash < state.map.nodes.length := by
    rw [kept.sized]
    rcases kept.shape with zero | ⟨e, power⟩
    · exact absurd (List.length_eq_zero_iff.mp (kept.sized.trans (by rw [zero]; rfl))) some_buckets
    · exact mapHashIdx_lt power
  exact ⟨_, List.getElem?_eq_getElem inside⟩

theorem search_eq {bucket : List MapNode}
    (found : state.map.nodes[mapHashIdx state.map.bucketSize (mapHash charSigned key)]? =
      some bucket) :
    search hashedKey (mapHash charSigned key, key) bucket =
      search (·.key) key state.map.nodes.flatten := by
  rw [← search_bucket kept.only found]
  exact search_congr fun node member =>
    kept.hashedKey_iff (List.mem_flatten_of_mem (List.mem_of_getElem? found) member)

theorem flatten_eq_nil (empty : state.map.nodeSize = 0 ∨ state.map.nodes = []) :
    state.map.nodes.flatten = [] := by
  rcases empty with zero | none_there
  · rw [← List.length_eq_zero_iff, ← kept.counted, zero]
    rfl
  · rw [none_there]
    rfl

theorem get_eq (key : CString) :
    mapGet charSigned state.map key = some (state.contents key) := by
  rw [mapGet, kept.holds]
  split
  · rename_i empty
    rw [kept.flatten_eq_nil empty]
    rfl
  · rename_i filled
    obtain ⟨bucket, found⟩ :=
      kept.exists_bucket (mapHash charSigned key) fun none_there => filled (.inr none_there)
    simp only [found, Option.bind_eq_bind, Option.bind_some, kept.search_eq found]

/-- Looking for a key in its bucket is looking for it in the whole map. -/
theorem lookup_eq {β : Type} (absent : Option β) (found : MapNode → Option β) :
    (if 0 < state.map.nodeSize ∧ state.map.nodes ≠ [] then do
        let bucket ← state.map.nodes[mapHashIdx state.map.bucketSize (mapHash charSigned key)]?
        match search hashedKey (mapHash charSigned key, key) bucket with
        | none => absent
        | some node => found node
      else absent) =
      match search (·.key) key state.map.nodes.flatten with
      | none => absent
      | some node => found node := by
  by_cases filled : 0 < state.map.nodeSize ∧ state.map.nodes ≠ []
  · obtain ⟨bucket, there⟩ := kept.exists_bucket (mapHash charSigned key) filled.2
    simp only [if_pos filled, there, Option.bind_eq_bind, Option.bind_some, kept.search_eq there]
  · have empty : state.map.nodeSize = 0 ∨ state.map.nodes = [] := by
      by_contra neither
      rw [not_or] at neither
      exact filled ⟨UInt32.pos_iff_ne_zero.mpr neither.1, neither.2⟩
    rw [kept.flatten_eq_nil empty]
    exact if_neg filled

/-- What `MapSet` does with sizes that are allowed. -/
theorem mapSet_eq (some_value : value.length ≠ 0)
    (allowed : ¬ (HDF_MAP_KEY_MAX_SIZE < value.length ∨ HDF_MAP_VALUE_MAX_SIZE < key.length)) :
    mapSet charSigned state.map key value =
      match search (·.key) key state.map.nodes.flatten with
      | none => mapInsert charSigned state.map key value
      | some node =>
        if node.value.length ≠ value.length then some (HDF_ERR_INVALID_OBJECT, state.map)
        else
          some (HDF_SUCCESS, { state.map with
            nodes := state.map.nodes.modify
              (mapHashIdx state.map.bucketSize (mapHash charSigned key))
              (update hashedKey (mapHash charSigned key, key) ({ · with value })) }) := by
  rw [mapSet, if_neg some_value, if_neg allowed]
  exact kept.lookup_eq _ _

/-! ### The three ways a map changes -/

/-- A new value of the same key. -/
theorem update {node : MapNode} (found : search (·.key) key state.map.nodes.flatten = some node) :
    Kept charSigned
      ⟨{ state.map with
          nodes := state.map.nodes.modify
            (mapHashIdx state.map.bucketSize (mapHash charSigned key))
            (KeyedList.update hashedKey (mapHash charSigned key, key) ({ · with value })) },
        Function.update state.contents key (some value)⟩ := by
  have filled : state.map.nodes ≠ [] := fun none_there => by
    rw [none_there] at found
    cases found
  obtain ⟨bucket, there⟩ := kept.exists_bucket (mapHash charSigned key) filled
  have plain : KeyedList.update hashedKey (mapHash charSigned key, key) ({ · with value }) bucket =
      KeyedList.update MapNode.key key ({ · with value }) bucket :=
    update_congr fun node member => kept.hashedKey_iff
      (List.mem_flatten_of_mem (List.mem_of_getElem? there) member)
  rw [modify_congr there plain]
  have flat := update_bucket (f := ({ · with value })) kept.only there
  have keeps : ∀ node : MapNode, node.key = key → { node with value }.key = key :=
    fun _ same => same
  have keys : (KeyedList.update MapNode.key key ({ · with value })
      state.map.nodes.flatten).map (·.key) = state.map.nodes.flatten.map (·.key) :=
    map_key_update keeps
  refine ⟨(List.length_modify ..).trans kept.sized, kept.shape, ?_, ?_, ?_, ?_, fun key' => ?_⟩
  · refine kept.placed.modify fun bucket' there' node member => ?_
    rcases mem_update member with old | ⟨old, searched, rfl⟩
    · exact kept.placed _ bucket' there' node old
    · exact kept.placed _ bucket' there' old (mem_of_search searched)
  · rw [flat]
    intro node member
    rcases mem_update member with old | ⟨old, searched, rfl⟩
    · exact kept.hashed node old
    · exact kept.hashed old (mem_of_search searched)
  · rw [flat, keys]
    exact kept.unique
  · rw [flat, kept.counted]
    have lengths := congrArg List.length keys
    rw [List.length_map, List.length_map] at lengths
    exact lengths.symm
  · change Function.update state.contents key (some value) key' = _
    rw [flat]
    by_cases same : key' = key
    · subst same
      rw [Function.update_self, search_update_self keeps, found]
      rfl
    · rw [Function.update_of_ne same, search_update_ne keeps same, kept.holds]

/-- A key that is taken out. -/
theorem erase {node : MapNode} (found : search (·.key) key state.map.nodes.flatten = some node) :
    Kept charSigned
      ⟨{ state.map with
          nodes := state.map.nodes.modify
            (mapHashIdx state.map.bucketSize (mapHash charSigned key))
            (remove hashedKey (mapHash charSigned key, key))
          nodeSize := state.map.nodeSize - 1 },
        Function.update state.contents key none⟩ := by
  have filled : state.map.nodes ≠ [] := fun none_there => by
    rw [none_there] at found
    cases found
  obtain ⟨bucket, there⟩ := kept.exists_bucket (mapHash charSigned key) filled
  have plain : remove hashedKey (mapHash charSigned key, key) bucket =
      remove MapNode.key key bucket :=
    remove_congr fun node member => kept.hashedKey_iff
      (List.mem_flatten_of_mem (List.mem_of_getElem? there) member)
  rw [modify_congr there plain]
  have flat := remove_bucket kept.only there
  have member := mem_of_search found
  refine ⟨(List.length_modify ..).trans kept.sized, kept.shape, ?_, ?_, ?_, ?_, fun key' => ?_⟩
  · exact kept.placed.modify fun bucket' there' node member =>
      kept.placed _ bucket' there' node (List.mem_of_mem_eraseP member)
  · rw [flat]
    exact fun node member => kept.hashed node (List.mem_of_mem_eraseP member)
  · rw [flat]
    exact kept.unique.sublist map_key_remove_sublist
  · have positive : 0 < state.map.nodes.flatten.length := List.length_pos_of_mem member
    have one : (1 : UInt32) ≤ state.map.nodeSize := by
      rw [UInt32.le_iff_toNat_le, kept.counted]
      exact positive
    rw [flat, UInt32.toNat_sub_of_le _ _ one, kept.counted, remove,
      List.length_eraseP_of_mem member (decide_eq_true (key_of_search found))]
    rfl
  · change Function.update state.contents key none key' = _
    rw [flat]
    by_cases same : key' = key
    · subst same
      rw [Function.update_self, search_remove_self kept.unique]
      rfl
    · rw [Function.update_of_ne same, search_remove_ne same, kept.holds]

omit kept in
theorem foldlM_mapAddNode (nodes : List MapNode) (map : Map) :
    nodes.foldlM mapAddNode map =
      (rehash (placeIn map.bucketSize) nodes map.nodes).map fun nodes => { map with nodes } := by
  induction nodes generalizing map with
  | nil => rfl
  | cons node nodes ih =>
    rw [List.foldlM_cons, rehash, List.foldlM_cons, mapAddNode]
    cases add (placeIn map.bucketSize) map.nodes node with
    | none => rfl
    | some table => exact ih { map with nodes := table }

/-- The same nodes in other buckets. -/
theorem rearrange {table : List (List MapNode)} {bucketSize : UInt32}
    (sized : table.length = bucketSize.toNat)
    (shape : bucketSize = 0 ∨ ∃ e, bucketSize.toNat = 2 ^ e)
    (placed : Placed (placeIn bucketSize) table)
    (perm : table.flatten.Perm state.map.nodes.flatten) :
    Kept charSigned ⟨⟨table, state.map.nodeSize, bucketSize⟩, state.contents⟩ := by
  refine ⟨sized, shape, placed, fun node member => kept.hashed node (perm.mem_iff.mp member),
    (perm.map _).nodup_iff.mpr kept.unique, kept.counted.trans perm.length_eq.symm, fun key => ?_⟩
  rw [kept.holds]
  exact congrArg _ (search_perm kept.unique perm.symm)

/-- The number of buckets after growing is a power of two. An overflow makes it zero, and
then the map is left alone. -/
theorem resize {size : UInt32} (shape : size = 0 ∨ ∃ e, size.toNat = 2 ^ e) :
    ∃ map, mapResize state.map size = some map ∧ map.nodeSize = state.map.nodeSize ∧
      map.bucketSize = (if size = 0 then state.map.bucketSize else size) ∧
      map.nodes.flatten.Perm state.map.nodes.flatten ∧ Kept charSigned ⟨map, state.contents⟩ := by
  rw [mapResize]
  split
  · exact ⟨state.map, rfl, rfl, rfl, .refl _, kept⟩
  · rename_i nonzero
    obtain ⟨e, power⟩ := shape.resolve_left nonzero
    rw [foldlM_mapAddNode]
    obtain ⟨table, moved, sized, placed, perm⟩ :=
      @rehash_spec _ (placeIn size) (List.replicate size.toNat []) state.map.nodes.flatten
        (fun node _ => by rw [List.length_replicate]; exact mapHashIdx_lt power)
        (placed_replicate _)
    rw [List.length_replicate] at sized
    rw [List.flatten_replicate_nil, List.append_nil] at perm
    rw [moved]
    exact ⟨_, rfl, rfl, rfl, perm, kept.rearrange sized shape placed perm⟩

omit kept in
theorem enlargedSize_shape {bucketSize : UInt32}
    (shape : bucketSize = 0 ∨ ∃ e, bucketSize.toNat = 2 ^ e) :
    enlargedSize bucketSize = 0 ∨ ∃ e, (enlargedSize bucketSize).toNat = 2 ^ e := by
  rw [enlargedSize]
  split
  · exact .inr ⟨3, rfl⟩
  · rename_i large
    rcases shape with rfl | ⟨e, power⟩
    · exact absurd (by decide) large
    · have value : (bucketSize <<< HDF_ENLARGE_FACTOR).toNat = 2 ^ (e + 2) % 2 ^ 32 := by
        rw [UInt32.toNat_shiftLeft, power, Nat.shiftLeft_eq, ← Nat.pow_add]
        rfl
      by_cases fits : e + 2 < 32
      · exact .inr ⟨e + 2, value.trans (Nat.mod_eq_of_lt (Nat.pow_lt_pow_right (by decide) fits))⟩
      · refine .inl (UInt32.toNat_inj.mp (value.trans ?_))
        exact Nat.mod_eq_zero_of_dvd (Nat.pow_dvd_pow 2 (Nat.not_lt.mp fits))

/-- Before a node is put in, the number of buckets is a power of two. -/
theorem enlarge : ∃ map, mapEnlarge state.map = some map ∧ map.nodeSize = state.map.nodeSize ∧
    (∃ e, map.bucketSize.toNat = 2 ^ e) ∧ map.nodes.flatten.Perm state.map.nodes.flatten ∧
    Kept charSigned ⟨map, state.contents⟩ := by
  rw [mapEnlarge]
  split
  · obtain ⟨map, resized, counter, size, perm, kept'⟩ :=
      kept.resize (enlargedSize_shape kept.shape)
    refine ⟨map, resized, counter, ?_, perm, kept'⟩
    rw [size]
    split
    · -- the shift overflows only when there are buckets already
      rename_i overflow
      refine kept.shape.resolve_left fun zero => absurd overflow ?_
      rw [zero]
      decide
    · exact (enlargedSize_shape kept.shape).resolve_left (by assumption)
  · rename_i enough
    refine ⟨state.map, rfl, rfl, kept.shape.resolve_left fun zero => enough ?_, .refl _, kept⟩
    rw [zero]
    exact UInt32.zero_le

/-- A node that is put into an array of buckets. -/
theorem added {e : ℕ} (power : state.map.bucketSize.toNat = 2 ^ e) (key : CString)
    (value : List UInt8) :
    ∃ table, mapAddNode state.map ⟨mapHash charSigned key, key, value⟩ =
        some { state.map with nodes := table } ∧ table.length = state.map.bucketSize.toNat ∧
      Placed (placeIn state.map.bucketSize) table ∧
      table.flatten.Perm (⟨mapHash charSigned key, key, value⟩ :: state.map.nodes.flatten) := by
  obtain ⟨table, added, sized, placed, holds⟩ :=
    @add_spec _ (placeIn state.map.bucketSize) state.map.nodes ⟨mapHash charSigned key, key, value⟩
      (kept.sized ▸ mapHashIdx_lt power) kept.placed
  refine ⟨table, ?_, sized.trans kept.sized, placed, holds⟩
  rw [mapAddNode, added]
  rfl

/-- The map with room for a node, and the node put in. -/
theorem inserted (key : CString) (value : List UInt8) :
    ∃ table bucketSize, mapInsert charSigned state.map key value =
        some (HDF_SUCCESS, ⟨table, state.map.nodeSize + 1, bucketSize⟩) ∧
      table.length = bucketSize.toNat ∧ (∃ e, bucketSize.toNat = 2 ^ e) ∧
      Placed (placeIn bucketSize) table ∧
      table.flatten.Perm (⟨mapHash charSigned key, key, value⟩ :: state.map.nodes.flatten) := by
  obtain ⟨map, grown, counter, ⟨e, power⟩, perm, kept'⟩ := kept.enlarge
  obtain ⟨table, added, sized, placed, holds⟩ := kept'.added power key value
  refine ⟨table, map.bucketSize, ?_, sized, ⟨e, power⟩, placed, holds.trans (.cons _ perm)⟩
  rw [mapInsert, grown, Option.bind_eq_bind, Option.bind_some, added, ← counter]
  rfl

/-- A map with one node more, while the counter has room. -/
theorem of_added {table : List (List MapNode)} {bucketSize : UInt32}
    (roomy : state.map.nodeSize.toNat + 1 < 2 ^ 32)
    (absent : search (·.key) key state.map.nodes.flatten = none)
    (sized : table.length = bucketSize.toNat) (power : ∃ e, bucketSize.toNat = 2 ^ e)
    (placed : Placed (placeIn bucketSize) table)
    (perm : table.flatten.Perm
      (⟨mapHash charSigned key, key, value⟩ :: state.map.nodes.flatten)) :
    Kept charSigned ⟨⟨table, state.map.nodeSize + 1, bucketSize⟩,
      Function.update state.contents key (some value)⟩ := by
  have unique : ((⟨mapHash charSigned key, key, value⟩ :: state.map.nodes.flatten :
      List MapNode).map (·.key)).Nodup :=
    List.nodup_cons.mpr ⟨search_eq_none_iff.mp absent, kept.unique⟩
  refine ⟨sized, .inr power, placed, fun node member => ?_, (perm.map _).nodup_iff.mpr unique, ?_,
    fun key' => ?_⟩
  · rcases List.mem_cons.mp (perm.mem_iff.mp member) with rfl | old
    · rfl
    · exact kept.hashed node old
  · change (state.map.nodeSize + 1).toNat = _
    rw [perm.length_eq, List.length_cons, ← kept.counted, UInt32.toNat_add,
      UInt32.toNat_one, Nat.mod_eq_of_lt roomy]
  · change Function.update state.contents key (some value) key' = _
    rw [← search_perm unique perm.symm, search_cons]
    by_cases same : key' = key
    · rw [same, Function.update_self, if_pos rfl]
      rfl
    · rw [Function.update_of_ne same, if_neg (Ne.symm same), kept.holds]

/-- A new key, while the counter has room. -/
theorem insert (roomy : state.map.nodeSize.toNat + 1 < 2 ^ 32)
    (absent : search (·.key) key state.map.nodes.flatten = none) :
    ∃ map, mapInsert charSigned state.map key value = some (HDF_SUCCESS, map) ∧
      map.nodeSize = state.map.nodeSize + 1 ∧
      Kept charSigned ⟨map, Function.update state.contents key (some value)⟩ := by
  obtain ⟨table, bucketSize, done, sized, power, placed, perm⟩ := kept.inserted key value
  exact ⟨_, done, rfl, kept.of_added roomy absent sized power placed perm⟩

/-- A value that is set, or a call that fails and changes nothing. -/
theorem set (key : CString) (value : List UInt8) (roomy : Roomy (.set key value) state) :
    ∃ ret map, mapSet charSigned state.map key value = some (ret, map) ∧
      (ret ≠ HDF_SUCCESS → map = state.map) ∧
      (ret = HDF_SUCCESS →
        Kept charSigned ⟨map, Function.update state.contents key (some value)⟩) := by
  by_cases some_value : value.length ≠ 0
  · by_cases allowed :
        ¬ (HDF_MAP_KEY_MAX_SIZE < value.length ∨ HDF_MAP_VALUE_MAX_SIZE < key.length)
    · rw [kept.mapSet_eq some_value allowed]
      cases found : search (·.key) key state.map.nodes.flatten with
      | none =>
        have absent : state.contents key = none := by
          rw [kept.holds, found]
          rfl
        obtain ⟨map, done, -, kept'⟩ := kept.insert (roomy absent) found
        exact ⟨_, map, done, fun failed => absurd rfl failed, fun _ => kept'⟩
      | some node =>
        simp only
        split
        · exact ⟨_, _, rfl, fun _ => rfl, fun success => absurd success (by decide)⟩
        · exact ⟨_, _, rfl, fun failed => absurd rfl failed, fun _ => kept.update found⟩
    · rw [mapSet, if_neg some_value, if_pos (not_not.mp allowed)]
      exact ⟨_, _, rfl, fun _ => rfl, fun success => absurd success (by decide)⟩
  · rw [mapSet, if_pos (not_not.mp some_value)]
    exact ⟨_, _, rfl, fun _ => rfl, fun success => absurd success (by decide)⟩

theorem erased (key : CString) :
    ∃ ret map, mapErase charSigned state.map key = some (ret, map) ∧
      (ret ≠ HDF_SUCCESS → map = state.map) ∧
      (ret = HDF_SUCCESS → Kept charSigned ⟨map, Function.update state.contents key none⟩) := by
  rw [mapErase]
  split
  · exact ⟨_, _, rfl, fun _ => rfl, fun success => absurd success (by decide)⟩
  · rename_i filled
    obtain ⟨bucket, there⟩ :=
      kept.exists_bucket (mapHash charSigned key) fun none_there => filled (.inr none_there)
    simp only [there, Option.bind_eq_bind, Option.bind_some, kept.search_eq there]
    cases found : search (·.key) key state.map.nodes.flatten with
    | none => exact ⟨_, _, rfl, fun _ => rfl, fun success => absurd success (by decide)⟩
    | some node => exact ⟨_, _, rfl, fun failed => absurd rfl failed, fun _ => kept.erase found⟩

/-- Every call of a history has a result, and keeps the map in order. -/
theorem step (act : Act) (roomy : Roomy act state) :
    ∃ after, HashMap.step charSigned act state = some after ∧ Kept charSigned after := by
  cases act with
  | set key value =>
    obtain ⟨ret, map, done, failed, succeeded⟩ := kept.set key value roomy
    rw [HashMap.step, done]
    refine ⟨_, rfl, ?_⟩
    by_cases success : ret = HDF_SUCCESS
    · rw [if_pos success]
      exact succeeded success
    · rw [if_neg success, failed success]
      exact kept
  | erase key =>
    obtain ⟨ret, map, done, failed, succeeded⟩ := kept.erased key
    rw [HashMap.step, done]
    refine ⟨_, rfl, ?_⟩
    by_cases success : ret = HDF_SUCCESS
    · rw [if_pos success]
      exact succeeded success
    · rw [if_neg success, failed success]
      exact kept
  | get key =>
    rw [HashMap.step, kept.get_eq]
    exact ⟨state, rfl, kept⟩

/-- A value of another size is refused. -/
theorem set_fails {old : List UInt8} (given : state.contents key = some old)
    (differs : old.length ≠ value.length) :
    ∃ ret, ret ≠ HDF_SUCCESS ∧ mapSet charSigned state.map key value = some (ret, state.map) := by
  by_cases some_value : value.length = 0
  · rw [mapSet, if_pos some_value]
    exact ⟨_, by decide, rfl⟩
  · by_cases large : HDF_MAP_KEY_MAX_SIZE < value.length ∨ HDF_MAP_VALUE_MAX_SIZE < key.length
    · rw [mapSet, if_neg some_value, if_pos large]
      exact ⟨_, by decide, rfl⟩
    · rw [kept.holds] at given
      obtain ⟨node, found, rfl⟩ := Option.map_eq_some_iff.mp given
      simp only [kept.mapSet_eq some_value large, found, if_pos differs]
      exact ⟨_, by decide, rfl⟩

/-- A map in order refines the values that the latest calls have given. -/
theorem refines : Refines charSigned state := by
  refine ⟨kept.get_eq, fun _ _ _ given differs => kept.set_fails given differs, ?_, kept.shape, ?_⟩
  · refine ⟨state.map.nodes.flatten.map (·.key), kept.unique, fun key => ?_, ?_⟩
    · rw [kept.holds, Option.isSome_map, search_isSome_iff]
    · rw [kept.counted, List.length_map]
  · intro idx bucket found node member
    rw [← kept.hashed node (List.mem_flatten_of_mem (List.mem_of_getElem? found) member)]
    exact kept.placed idx bucket found node member

end Kept

/-- After every history during which the counter of nodes has room, the map refines the
values that the latest successful calls have given. -/
theorem refines_of_runs (acts : List Act)
    (roomy : Meets (step charSigned) Roomy created acts) :
    ∃ after, runs (step charSigned) created acts = some after ∧ Refines charSigned after :=
  let ⟨after, ran, kept⟩ := exists_runs (fun act _ kept roomy => Kept.step kept act roomy)
    (kept_created charSigned) roomy
  ⟨after, ran, kept.refines⟩

/-- Two keys, one of them given a new value and the other taken out again. -/
def sets : List Act :=
  [.set (.ofAscii "a") [1], .set (.ofAscii "b") [2], .set (.ofAscii "a") [3],
    .get (.ofAscii "a"), .set (.ofAscii "a") [4, 5], .erase (.ofAscii "b")]

theorem refines_sets :
    ∃ after, runs (step false) created sets = some after ∧ Refines false after :=
  @refines_of_runs false sets (by decide +kernel)

/-! ### The limit of the counter -/

/-- The bits of a number, in characters. -/
def keyOf (i : ℕ) : CString :=
  ⟨(List.range 32).map fun b => if i.testBit b then 1 else 2, fun zero => by
    obtain ⟨b, -, same⟩ := List.mem_map.mp zero
    split at same <;> cases same⟩

theorem keyOf_inj {i j : ℕ} (i_fits : i < 2 ^ 32) (j_fits : j < 2 ^ 32)
    (same : keyOf i = keyOf j) : i = j := by
  refine Nat.eq_of_testBit_eq fun b => ?_
  by_cases inside : b < 32
  · have bytes : (List.range 32).map (fun b => if i.testBit b then (1 : UInt8) else 2) =
        (List.range 32).map fun b => if j.testBit b then 1 else 2 := congrArg Subtype.val same
    have byte_inj : ∀ x y : Bool, (if x then (1 : UInt8) else 2) = (if y then 1 else 2) → x = y :=
      by decide
    exact byte_inj _ _ (List.map_inj_left.mp bytes b (List.mem_range.mpr inside))
  · rw [Nat.testBit_lt_two_pow, Nat.testBit_lt_two_pow]
    · exact j_fits.trans_le (Nat.pow_le_pow_right (by decide) (Nat.not_lt.mp inside))
    · exact i_fits.trans_le (Nat.pow_le_pow_right (by decide) (Nat.not_lt.mp inside))

theorem keyOf_allowed (i : ℕ) : ¬ (HDF_MAP_KEY_MAX_SIZE < [(0 : UInt8)].length ∨
    HDF_MAP_VALUE_MAX_SIZE < (keyOf i).length) := by
  rw [CString.length, keyOf, List.length_map, List.length_range]
  decide

/-- As many keys as a number says, each set once. -/
def flood (n : ℕ) : List Act := (List.range n).map fun i => .set (keyOf i) [0]

theorem flood_succ (n : ℕ) : flood (n + 1) = flood n ++ [Act.set (keyOf n) [0]] := by
  rw [flood, List.range_succ, List.map_append]
  rfl

/-- While the counter has room, a flood of keys leaves them all in the map. -/
theorem flooded (charSigned : Bool) {n : ℕ} (fits : n < 2 ^ 32) :
    ∃ state, runs (step charSigned) created (flood n) = some state ∧ Kept charSigned state ∧
      state.map.nodeSize.toNat = n ∧
      ∀ i < 2 ^ 32, state.contents (keyOf i) = if i < n then some [0] else none := by
  induction n with
  | zero => exact ⟨created, rfl, kept_created charSigned, rfl, fun _ _ => rfl⟩
  | succ n ih =>
    obtain ⟨state, ran, kept, counter, contents⟩ := ih (n.lt_succ_self.trans fits)
    have absent : search (·.key) (keyOf n) state.map.nodes.flatten = none := by
      have nothing := contents n (n.lt_succ_self.trans fits)
      rw [if_neg n.lt_irrefl, kept.holds] at nothing
      exact Option.map_eq_none_iff.mp nothing
    obtain ⟨map, done, count, kept'⟩ :=
      @Kept.insert _ _ _ [0] kept (counter.symm ▸ fits) absent
    have set : mapSet charSigned state.map (keyOf n) [0] = some (HDF_SUCCESS, map) := by
      rw [kept.mapSet_eq (by decide) (keyOf_allowed n), absent, done]
    refine ⟨_, ?_, kept', ?_, fun i i_fits => ?_⟩
    · rw [flood_succ, runs_append, ran, Option.bind_some, runs_singleton, step, set]
      rfl
    · rw [count, UInt32.toNat_add, counter]
      exact Nat.mod_eq_of_lt fits
    · change Function.update state.contents (keyOf n) (some [0]) (keyOf i) = _
      by_cases last : i = n
      · rw [last, Function.update_self, if_pos n.lt_succ_self]
      · rw [Function.update_of_ne fun same => last (keyOf_inj i_fits (by omega) same),
          contents i i_fits]
        exact if_congr (by omega) rfl rfl

/-- The set of a new key when the counter has no room. -/
theorem overflows (charSigned : Bool) {n : ℕ} (full : n + 1 = 2 ^ 32) :
    ∃ after, runs (step charSigned) created (flood (n + 1)) = some after ∧
      after.contents (keyOf n) = some [0] ∧ after.map.nodeSize = 0 := by
  obtain ⟨state, ran, kept, counter, contents⟩ :=
    flooded charSigned (n.lt_succ_self.trans_eq full)
  have absent : search (·.key) (keyOf n) state.map.nodes.flatten = none := by
    have nothing := contents n (n.lt_succ_self.trans_eq full)
    rw [if_neg n.lt_irrefl, kept.holds] at nothing
    exact Option.map_eq_none_iff.mp nothing
  obtain ⟨table, bucketSize, done, -⟩ := kept.inserted (keyOf n) [0]
  have set : mapSet charSigned state.map (keyOf n) [0] =
      some (HDF_SUCCESS, ⟨table, state.map.nodeSize + 1, bucketSize⟩) := by
    rw [kept.mapSet_eq (by decide) (keyOf_allowed n), absent, done]
  refine ⟨⟨⟨table, state.map.nodeSize + 1, bucketSize⟩,
    Function.update state.contents (keyOf n) (some [0])⟩, ?_, Function.update_self .., ?_⟩
  · rw [flood_succ, runs_append, ran, Option.bind_some, runs_singleton, step, set]
    rfl
  · refine UInt32.toNat_inj.mp ?_
    rw [UInt32.toNat_add, counter, UInt32.toNat_one, full, Nat.mod_self]
    rfl

/-- With 2³² keys the counter is back at zero, and a key that has just been set is not
found. -/
theorem forgets_at_limit : ∃ after, runs (step false) created (flood (2 ^ 32)) = some after ∧
    after.contents (keyOf (2 ^ 32 - 1)) = some [0] ∧
    mapGet false after.map (keyOf (2 ^ 32 - 1)) = some none ∧ ¬ Refines false after := by
  obtain ⟨after, ran, given, zero⟩ := @overflows false (2 ^ 32 - 1) rfl
  have nothing : mapGet false after.map (keyOf (2 ^ 32 - 1)) = some none :=
    if_pos (.inl zero)
  refine ⟨after, ran, given, nothing, fun refines => ?_⟩
  have found := refines.get_eq (keyOf (2 ^ 32 - 1))
  rw [nothing, given] at found
  cases found

end Hdf.HashMap
