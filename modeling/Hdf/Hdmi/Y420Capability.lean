import Hdf.Hdmi.Edid

/-!
# The 4:2:0 capability map

Video data blocks list the formats of a sink. A capability map data block tells which of
them can also be sent with 4:2:0 sampling: bit `i % 8` of map byte `i / 8` belongs to the
format at index `i`, and without a map all formats can.

The length of the block counts the tag in front of the map, which the number of bits to be
looked at is computed from. Where there are more formats than the map has bits, the byte
behind the block is taken for one more map byte.

## Main results

* `y420Cmdb_eq`: what a map block adds
* `followsMap_iff`: when the map is followed
* `next_block_read`: a map byte too few
-/

namespace Hdf.Hdmi

/-! ### Video data blocks -/

/-- A format with a native bit: `HDMI_EDID_EXTENSION_VIC_NATIVE_MAX` is 64. -/
def nativeVic (data : UInt8) : Bool := bitMark data 7 && decide ((data &&& 0x7f).toNat < 64)

/-- The number of a format, without its native bit. -/
def vicOf (data : UInt8) : ℕ := if nativeVic data then (data &&& 0x7f).toNat else data.toNat

/-- The loop of `HdmiEdidExtVideoDataBlockPhase`, from index `i` on, with the passes that are
left. -/
def videoLoop (data : ℕ → UInt8) :
    ℕ → ℕ → ℕ → HdmiEdidVideoInfo → ℕ × HdmiEdidVideoInfo
  | 0, _, implicitNative, videoInfo => (implicitNative, videoInfo)
  | left + 1, i, implicitNative, videoInfo =>
    if maxVicCount ≤ videoInfo.vic.items.length then (implicitNative, videoInfo)
    else if data i = 0 then videoLoop data left (i + 1) implicitNative videoInfo
    else
      let nativeFormat :=
        if nativeVic (data i) ∧ videoInfo.nativeFormat = 0 then (data i &&& 0x7f).toNat
        else videoInfo.nativeFormat
      let implicitNative := if implicitNative = 0 then (data i).toNat else implicitNative
      videoLoop data left (i + 1) implicitNative
        { vic := videoInfo.vic.add (vicOf (data i)), nativeFormat := nativeFormat }

/-- `HdmiEdidExtVideoDataBlockPhase`. -/
def hdmiEdidExtVideoDataBlockPhase (sinkCap : HdmiSinkDeviceCapability) (data : ℕ → UInt8)
    (len : ℕ) : HdmiSinkDeviceCapability :=
  let (implicitNative, videoInfo) := videoLoop data len 0 0 sinkCap.videoInfo
  if videoInfo.nativeFormat = 0 then
    { sinkCap with videoInfo := { videoInfo with nativeFormat := implicitNative } }
  else { sinkCap with videoInfo := videoInfo }

/-! ### Capability maps -/

/-- The loops of `HdmiEdidExtUseExtDataBlockY420CmdbPhase`, from index `i` on: the formats that
pass a test are stored until there is no room. -/
def y420Loop (test : ℕ → Bool) (loop : ℕ) :
    List ℕ → ℕ → HdmiSinkDeviceCapability → HdmiSinkDeviceCapability
  | [], _, sinkCap => sinkCap
  | vic :: vics, i, sinkCap =>
    if loop ≤ i then sinkCap
    else if maxVicCount ≤ sinkCap.supportY420Format.items.length then sinkCap
    else if test i then
      y420Loop test loop vics (i + 1) { sinkCap with
        supportY420Format := sinkCap.supportY420Format.add vic
        ycbcr420 := true }
    else y420Loop test loop vics (i + 1) sinkCap

/-- `HdmiEdidExtUseExtDataBlockY420CmdbPhase`. The pointer is moved past the tag. -/
def hdmiEdidExtUseExtDataBlockY420CmdbPhase (sinkCap : HdmiSinkDeviceCapability)
    (data : ℕ → UInt8) (len : ℕ) : HdmiSinkDeviceCapability :=
  if len = 1 then
    y420Loop (fun _ => true) maxVicCount sinkCap.videoInfo.vic.items 0 sinkCap
  else
    let loop := len * 8
    let loop := if maxVicCount < loop then maxVicCount else loop
    y420Loop (fun i => bitMark (data (1 + i / 8)) (i % 8)) loop sinkCap.videoInfo.vic.items 0
      sinkCap

/-- The elements of a list whose index passes a test, in order. -/
def pick {α : Type*} (test : ℕ → Bool) (xs : List α) (i : ℕ) : List α :=
  ((xs.zipIdx i).filter fun x => test x.2).map Prod.fst

/-- The formats that a map of `m` bytes marks; without a map, all of them. -/
def capable (m : ℕ) (map : ℕ → UInt8) (vics : List ℕ) : List ℕ :=
  if m = 0 then vics
  else pick (fun i => decide (i < 8 * m) && bitMark (map (i / 8)) (i % 8)) vics 0

/-- The payload of a block has the map bytes behind its tag. -/
def HasMap (m : ℕ) (map data : ℕ → UInt8) : Prop := ∀ j < m, data (1 + j) = map j

/-- The formats that a map marks are stored in order, whatever stands around the map, and nothing
of the result depends on that. -/
structure FollowsMap (sinkCap : HdmiSinkDeviceCapability) (m : ℕ) (map : ℕ → UInt8) : Prop where
  stored : ∀ data, HasMap m map data →
    (hdmiEdidExtUseExtDataBlockY420CmdbPhase sinkCap data (m + 1)).supportY420Format.items =
      sinkCap.supportY420Format.items ++ capable m map sinkCap.videoInfo.vic.items
  independent : ∀ data data', HasMap m map data → HasMap m map data' →
    hdmiEdidExtUseExtDataBlockY420CmdbPhase sinkCap data (m + 1) =
      hdmiEdidExtUseExtDataBlockY420CmdbPhase sinkCap data' (m + 1)

/-! ## Picking by index -/

section

variable {α : Type*} {test test' : ℕ → Bool} {x : α} {xs ys : List α} {i : ℕ}

theorem pick_nil : pick test ([] : List α) i = [] := rfl

theorem pick_cons : pick test (x :: xs) i =
    if test i then x :: pick test xs (i + 1) else pick test xs (i + 1) := by
  rw [pick, List.zipIdx_cons, List.filter_cons]
  split <;> rfl

theorem pick_append : pick test (xs ++ ys) i = pick test xs i ++ pick test ys (i + xs.length) := by
  rw [pick, List.zipIdx_append, List.filter_append, List.map_append]
  rfl

theorem pick_congr (same : ∀ j, i ≤ j → j < i + xs.length → test j = test' j) :
    pick test xs i = pick test' xs i := by
  induction xs generalizing i with
  | nil => rfl
  | cons x xs ih =>
    rw [List.length_cons] at same
    rw [pick_cons, pick_cons, same i (by omega) (by omega),
      ih fun j after before => same j (by omega) (by omega)]

theorem pick_true : pick (fun _ => true) xs i = xs := by
  induction xs generalizing i with
  | nil => rfl
  | cons x xs ih => rw [pick_cons, if_pos rfl, ih]

theorem pick_false : pick (fun _ => false) xs i = [] := by
  induction xs generalizing i with
  | nil => rfl
  | cons x xs ih => rw [pick_cons, if_neg Bool.false_ne_true, ih]

theorem pick_take_drop {n : ℕ} (long : n ≤ xs.length) :
    pick test xs 0 = pick test (xs.take n) 0 ++ pick test (xs.drop n) n := by
  conv_lhs => rw [← List.take_append_drop n xs]
  rw [pick_append, Nat.zero_add, List.length_take_of_le long]

/-- Two tests that agree on the first indices, after which only one of them passes anything. -/
theorem pick_eq_append {n : ℕ} (low : ∀ j < n, test j = test' j)
    (high : ∀ j, n ≤ j → test' j = false) :
    pick test xs 0 = pick test' xs 0 ++ pick test (xs.drop n) n := by
  by_cases long : n ≤ xs.length
  · have first : pick test (xs.take n) 0 = pick test' (xs.take n) 0 := by
      refine pick_congr fun j _ before => low j ?_
      rwa [Nat.zero_add, List.length_take_of_le long] at before
    have none : pick test' (xs.drop n) n = [] :=
      (pick_congr fun j after _ => high j after).trans pick_false
    have split : pick test' xs 0 = pick test' (xs.take n) 0 ++ pick test' (xs.drop n) n :=
      pick_take_drop long
    rw [pick_take_drop long, split, none, List.append_nil, first]
  · rw [List.drop_eq_nil_of_le (by omega), pick_nil, List.append_nil]
    exact pick_congr fun j _ before => low j (by omega)

end

variable {test : ℕ → Bool} {loop m i : ℕ} {map data : ℕ → UInt8} {vics : List ℕ}
  {sinkCap : HdmiSinkDeviceCapability}

/-! ## What the blocks add -/

/-- Formats are stored as far as there is room, and 4:2:0 sampling is supported once one is. -/
def HdmiSinkDeviceCapability.addY420 (sinkCap : HdmiSinkDeviceCapability) (vics : List ℕ) :
    HdmiSinkDeviceCapability :=
  { sinkCap with
    supportY420Format := sinkCap.supportY420Format.addAll vics
    ycbcr420 := sinkCap.ycbcr420 ||
      decide (sinkCap.supportY420Format.items.length < maxVicCount) && decide (vics ≠ []) }

theorem y420Loop_eq : y420Loop test loop vics i sinkCap =
    sinkCap.addY420 (pick (fun j => decide (j < loop) && test j) vics i) := by
  rw [HdmiSinkDeviceCapability.addY420]
  induction vics generalizing i sinkCap with
  | nil => simp [y420Loop, pick_nil]
  | cons vic vics ih =>
    rw [y420Loop]
    by_cases last : loop ≤ i
    · have none : pick (fun j => decide (j < loop) && test j) (vic :: vics) i = [] := by
        refine (pick_congr fun j after _ => ?_).trans pick_false
        rw [decide_eq_false (by omega), Bool.false_and]
      rw [if_pos last, none]
      simp
    · rw [if_neg last]
      by_cases full : maxVicCount ≤ sinkCap.supportY420Format.items.length
      · rw [if_pos full, Filled.addAll_of_full full, decide_eq_false (Nat.not_lt.mpr full)]
        simp
      · rw [if_neg full, pick_cons, decide_eq_true (Nat.not_le.mp last), Bool.true_and]
        by_cases passes : test i = true
        · rw [if_pos passes, if_pos passes, ih, Filled.addAll_cons,
            decide_eq_true (Nat.not_le.mp full)]
          simp
        · rw [if_neg passes, if_neg passes, ih]

/-- The formats that a block with `m` map bytes makes the code store: it looks at as many bits as
`m + 1` bytes have. -/
def seen (m : ℕ) (data : ℕ → UInt8) (vics : List ℕ) : List ℕ :=
  if m = 0 then vics
  else pick (fun i => decide (i < 8 * (m + 1)) && bitMark (data (1 + i / 8)) (i % 8)) vics 0

theorem y420Cmdb_eq (sinkCap : HdmiSinkDeviceCapability) (data : ℕ → UInt8) (m : ℕ) :
    hdmiEdidExtUseExtDataBlockY420CmdbPhase sinkCap data (m + 1) =
      sinkCap.addY420 (seen m data sinkCap.videoInfo.vic.items) := by
  have fits : sinkCap.videoInfo.vic.items.length ≤ maxVicCount := sinkCap.videoInfo.vic.fits
  rw [hdmiEdidExtUseExtDataBlockY420CmdbPhase, seen]
  by_cases noMap : m = 0
  · rw [if_pos (by omega), if_pos noMap, y420Loop_eq]
    refine congrArg _ ((pick_congr fun j _ before => ?_).trans pick_true)
    rw [Bool.and_true, decide_eq_true (by omega)]
  · rw [if_neg (by omega), if_neg noMap]
    dsimp only
    rw [y420Loop_eq]
    refine congrArg _ (pick_congr fun j _ before => ?_)
    refine congrArg (· && _) (decide_eq_decide.mpr ?_)
    split <;> omega

/-- What is stored begins with what the map marks; the rest comes from the byte behind it. -/
theorem seen_eq (hasMap : HasMap m map data) (positive : m ≠ 0) :
    seen m data vics = capable m map vics ++
      pick (fun i => decide (i < 8 * (m + 1)) && bitMark (data (1 + i / 8)) (i % 8))
        (vics.drop (8 * m)) (8 * m) := by
  rw [seen, capable, if_neg positive, if_neg positive]
  refine pick_eq_append (fun j before => ?_) fun j after => ?_
  · have within : j / 8 < m := Nat.div_lt_of_lt_mul before
    rw [hasMap _ within, decide_eq_true before, decide_eq_true (by omega)]
  · rw [decide_eq_false (Nat.not_lt.mpr after), Bool.false_and]

/-- Only what there is room for makes a difference. -/
theorem addY420_congr {vics' : List ℕ}
    (same : vics.take (maxVicCount - sinkCap.supportY420Format.items.length) =
      vics'.take (maxVicCount - sinkCap.supportY420Format.items.length)) :
    sinkCap.addY420 vics = sinkCap.addY420 vics' := by
  have stored : sinkCap.supportY420Format.addAll vics = sinkCap.supportY420Format.addAll vics' := by
    apply Filled.ext_items
    rw [Filled.items_addAll, Filled.items_addAll, same]
  rw [HdmiSinkDeviceCapability.addY420, HdmiSinkDeviceCapability.addY420, stored]
  by_cases room : sinkCap.supportY420Format.items.length < maxVicCount
  · have free : maxVicCount - sinkCap.supportY420Format.items.length ≠ 0 := by omega
    have empty : vics = [] ↔ vics' = [] := by
      rw [← List.take_eq_nil_iff.trans (or_iff_right free), same,
        List.take_eq_nil_iff.trans (or_iff_right free)]
    rw [decide_eq_decide.mpr (not_congr empty)]
  · rw [decide_eq_false room, Bool.false_and, Bool.false_and]

theorem followsMap_iff_take : FollowsMap sinkCap m map ↔ ∀ data, HasMap m map data →
    (seen m data sinkCap.videoInfo.vic.items).take
      (maxVicCount - sinkCap.supportY420Format.items.length) =
        capable m map sinkCap.videoInfo.vic.items := by
  have stored (data : ℕ → UInt8) :
      (hdmiEdidExtUseExtDataBlockY420CmdbPhase sinkCap data (m + 1)).supportY420Format.items =
        sinkCap.supportY420Format.items ++ (seen m data sinkCap.videoInfo.vic.items).take
          (maxVicCount - sinkCap.supportY420Format.items.length) := by
    rw [y420Cmdb_eq]
    exact Filled.items_addAll
  constructor
  · intro follows data hasMap
    exact List.append_cancel_left ((stored data).symm.trans (follows.stored data hasMap))
  · intro all
    refine ⟨fun data hasMap => by rw [stored, all data hasMap], fun data data' hasMap hasMap' => ?_⟩
    rw [y420Cmdb_eq, y420Cmdb_eq]
    exact addY420_congr ((all data hasMap).trans (all data' hasMap').symm)

/-- A map is followed if and only if there is room for what it marks and the byte behind it is not
looked at: each format has a bit in the map, or the room ends with what the map marks. -/
theorem followsMap_iff (sinkCap : HdmiSinkDeviceCapability) (m : ℕ) (map : ℕ → UInt8) :
    FollowsMap sinkCap m map ↔
      sinkCap.supportY420Format.items.length +
          (capable m map sinkCap.videoInfo.vic.items).length ≤ maxVicCount ∧
        (m = 0 ∨ sinkCap.videoInfo.vic.items.length ≤ 8 * m ∨
          sinkCap.supportY420Format.items.length +
            (capable m map sinkCap.videoInfo.vic.items).length = maxVicCount) := by
  have used : sinkCap.supportY420Format.items.length ≤ maxVicCount := sinkCap.supportY420Format.fits
  rw [followsMap_iff_take]
  generalize sinkCap.videoInfo.vic.items = vics
  generalize sinkCap.supportY420Format.items.length = count at used ⊢
  constructor
  · intro all
    -- the byte behind the map marks everything
    let data : ℕ → UInt8 := fun position => if position ≤ m then map (position - 1) else 0xff
    have hasMap : HasMap m map data := by
      intro j before
      have inside : 1 + j ≤ m := by omega
      simp [data, inside]
    have taken := all data hasMap
    have room : (capable m map vics).length ≤ maxVicCount - count := by
      rw [← taken]
      exact List.length_take_le _ _
    refine ⟨by omega, ?_⟩
    by_cases positive : m = 0
    · exact .inl positive
    by_cases long : vics.length ≤ 8 * m
    · exact .inr (.inl long)
    refine .inr (.inr ?_)
    obtain ⟨vic, rest, next⟩ : ∃ vic rest, vics.drop (8 * m) = vic :: rest :=
      List.exists_cons_of_ne_nil fun none => long (List.drop_eq_nil_iff.mp none)
    have marked : bitMark (data (1 + 8 * m / 8)) (8 * m % 8) = true := by
      rw [Nat.mul_div_cancel_left m (by decide : 0 < 8), Nat.mul_mod_right]
      have behind : ¬ 1 + m ≤ m := by omega
      simp only [data, if_neg behind]
      decide
    have lengths := congrArg List.length taken
    rw [seen_eq hasMap positive, next, pick_cons, marked, decide_eq_true (by omega),
      Bool.and_true, if_pos rfl, List.length_take, List.length_append, List.length_cons] at lengths
    omega
  · rintro ⟨room, enough⟩ data hasMap
    by_cases positive : m = 0
    · rw [seen, capable, if_pos positive, if_pos positive, List.take_of_length_le]
      rw [capable, if_pos positive] at room
      omega
    rw [seen_eq hasMap positive]
    rcases enough with none | short | full
    · exact absurd none positive
    · rw [List.drop_eq_nil_of_le short, pick_nil, List.append_nil, List.take_of_length_le]
      omega
    · have exact' : maxVicCount - count = (capable m map vics).length := by omega
      rw [exact', List.take_left']
      rfl

/-- Nine formats, and a map of one byte that marks none of them: the byte behind the block, the
header of a video data block of one byte here, marks the ninth. -/
theorem next_block_read :
    let sinkCap := hdmiEdidExtVideoDataBlockPhase hdmiEdidReset (fun i => UInt8.ofNat (i + 1)) 9
    let data : ℕ → UInt8 := fun position => [0x0f, 0x00, 0x41].getD position 0
    capable 1 (fun _ => 0x00) sinkCap.videoInfo.vic.items = [] ∧
      (hdmiEdidExtUseExtDataBlockY420CmdbPhase sinkCap data 2).supportY420Format.items = [9] ∧
      ¬ FollowsMap sinkCap 1 fun _ => 0x00 := by
  refine ⟨by decide +kernel, by decide +kernel, fun follows => ?_⟩
  have hasMap : HasMap 1 (fun _ => 0x00) fun position => [0x0f, 0x00, 0x41].getD position 0 := by
    intro j before
    obtain rfl : j = 0 := Nat.lt_one_iff.mp before
    rfl
  have stored := follows.stored _ hasMap
  revert stored
  decide +kernel

end Hdf.Hdmi
