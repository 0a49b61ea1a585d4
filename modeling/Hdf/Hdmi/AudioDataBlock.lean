import Hdf.Core.Base
import Hdf.Hdmi.Edid
import Mathlib.Data.List.Nodup

/-!
# Audio data blocks

An audio data block is a row of short audio descriptors of three bytes each: a format
and a number of channels, the sample rates, and the bit depths or the highest bit rate.
Each is decoded into the next free entry of the capability.

The pointer to the descriptors is moved in the loop by as many descriptors as have been
decoded, not by one. The first two are found where they are; the third is looked for
where the fourth should be, and the tenth far behind the block.

## Main results

* `audioLoop_spec`: what the loop has stored, and from where
* `decodes_iff`: when the entries describe the descriptors of the block
* `third_descriptor_skipped`: a block of three descriptors
-/

namespace Hdf.Hdmi

open Hdf.Core

/-- `HDMI_AUDIO_CODING_TYPE_LPCM`. -/
def codingTypeLpcm : UInt8 := 1

/-- `HDMI_AUDIO_CODING_TYPE_AC3`. -/
def codingTypeAc3 : UInt8 := 2

/-- `HDMI_AUDIO_CODING_TYPE_ATRAC`. -/
def codingTypeAtrac : UInt8 := 8

/-- `HDMI_AUDIO_CODING_TYPE_WMA_PRO`. -/
def codingTypeWmaPro : UInt8 := 14

/-- `HDMI_EDID_EXTENSION_SHORT_AUDIO_DESCRIPTOR_LEN`. -/
def shortAudioDescriptorLen : ℕ := 3

/-- `HDMI_EDID_EXTENSION_MAX_SHORT_AUDIO_DESCRIPTOR_NUM`. -/
def maxShortAudioDescriptorNum : ℕ := 10

/-- Stores a sample rate whose bit is set, if there is room. -/
def HdmiEdidAudioInfo.addRate (audio : HdmiEdidAudioInfo) (data : UInt8) (i : ℕ)
    (rate : HdmiSampleRate) : HdmiEdidAudioInfo :=
  if bitMark data i then { audio with sampleRate := audio.sampleRate.add rate } else audio

/-- Stores a bit depth whose bit is set, if there is room. -/
def HdmiEdidAudioInfo.addDepth (audio : HdmiEdidAudioInfo) (data : UInt8) (i : ℕ)
    (depth : HdmiAudioBitDepth) : HdmiEdidAudioInfo :=
  if bitMark data i then { audio with bitDepth := audio.bitDepth.add depth } else audio

/-- The formats with the two highest sample rates. -/
def HighRates (formatCode : UInt8) : Prop :=
  codingTypeLpcm ≤ formatCode ∧ formatCode ≤ codingTypeWmaPro

instance {formatCode : UInt8} : Decidable (HighRates formatCode) :=
  inferInstanceAs (Decidable (_ ∧ _))

/-- The formats that have a highest bit rate. -/
def HasBitRate (formatCode : UInt8) : Prop :=
  codingTypeAc3 ≤ formatCode ∧ formatCode ≤ codingTypeAtrac

instance {formatCode : UInt8} : Decidable (HasBitRate formatCode) :=
  inferInstanceAs (Decidable (_ ∧ _))

/-- `HdmiEdidExtAdbSampleRatePhase`. -/
def hdmiEdidExtAdbSampleRatePhase (audio : HdmiEdidAudioInfo) (data formatCode : UInt8) :
    HdmiEdidAudioInfo :=
  let audio := audio.addRate data 0 .r32K
  let audio := audio.addRate data 1 .r44K
  let audio := audio.addRate data 2 .r48K
  let audio := audio.addRate data 3 .r88K
  let audio := audio.addRate data 4 .r96K
  if HighRates formatCode then
    let audio := audio.addRate data 5 .r176K
    audio.addRate data 6 .r192K
  else audio

/-- `HdmiEdidExtAdbDepthAndMaxRatePhase`. -/
def hdmiEdidExtAdbDepthAndMaxRatePhase (audio : HdmiEdidAudioInfo) (data formatCode : UInt8) :
    HdmiEdidAudioInfo :=
  if formatCode = codingTypeLpcm then
    let audio := audio.addDepth data 0 .d16
    let audio := audio.addDepth data 1 .d20
    audio.addDepth data 2 .d24
  else if HasBitRate formatCode then { audio with maxBitRate := data.toNat * 8 }
  else audio

/-- The format code of a descriptor. -/
def formatCodeOf (data : UInt8) : UInt8 := (data &&& 0x78) >>> 3

/-- What the loop of `HdmiEdidExtAudioDataBlockPhase` stores in an entry, from a place on. -/
def storeDescriptor (audio : HdmiEdidAudioInfo) (data : ℕ → UInt8) (position : ℕ) :
    HdmiEdidAudioInfo :=
  let formatCode := formatCodeOf (data position)
  let audio := { audio with
    formatCode := formatCode
    channels := (data position &&& 0x07) + 1 }
  let audio := hdmiEdidExtAdbSampleRatePhase audio (data (position + 1)) formatCode
  hdmiEdidExtAdbDepthAndMaxRatePhase audio (data (position + 2)) formatCode

/-- Stores the next audio entry. -/
def HdmiSinkDeviceCapability.addAudio (sinkCap : HdmiSinkDeviceCapability)
    (entry : HdmiEdidAudioInfo) : HdmiSinkDeviceCapability :=
  { sinkCap with
    audioInfoCnt := sinkCap.audioInfoCnt + 1
    audioInfo := Function.update sinkCap.audioInfo sinkCap.audioInfoCnt entry }

/-- The loop of `HdmiEdidExtAudioDataBlockPhase`, from index `i` on, with the passes that are
left. -/
def audioLoop (data : ℕ → UInt8) :
    ℕ → ℕ → ℕ → HdmiSinkDeviceCapability → HdmiSinkDeviceCapability
  | 0, _, _, sinkCap => sinkCap
  | left + 1, i, position, sinkCap =>
    if audioCapCount ≤ sinkCap.audioInfoCnt then sinkCap
    else
      let position := position + i * shortAudioDescriptorLen
      let entry := storeDescriptor (sinkCap.audioInfo sinkCap.audioInfoCnt) data position
      audioLoop data left (i + 1) position (sinkCap.addAudio entry)

/-- `HdmiEdidExtAudioDataBlockPhase`. -/
def hdmiEdidExtAudioDataBlockPhase (sinkCap : HdmiSinkDeviceCapability) (data : ℕ → UInt8)
    (len : ℕ) : HdfStatus × HdmiSinkDeviceCapability :=
  if shortAudioDescriptorLen * maxShortAudioDescriptorNum < len then (.invalidParam, sinkCap)
  else (.success, audioLoop data (len / shortAudioDescriptorLen) 0 0 sinkCap)

/-! ## What a descriptor says -/

/-- The bits of the sample rates of a format. -/
def rateTable (formatCode : UInt8) : List (ℕ × HdmiSampleRate) :=
  [(0, .r32K), (1, .r44K), (2, .r48K), (3, .r88K), (4, .r96K)] ++
    if HighRates formatCode then [(5, .r176K), (6, .r192K)] else []

/-- The bits of the bit depths of uncompressed audio. -/
def depthTable : List (ℕ × HdmiAudioBitDepth) := [(0, .d16), (1, .d20), (2, .d24)]

/-- What a byte says through the bits of a table. -/
def declared {β : Type*} (table : List (ℕ × β)) (data : UInt8) : List β :=
  (table.filter fun row => bitMark data row.1).map Prod.snd

/-- An entry describes the descriptor at a place. -/
structure Describes (entry : HdmiEdidAudioInfo) (data : ℕ → UInt8) (position : ℕ) : Prop where
  formatCode : entry.formatCode = formatCodeOf (data position)
  channels : entry.channels = (data position &&& 0x07) + 1
  sampleRate : entry.sampleRate.items =
    declared (rateTable (formatCodeOf (data position))) (data (position + 1))
  bitDepth : entry.bitDepth.items =
    if formatCodeOf (data position) = codingTypeLpcm then declared depthTable (data (position + 2))
    else []
  maxBitRate : entry.maxBitRate =
    if HasBitRate (formatCodeOf (data position)) then (data (position + 2)).toNat * 8 else 0

/-- A block of `n` descriptors is decoded: `n` entries are appended, and the `k`-th of them
describes the descriptor at the bytes from `3 * k` on. -/
structure Decodes (sinkCap : HdmiSinkDeviceCapability) (data : ℕ → UInt8) (n : ℕ)
    (result : HdfStatus × HdmiSinkDeviceCapability) : Prop where
  success : result.1 = .success
  count : result.2.audioInfoCnt = sinkCap.audioInfoCnt + n
  entries : ∀ k < n, Describes (result.2.audioInfo (sinkCap.audioInfoCnt + k)) data
    (shortAudioDescriptorLen * k)
  others : ∀ i, i < sinkCap.audioInfoCnt ∨ sinkCap.audioInfoCnt + n ≤ i →
    result.2.audioInfo i = sinkCap.audioInfo i

/-- The descriptors at two places agree in every bit that their format gives a meaning. -/
structure SameDescriptor (data : ℕ → UInt8) (p q : ℕ) : Prop where
  formatCode : formatCodeOf (data p) = formatCodeOf (data q)
  channels : data p &&& 0x07 = data q &&& 0x07
  sampleRate : ∀ row ∈ rateTable (formatCodeOf (data p)),
    bitMark (data (p + 1)) row.1 = bitMark (data (q + 1)) row.1
  bitDepth : formatCodeOf (data p) = codingTypeLpcm → ∀ row ∈ depthTable,
    bitMark (data (p + 2)) row.1 = bitMark (data (q + 2)) row.1
  maxBitRate : HasBitRate (formatCodeOf (data p)) → data (p + 2) = data (q + 2)

/-- Where the loop looks for the `k`-th descriptor. -/
def descriptorAt (k : ℕ) : ℕ := shortAudioDescriptorLen * (k * (k + 1) / 2)

variable {data : ℕ → UInt8} {audio entry : HdmiEdidAudioInfo} {sinkCap : HdmiSinkDeviceCapability}
  {formatCode byte : UInt8} {n p q : ℕ}

theorem foldl_addRate (table : List (ℕ × HdmiSampleRate)) :
    table.foldl (fun audio row => audio.addRate byte row.1 row.2) audio =
      { audio with sampleRate := audio.sampleRate.addAll (declared table byte) } := by
  induction table generalizing audio with
  | nil => rfl
  | cons row table ih =>
    rw [List.foldl_cons, ih, declared, declared, List.filter_cons, HdmiEdidAudioInfo.addRate]
    split <;> rfl

theorem foldl_addDepth (table : List (ℕ × HdmiAudioBitDepth)) :
    table.foldl (fun audio row => audio.addDepth byte row.1 row.2) audio =
      { audio with bitDepth := audio.bitDepth.addAll (declared table byte) } := by
  induction table generalizing audio with
  | nil => rfl
  | cons row table ih =>
    rw [List.foldl_cons, ih, declared, declared, List.filter_cons, HdmiEdidAudioInfo.addDepth]
    split <;> rfl

/-- The sample rates of the table are stored, as far as there is room. -/
theorem hdmiEdidExtAdbSampleRatePhase_eq :
    hdmiEdidExtAdbSampleRatePhase audio byte formatCode =
      { audio with
        sampleRate := audio.sampleRate.addAll (declared (rateTable formatCode) byte) } := by
  rw [← foldl_addRate, rateTable, hdmiEdidExtAdbSampleRatePhase]
  split <;> rfl

theorem hdmiEdidExtAdbDepthAndMaxRatePhase_eq :
    hdmiEdidExtAdbDepthAndMaxRatePhase audio byte formatCode =
      { audio with
        bitDepth := audio.bitDepth.addAll
          (if formatCode = codingTypeLpcm then declared depthTable byte else [])
        maxBitRate := if HasBitRate formatCode then byte.toNat * 8 else audio.maxBitRate } := by
  rw [hdmiEdidExtAdbDepthAndMaxRatePhase]
  by_cases lpcm : formatCode = codingTypeLpcm
  · have noBitRate : ¬ HasBitRate formatCode := by
      rw [lpcm]
      decide
    rw [if_pos lpcm, if_pos lpcm, if_neg noBitRate]
    exact foldl_addDepth depthTable
  · rw [if_neg lpcm, if_neg lpcm]
    split <;> rfl

theorem length_declared_le {β : Type*} (table : List (ℕ × β)) :
    (declared table byte).length ≤ table.length := by
  rw [declared, List.length_map]
  exact List.length_filter_le _ _

/-- A cleared entry describes the descriptor that is stored in it. -/
theorem describes_storeDescriptor : Describes (storeDescriptor .zero data p) data p := by
  have rates : (declared (rateTable (formatCodeOf (data p))) (data (p + 1))).length ≤ 8 := by
    refine (length_declared_le _).trans ?_
    rw [rateTable]
    split <;> decide
  have depths : (if formatCodeOf (data p) = codingTypeLpcm then declared depthTable (data (p + 2))
      else []).length ≤ 6 := by
    split
    · exact (length_declared_le _).trans (by decide)
    · exact Nat.zero_le 6
  rw [storeDescriptor, hdmiEdidExtAdbSampleRatePhase_eq, hdmiEdidExtAdbDepthAndMaxRatePhase_eq]
  exact {
    formatCode := rfl
    channels := rfl
    sampleRate := Filled.items_addAll_of_room ((Nat.zero_add _).trans_le rates)
    bitDepth := Filled.items_addAll_of_room ((Nat.zero_add _).trans_le depths)
    maxBitRate := rfl }

/-- What a byte says tells the bits of the table. -/
theorem declared_eq_iff {β : Type*} {table : List (ℕ × β)} {byte byte' : UInt8}
    (distinct : (table.map Prod.snd).Nodup) :
    declared table byte = declared table byte' ↔
      ∀ row ∈ table, bitMark byte row.1 = bitMark byte' row.1 := by
  have mem_iff {byte : UInt8} {row : ℕ × β} (member : row ∈ table) :
      row.2 ∈ declared table byte ↔ bitMark byte row.1 = true := by
    rw [declared, List.mem_map]
    constructor
    · rintro ⟨row', kept, same⟩
      obtain ⟨member', set⟩ := List.mem_filter.mp kept
      rwa [← List.inj_on_of_nodup_map distinct member' member same]
    · exact fun set => ⟨row, List.mem_filter.mpr ⟨member, set⟩, rfl⟩
  constructor
  · intro same row member
    rw [Bool.eq_iff_iff, ← mem_iff member, ← mem_iff member, same]
  · intro same
    rw [declared, declared, List.filter_congr same]

/-- An entry that describes one place describes another if and only if the descriptors there are
the same. -/
theorem Describes.iff_same (describes : Describes entry data p) :
    Describes entry data q ↔ SameDescriptor data p q := by
  have distinct (formatCode : UInt8) : ((rateTable formatCode).map Prod.snd).Nodup := by
    rw [rateTable]
    split <;> decide
  constructor
  · intro describes'
    -- the format comes first, as it says how the third byte is read
    have same : formatCodeOf (data p) = formatCodeOf (data q) :=
      describes.formatCode.symm.trans describes'.formatCode
    have rates := describes.sampleRate.symm.trans describes'.sampleRate
    have depths := describes.bitDepth.symm.trans describes'.bitDepth
    have bitRate := describes.maxBitRate.symm.trans describes'.maxBitRate
    rw [← same] at rates depths bitRate
    refine ⟨same, ?_, (declared_eq_iff (distinct _)).mp rates, fun lpcm => ?_, fun rated => ?_⟩
    · exact (UInt8.add_left_inj _).mp (describes.channels.symm.trans describes'.channels)
    · rw [if_pos lpcm, if_pos lpcm] at depths
      exact (declared_eq_iff (by decide)).mp depths
    · rw [if_pos rated, if_pos rated] at bitRate
      exact UInt8.toNat_inj.mp (Nat.eq_of_mul_eq_mul_right (by decide) bitRate)
  · rintro ⟨same, channels, rates, depths, bitRate⟩
    refine ⟨describes.formatCode.trans same, ?_, ?_, ?_, ?_⟩
    · rw [describes.channels, channels]
    · rw [describes.sampleRate, ← same]
      exact (declared_eq_iff (distinct _)).mpr rates
    · rw [describes.bitDepth, ← same]
      split
      case isTrue lpcm => exact (declared_eq_iff (by decide)).mpr (depths lpcm)
      case isFalse => rfl
    · rw [describes.maxBitRate, ← same]
      split
      case isTrue rated => rw [bitRate rated]
      case isFalse => rfl

/-! ## The loop -/

theorem descriptorAt_succ (k : ℕ) :
    descriptorAt k + (k + 1) * shortAudioDescriptorLen = descriptorAt (k + 1) := by
  have sum : (k + 1) * (k + 1 + 1) = k * (k + 1) + (k + 1) * 2 := by
    rw [Nat.mul_comm k, ← Nat.mul_add]
  rw [descriptorAt, descriptorAt, sum, Nat.add_mul_div_right _ _ (by decide : 0 < 2),
    Nat.mul_comm (k + 1), ← Nat.mul_add]

/-- The loop appends an entry for each pass, from the places where it looks for descriptors. -/
theorem audioLoop_spec (data : ℕ → UInt8) (left : ℕ) {i : ℕ}
    (place : p + i * shortAudioDescriptorLen = descriptorAt i)
    (room : sinkCap.audioInfoCnt + left ≤ audioCapCount) :
    (audioLoop data left i p sinkCap).audioInfoCnt = sinkCap.audioInfoCnt + left ∧
      ∀ j, (audioLoop data left i p sinkCap).audioInfo j =
        if sinkCap.audioInfoCnt ≤ j ∧ j < sinkCap.audioInfoCnt + left then
          storeDescriptor (sinkCap.audioInfo j) data (descriptorAt (i + (j - sinkCap.audioInfoCnt)))
        else sinkCap.audioInfo j := by
  induction left generalizing i p sinkCap with
  | zero =>
    refine ⟨rfl, fun j => ?_⟩
    rw [if_neg (by omega)]
    rfl
  | succ left ih =>
    have free : ¬ audioCapCount ≤ sinkCap.audioInfoCnt := by omega
    rw [audioLoop, if_neg free, place]
    dsimp only
    generalize stored : storeDescriptor (sinkCap.audioInfo sinkCap.audioInfoCnt) data
      (descriptorAt i) = entry
    have room' : (sinkCap.addAudio entry).audioInfoCnt + left ≤ audioCapCount := by
      change sinkCap.audioInfoCnt + 1 + left ≤ audioCapCount
      omega
    obtain ⟨count, entries⟩ := ih (descriptorAt_succ i) room'
    refine ⟨count.trans ?_, fun j => (entries j).trans ?_⟩
    · rw [HdmiSinkDeviceCapability.addAudio, Nat.add_assoc, Nat.add_comm 1]
    change (if sinkCap.audioInfoCnt + 1 ≤ j ∧ j < sinkCap.audioInfoCnt + 1 + left then
      storeDescriptor (Function.update sinkCap.audioInfo sinkCap.audioInfoCnt entry j) data
        (descriptorAt (i + 1 + (j - (sinkCap.audioInfoCnt + 1))))
      else Function.update sinkCap.audioInfo sinkCap.audioInfoCnt entry j) = _
    -- the entry of this pass is the first one, and those of the later passes are behind it
    rcases lt_trichotomy j sinkCap.audioInfoCnt with before | rfl | after
    · rw [if_neg (by omega), if_neg (by omega), Function.update_of_ne (by omega)]
    · rw [if_neg (by omega), if_pos (by omega), Function.update_self, Nat.sub_self, Nat.add_zero,
        stored]
    · rw [Function.update_of_ne (by omega)]
      have shifted : i + 1 + (j - (sinkCap.audioInfoCnt + 1)) = i + (j - sinkCap.audioInfoCnt) := by
        omega
      rw [shifted]
      exact if_congr (by omega) rfl rfl

/-- A block of `n` descriptors is decoded as it should be if and only if, for each of them, what
stands where the loop looks for it agrees with the descriptor itself. -/
theorem decodes_iff (few : n ≤ maxShortAudioDescriptorNum)
    (room : sinkCap.audioInfoCnt + n ≤ audioCapCount)
    (clear : ∀ k < n, sinkCap.audioInfo (sinkCap.audioInfoCnt + k) = .zero) :
    Decodes sinkCap data n
        (hdmiEdidExtAudioDataBlockPhase sinkCap data (shortAudioDescriptorLen * n)) ↔
      ∀ k < n, SameDescriptor data (descriptorAt k) (shortAudioDescriptorLen * k) := by
  have accepted : ¬ shortAudioDescriptorLen * maxShortAudioDescriptorNum <
      shortAudioDescriptorLen * n :=
    Nat.not_lt.mpr (Nat.mul_le_mul_left _ few)
  rw [hdmiEdidExtAudioDataBlockPhase, if_neg accepted,
    Nat.mul_div_cancel_left n (by decide : 0 < shortAudioDescriptorLen)]
  have first : 0 + 0 * shortAudioDescriptorLen = descriptorAt 0 := rfl
  obtain ⟨count, entries⟩ := audioLoop_spec data n first room
  have stored : ∀ k < n, Describes ((audioLoop data n 0 0 sinkCap).audioInfo
      (sinkCap.audioInfoCnt + k)) data (descriptorAt k) := by
    intro k before
    rw [entries, if_pos (by omega), clear k before, Nat.zero_add, Nat.add_sub_cancel_left]
    exact describes_storeDescriptor
  constructor
  · exact fun decodes k before => (stored k before).iff_same.mp (decodes.entries k before)
  · refine fun same => ⟨rfl, count, fun k before => ?_, fun j other => ?_⟩
    · exact (stored k before).iff_same.mpr (same k before)
    · exact (entries j).trans (if_neg (by omega))

/-- The first two descriptors are looked for where they are. -/
theorem descriptorAt_of_lt_two {k : ℕ} (early : k < 2) :
    descriptorAt k = shortAudioDescriptorLen * k := by
  obtain rfl | rfl : k = 0 ∨ k = 1 := by omega
  · rfl
  · rfl

theorem SameDescriptor.refl : SameDescriptor data p p :=
  ⟨rfl, rfl, fun _ _ => rfl, fun _ _ _ => rfl, fun _ => rfl⟩

/-- Uncompressed audio and AC-3, and what stands behind the two descriptors. -/
def twoDescriptors : ℕ → UInt8
  | 0 => 0x09
  | 1 => 0x07
  | 2 => 0x07
  | 3 => 0x15
  | 4 => 0x06
  | 5 => 0x50
  | _ => 0xff

/-- A block of two descriptors is decoded as it should be. -/
theorem decodes_iff_two : Decodes hdmiEdidReset twoDescriptors 2
    (hdmiEdidExtAudioDataBlockPhase hdmiEdidReset twoDescriptors (shortAudioDescriptorLen * 2)) :=
  (decodes_iff (by decide) (by decide) fun _ _ => rfl).mpr fun _ early =>
    descriptorAt_of_lt_two early ▸ SameDescriptor.refl

/-- Three descriptors, of uncompressed audio, AC-3 and DTS, and what stands behind them. -/
def threeDescriptors : ℕ → UInt8
  | 6 => 0x3d
  | 7 => 0x1e
  | 8 => 0xc0
  | position => if position < 6 then twoDescriptors position else 0x83

/-- The third entry is decoded from the bytes behind the block. -/
theorem third_descriptor_skipped :
    ¬ Decodes hdmiEdidReset threeDescriptors 3
      (hdmiEdidExtAudioDataBlockPhase hdmiEdidReset threeDescriptors
        (shortAudioDescriptorLen * 3)) := by
  intro decodes
  have third := (decodes.entries 2 (by decide)).formatCode
  revert third
  decide

end Hdf.Hdmi
