import Hdf.Core.Base
import Hdf.Hdmi.Edid

/-!
# Fields of a sink

A vendor-specific data block tells, among others, the latencies of a sink, and an HDR
static metadata block its transfer functions and luminances. Which bytes are there depends
on the length of the block, and for the latencies on flags in byte 7 as well.

Where a block has both latencies, the second is stored over the first. The flag of hybrid
log-gamma is taken from the bit of the flag before it, and the minimum luminance is stored
over the maximum frame-average luminance.

## Main results

* `sinkFields_vsdb`, `sinkFields_hdrSmdb`: what the blocks store
* `nothingLost_iff`: the lengths and flags for which nothing is lost
* `latencies_and_luminances_lost`: blocks that differ in a value and are parsed alike
-/

namespace Hdf.Hdmi

open Hdf.Core

/-! ### Vendor-specific data blocks -/

/-- `HdmiEdidVsdbCecPhyAddrPhase`. -/
def hdmiEdidVsdbCecPhyAddrPhase (sinkCap : HdmiSinkDeviceCapability) (data : ℕ → UInt8)
    (len : ℕ) : HdmiSinkDeviceCapability :=
  if 5 ≤ len then
    let phyAddrA := (data 3 &&& 0xf0) >>> 4
    let phyAddrB := data 3 &&& 0x0f
    let phyAddrC := (data 4 &&& 0xf0) >>> 4
    let phyAddrD := data 4 &&& 0x0f
    let addrValid := phyAddrA != 0xf && phyAddrB != 0xf && phyAddrC != 0xf && phyAddrD != 0xf
    { sinkCap with vsdbInfo := { sinkCap.vsdbInfo with
        cecAddr := ⟨addrValid, phyAddrA, phyAddrB, phyAddrC, phyAddrD⟩ } }
  else sinkCap

/-- `HdmiEdidVsdbColorDepthPhase`. -/
def hdmiEdidVsdbColorDepthPhase (sinkCap : HdmiSinkDeviceCapability) (data : ℕ → UInt8)
    (len : ℕ) : HdmiSinkDeviceCapability :=
  if 6 ≤ len then
    { sinkCap with vsdbInfo := { sinkCap.vsdbInfo with
        supportAi := bitMark (data 5) 7
        supportDviDual := bitMark (data 5) 0
        deepColor :=
          { dcY444 := bitMark (data 5) 3
            dc30bit := bitMark (data 5) 4
            dc36bit := bitMark (data 5) 5
            dc48bit := bitMark (data 5) 6 } } }
  else sinkCap

/-- `HdmiEdidVsdbMaxTmdsClockPhase`. -/
def hdmiEdidVsdbMaxTmdsClockPhase (sinkCap : HdmiSinkDeviceCapability) (data : ℕ → UInt8)
    (len : ℕ) : HdmiSinkDeviceCapability :=
  if 7 ≤ len then
    let maxTmdsClk := (data 6).toNat * 5
    { sinkCap with maxTmdsClk := maxTmdsClk, supportHdmi20 := decide (340 < maxTmdsClk) }
  else sinkCap

/-- `HdmiEdidVsdbSinkPresentPhase`. -/
def hdmiEdidVsdbSinkPresentPhase (sinkCap : HdmiSinkDeviceCapability) (data : ℕ → UInt8)
    (len : ℕ) : HdmiSinkDeviceCapability :=
  if 8 ≤ len then
    { sinkCap with vsdbInfo := { sinkCap.vsdbInfo with
        latencyFieldsPresent := bitMark (data 7) 7
        iLatencyFieldsPresent := bitMark (data 7) 6
        hdmiVideoPresent := bitMark (data 7) 5 } }
  else sinkCap

/-- `HdmiEdidVsdbSinkLatencyPhase`. The audio latency is stored as the video latency. -/
def hdmiEdidVsdbSinkLatencyPhase (sinkCap : HdmiSinkDeviceCapability) (data : ℕ → UInt8)
    (len : ℕ) : HdmiSinkDeviceCapability :=
  let vsdbInfo := sinkCap.vsdbInfo
  let vsdbInfo :=
    if vsdbInfo.latencyFieldsPresent then
      let vsdbInfo := if 9 ≤ len then { vsdbInfo with videoLatency := data 8 } else vsdbInfo
      if 10 ≤ len then { vsdbInfo with videoLatency := data 9 } else vsdbInfo
    else vsdbInfo
  let vsdbInfo :=
    if vsdbInfo.iLatencyFieldsPresent then
      let vsdbInfo :=
        if 11 ≤ len then { vsdbInfo with interlacedVideoLatency := data 10 } else vsdbInfo
      if 12 ≤ len then { vsdbInfo with interlacedAudioLatency := data 11 } else vsdbInfo
    else vsdbInfo
  { sinkCap with vsdbInfo := vsdbInfo }

/-- The table of `HdmiEdidVsdbVicInfoPhase`. -/
def hdmi4kVic : List ℕ := [0, 95, 94, 93, 98]

/-- `HdmiEdidVsdbVicInfoPhase`: the capability, and where the formats end. -/
def hdmiEdidVsdbVicInfoPhase (data : ℕ → UInt8) :
    ℕ → ℕ → HdmiSinkDeviceCapability → HdmiSinkDeviceCapability × ℕ
  | 0, offset, sinkCap => (sinkCap, offset)
  | left + 1, offset, sinkCap =>
    if maxVicCount ≤ sinkCap.videoInfo.vic.items.length then (sinkCap, offset)
    else
      let index := (data offset).toNat
      if index ≠ 0 ∧ index < hdmi4kVic.length then
        hdmiEdidVsdbVicInfoPhase data left (offset + 1) { sinkCap with
          videoInfo := { sinkCap.videoInfo with
            vic := sinkCap.videoInfo.vic.add (hdmi4kVic.getD index 0) } }
      else hdmiEdidVsdbVicInfoPhase data left (offset + 1) sinkCap

/-- Stores whether a kind of 3D is supported. -/
def HdmiEdidExtVsdbInfo.set3dType (vsdbInfo : HdmiEdidExtVsdbInfo) (kind : HdmiVSVideo3dStructure)
    (supported : Bool) : HdmiEdidExtVsdbInfo :=
  { vsdbInfo with support3dType := Function.update vsdbInfo.support3dType kind supported }

/-- `HdmiEdidVsdb3dStructureInfoPhase`. -/
def hdmiEdidVsdb3dStructureInfoPhase (sinkCap : HdmiSinkDeviceCapability) (data : ℕ → UInt8)
    (len offset : ℕ) : HdmiSinkDeviceCapability :=
  if sinkCap.vsdbInfo.multiPresent3d &&& 0x03 = 0 then sinkCap
  else if offset ≤ len then
    let vsdbInfo := sinkCap.vsdbInfo.set3dType .sideBySideHalf (bitMark (data offset) 0)
    let offset := offset + 1
    if offset ≤ len then
      let vsdbInfo := vsdbInfo.set3dType .framePacking (bitMark (data offset) 0)
      let vsdbInfo := vsdbInfo.set3dType .fieldAlternative (bitMark (data offset) 1)
      let vsdbInfo := vsdbInfo.set3dType .lineAlternative (bitMark (data offset) 2)
      let vsdbInfo := vsdbInfo.set3dType .sideBySideFull (bitMark (data offset) 3)
      let vsdbInfo := vsdbInfo.set3dType .lDepth (bitMark (data offset) 4)
      let vsdbInfo := vsdbInfo.set3dType .lDepthGfxGfxDepth (bitMark (data offset) 5)
      let vsdbInfo := vsdbInfo.set3dType .topAndBottom (bitMark (data offset) 6)
      { sinkCap with vsdbInfo := vsdbInfo }
    else { sinkCap with vsdbInfo := vsdbInfo }
  else sinkCap

/-- `HdmiEdidVsdbVicAnd3dInfoPhase`. -/
def hdmiEdidVsdbVicAnd3dInfoPhase (sinkCap : HdmiSinkDeviceCapability) (data : ℕ → UInt8)
    (len : ℕ) : HdmiSinkDeviceCapability :=
  if len < 13 then sinkCap
  else
    let sinkCap := { sinkCap with vsdbInfo := { sinkCap.vsdbInfo with
      present3d := bitMark (data 12) 7
      multiPresent3d := (data 12 &&& 0x60) >>> 5 } }
    let hdmiVicLen := if 14 ≤ len then ((data 13 &&& 0xe0) >>> 5).toNat else 0
    let hdmi3dLen := if 14 ≤ len then (data 13 &&& 0x1f).toNat else 0
    let offset := 14
    let (sinkCap, offset) :=
      if 0 < hdmiVicLen ∧ hdmiVicLen + offset + 1 ≤ len then
        hdmiEdidVsdbVicInfoPhase data hdmiVicLen offset sinkCap
      else (sinkCap, offset)
    if 0 < hdmi3dLen ∧ sinkCap.vsdbInfo.present3d ∧ hdmi3dLen + offset + 1 ≤ len then
      hdmiEdidVsdb3dStructureInfoPhase sinkCap data len offset
    else sinkCap

/-- `HdmiEdidVsdbPhase`. -/
def hdmiEdidVsdbPhase (sinkCap : HdmiSinkDeviceCapability) (data : ℕ → UInt8) (len : ℕ) :
    HdmiSinkDeviceCapability :=
  if len < 5 then sinkCap
  else
    let sinkCap := hdmiEdidVsdbCecPhyAddrPhase sinkCap data len
    let sinkCap := hdmiEdidVsdbColorDepthPhase sinkCap data len
    let sinkCap := hdmiEdidVsdbMaxTmdsClockPhase sinkCap data len
    let sinkCap := hdmiEdidVsdbSinkPresentPhase sinkCap data len
    let sinkCap := hdmiEdidVsdbSinkLatencyPhase sinkCap data len
    hdmiEdidVsdbVicAnd3dInfoPhase sinkCap data len

/-! ### HDR static metadata -/

/-- `HDMI_EDID_HDR_SMDB_MIN_LEN`. -/
def hdrSmdbMinLen : ℕ := 3

/-- `HdmiEdidExtUseExtDataBlockHdrSmdbPhase`. Byte 0 is the extended tag. Two flags are taken from
one bit, and two luminances are stored in one field. -/
def hdmiEdidExtUseExtDataBlockHdrSmdbPhase (sinkCap : HdmiSinkDeviceCapability)
    (data : ℕ → UInt8) (len : ℕ) : HdmiSinkDeviceCapability :=
  if len < hdrSmdbMinLen then sinkCap
  else
    let hdrCap := { sinkCap.hdrCap with
      eotf :=
        { sdr := bitMark (data 1) 0
          hdr := bitMark (data 1) 1
          smpteSt2048 := bitMark (data 1) 2
          hlg := bitMark (data 1) 2 }
      smType1 := bitMark (data 2) 0 }
    let hdrCap := if 4 ≤ len then { hdrCap with maxLuminancedata := data 3 } else hdrCap
    let hdrCap :=
      if 5 ≤ len then { hdrCap with maxFrameAverageLuminanceData := data 4 } else hdrCap
    let hdrCap :=
      if 6 ≤ len then { hdrCap with maxFrameAverageLuminanceData := data 5 } else hdrCap
    { sinkCap with hdrCap := hdrCap }

/-! ## Declared values -/

/-- The fields for latencies, transfer functions and luminances. -/
structure SinkFields where
  videoLatency : UInt8
  audioLatency : UInt8
  interlacedVideoLatency : UInt8
  interlacedAudioLatency : UInt8
  sdr : Bool
  hdr : Bool
  smpteSt2048 : Bool
  hlg : Bool
  maxLuminance : UInt8
  maxFrameAverageLuminance : UInt8
  minLuminance : UInt8
  deriving DecidableEq

/-- The fields of a capability. -/
def HdmiSinkDeviceCapability.sinkFields (sinkCap : HdmiSinkDeviceCapability) : SinkFields where
  videoLatency := sinkCap.vsdbInfo.videoLatency
  audioLatency := sinkCap.vsdbInfo.audioLatency
  interlacedVideoLatency := sinkCap.vsdbInfo.interlacedVideoLatency
  interlacedAudioLatency := sinkCap.vsdbInfo.interlacedAudioLatency
  sdr := sinkCap.hdrCap.eotf.sdr
  hdr := sinkCap.hdrCap.eotf.hdr
  smpteSt2048 := sinkCap.hdrCap.eotf.smpteSt2048
  hlg := sinkCap.hdrCap.eotf.hlg
  maxLuminance := sinkCap.hdrCap.maxLuminancedata
  maxFrameAverageLuminance := sinkCap.hdrCap.maxFrameAverageLuminanceData
  minLuminance := sinkCap.hdrCap.minLuminanceData

/-- The values that a block declares for the fields. -/
structure Declared where
  videoLatency : Option UInt8 := none
  audioLatency : Option UInt8 := none
  interlacedVideoLatency : Option UInt8 := none
  interlacedAudioLatency : Option UInt8 := none
  sdr : Option Bool := none
  hdr : Option Bool := none
  smpteSt2048 : Option Bool := none
  hlg : Option Bool := none
  maxLuminance : Option UInt8 := none
  maxFrameAverageLuminance : Option UInt8 := none
  minLuminance : Option UInt8 := none
  deriving DecidableEq

/-- Each declared value is in its own field, and the other fields are as before. -/
def Declared.put (declared : Declared) (fields : SinkFields) : SinkFields where
  videoLatency := declared.videoLatency.getD fields.videoLatency
  audioLatency := declared.audioLatency.getD fields.audioLatency
  interlacedVideoLatency := declared.interlacedVideoLatency.getD fields.interlacedVideoLatency
  interlacedAudioLatency := declared.interlacedAudioLatency.getD fields.interlacedAudioLatency
  sdr := declared.sdr.getD fields.sdr
  hdr := declared.hdr.getD fields.hdr
  smpteSt2048 := declared.smpteSt2048.getD fields.smpteSt2048
  hlg := declared.hlg.getD fields.hlg
  maxLuminance := declared.maxLuminance.getD fields.maxLuminance
  maxFrameAverageLuminance :=
    declared.maxFrameAverageLuminance.getD fields.maxFrameAverageLuminance
  minLuminance := declared.minLuminance.getD fields.minLuminance

/-- The two kinds of blocks. -/
inductive SinkBlock
  | vendorSpecific | hdrStaticMetadata
  deriving DecidableEq

/-- The parser of a block. -/
def SinkBlock.parse : SinkBlock → HdmiSinkDeviceCapability → (ℕ → UInt8) → ℕ →
    HdmiSinkDeviceCapability
  | vendorSpecific => hdmiEdidVsdbPhase
  | hdrStaticMetadata => hdmiEdidExtUseExtDataBlockHdrSmdbPhase

/-- A value that is there under a condition. -/
def when {α : Type*} (condition : Prop) [Decidable condition] (value : α) : Option α :=
  if condition then some value else none

/-- The values that a block of a length declares. -/
def SinkBlock.declared : SinkBlock → (ℕ → UInt8) → ℕ → Declared
  | vendorSpecific, data, len =>
    { videoLatency := when (9 ≤ len ∧ bitMark (data 7) 7) (data 8)
      audioLatency := when (10 ≤ len ∧ bitMark (data 7) 7) (data 9)
      interlacedVideoLatency := when (11 ≤ len ∧ bitMark (data 7) 6) (data 10)
      interlacedAudioLatency := when (12 ≤ len ∧ bitMark (data 7) 6) (data 11) }
  | hdrStaticMetadata, data, len =>
    { sdr := when (hdrSmdbMinLen ≤ len) (bitMark (data 1) 0)
      hdr := when (hdrSmdbMinLen ≤ len) (bitMark (data 1) 1)
      smpteSt2048 := when (hdrSmdbMinLen ≤ len) (bitMark (data 1) 2)
      hlg := when (hdrSmdbMinLen ≤ len) (bitMark (data 1) 3)
      maxLuminance := when (4 ≤ len) (data 3)
      maxFrameAverageLuminance := when (5 ≤ len) (data 4)
      minLuminance := when (6 ≤ len) (data 5) }

/-- The blocks of a length whose byte 7 has the flags `present`: each declared value determines
its own field and the other fields are kept, and blocks that are parsed alike declare the same
values. -/
structure NothingLost (block : SinkBlock) (sinkCap : HdmiSinkDeviceCapability) (len : ℕ)
    (present : UInt8) : Prop where
  own : ∀ data, data 7 = present →
    (block.parse sinkCap data len).sinkFields = (block.declared data len).put sinkCap.sinkFields
  injective : ∀ data data', data 7 = present → data' 7 = present →
    block.parse sinkCap data len = block.parse sinkCap data' len →
    block.declared data len = block.declared data' len

/-- No two values of such blocks are stored in one field or taken from one bit. -/
def SinkBlock.Apart : SinkBlock → ℕ → UInt8 → Prop
  | vendorSpecific, len, present => len < 10 ∨ bitMark present 7 = false
  | hdrStaticMetadata, len, _ => len < hdrSmdbMinLen

variable {sinkCap : HdmiSinkDeviceCapability} {data : ℕ → UInt8} {len left offset : ℕ}

/-! ## What the blocks store -/

theorem sinkFields_vicInfo :
    (hdmiEdidVsdbVicInfoPhase data left offset sinkCap).1.sinkFields = sinkCap.sinkFields := by
  induction left generalizing offset sinkCap with
  | zero => rfl
  | succ left ih =>
    rw [hdmiEdidVsdbVicInfoPhase]
    dsimp only
    split
    · rfl
    · split
      · exact ih
      · exact ih

theorem sinkFields_set3dType {vsdbInfo : HdmiEdidExtVsdbInfo} {kind : HdmiVSVideo3dStructure}
    {supported : Bool} :
    ({ sinkCap with vsdbInfo := vsdbInfo.set3dType kind supported } :
      HdmiSinkDeviceCapability).sinkFields =
      ({ sinkCap with vsdbInfo := vsdbInfo } : HdmiSinkDeviceCapability).sinkFields := rfl

theorem sinkFields_3dStructureInfo :
    (hdmiEdidVsdb3dStructureInfoPhase sinkCap data len offset).sinkFields =
      sinkCap.sinkFields := by
  rw [hdmiEdidVsdb3dStructureInfoPhase]
  split
  · rfl
  · split
    · dsimp only
      split
      · simp only [sinkFields_set3dType]
      · rfl
    · rfl

theorem sinkFields_vicAnd3dInfo :
    (hdmiEdidVsdbVicAnd3dInfoPhase sinkCap data len).sinkFields = sinkCap.sinkFields := by
  rw [hdmiEdidVsdbVicAnd3dInfoPhase]
  split
  · rfl
  extract_lets vsdbInfo flagged hdmiVicLen hdmi3dLen start
  have collected : (if 0 < hdmiVicLen ∧ hdmiVicLen + start + 1 ≤ len then
      hdmiEdidVsdbVicInfoPhase data hdmiVicLen start flagged
      else (flagged, start)).1.sinkFields = sinkCap.sinkFields := by
    split
    · exact sinkFields_vicInfo
    · rfl
  generalize (if 0 < hdmiVicLen ∧ hdmiVicLen + start + 1 ≤ len then
      hdmiEdidVsdbVicInfoPhase data hdmiVicLen start flagged
      else (flagged, start)) = found at collected ⊢
  dsimp only
  split
  · rw [sinkFields_3dStructureInfo, collected]
  · exact collected

/-- What is stored of the latencies, with the flags as they are. -/
theorem sinkFields_latency :
    (hdmiEdidVsdbSinkLatencyPhase sinkCap data len).sinkFields =
      { sinkCap.sinkFields with
        videoLatency :=
          if sinkCap.vsdbInfo.latencyFieldsPresent then
            if 10 ≤ len then data 9
            else if 9 ≤ len then data 8 else sinkCap.vsdbInfo.videoLatency
          else sinkCap.vsdbInfo.videoLatency
        interlacedVideoLatency :=
          if sinkCap.vsdbInfo.iLatencyFieldsPresent then
            if 11 ≤ len then data 10 else sinkCap.vsdbInfo.interlacedVideoLatency
          else sinkCap.vsdbInfo.interlacedVideoLatency
        interlacedAudioLatency :=
          if sinkCap.vsdbInfo.iLatencyFieldsPresent then
            if 12 ≤ len then data 11 else sinkCap.vsdbInfo.interlacedAudioLatency
          else sinkCap.vsdbInfo.interlacedAudioLatency } := by
  simp only [hdmiEdidVsdbSinkLatencyPhase, HdmiSinkDeviceCapability.sinkFields,
    apply_ite HdmiEdidExtVsdbInfo.videoLatency, apply_ite HdmiEdidExtVsdbInfo.audioLatency,
    apply_ite HdmiEdidExtVsdbInfo.interlacedVideoLatency,
    apply_ite HdmiEdidExtVsdbInfo.interlacedAudioLatency,
    apply_ite HdmiEdidExtVsdbInfo.iLatencyFieldsPresent, ite_self]

/-- What a vendor-specific block with latencies stores. -/
theorem sinkFields_vsdb (long : 8 ≤ len) :
    (hdmiEdidVsdbPhase sinkCap data len).sinkFields =
      { sinkCap.sinkFields with
        videoLatency :=
          if bitMark (data 7) 7 then
            if 10 ≤ len then data 9
            else if 9 ≤ len then data 8 else sinkCap.vsdbInfo.videoLatency
          else sinkCap.vsdbInfo.videoLatency
        interlacedVideoLatency :=
          if bitMark (data 7) 6 then
            if 11 ≤ len then data 10 else sinkCap.vsdbInfo.interlacedVideoLatency
          else sinkCap.vsdbInfo.interlacedVideoLatency
        interlacedAudioLatency :=
          if bitMark (data 7) 6 then
            if 12 ≤ len then data 11 else sinkCap.vsdbInfo.interlacedAudioLatency
          else sinkCap.vsdbInfo.interlacedAudioLatency } := by
  rw [hdmiEdidVsdbPhase, if_neg (by omega)]
  dsimp only
  rw [sinkFields_vicAnd3dInfo, sinkFields_latency, hdmiEdidVsdbSinkPresentPhase, if_pos long,
    hdmiEdidVsdbMaxTmdsClockPhase, if_pos (by omega), hdmiEdidVsdbColorDepthPhase,
    if_pos (by omega), hdmiEdidVsdbCecPhyAddrPhase, if_pos (by omega)]
  rfl

/-- What an HDR static metadata block stores. -/
theorem sinkFields_hdrSmdb (long : hdrSmdbMinLen ≤ len) :
    (hdmiEdidExtUseExtDataBlockHdrSmdbPhase sinkCap data len).sinkFields =
      { sinkCap.sinkFields with
        sdr := bitMark (data 1) 0
        hdr := bitMark (data 1) 1
        smpteSt2048 := bitMark (data 1) 2
        hlg := bitMark (data 1) 2
        maxLuminance := if 4 ≤ len then data 3 else sinkCap.hdrCap.maxLuminancedata
        maxFrameAverageLuminance :=
          if 6 ≤ len then data 5
          else if 5 ≤ len then data 4 else sinkCap.hdrCap.maxFrameAverageLuminanceData } := by
  rw [hdmiEdidExtUseExtDataBlockHdrSmdbPhase, if_neg (Nat.not_lt.mpr long)]
  simp only [HdmiSinkDeviceCapability.sinkFields, apply_ite HdmiEdidHdrCap.eotf,
    apply_ite HdmiEdidHdrCap.maxLuminancedata,
    apply_ite HdmiEdidHdrCap.maxFrameAverageLuminanceData,
    apply_ite HdmiEdidHdrCap.minLuminanceData, ite_self]

/-- A vendor-specific block without byte 8 stores none of the fields. -/
theorem sinkFields_vsdb_short (short : len < 9) :
    (hdmiEdidVsdbPhase sinkCap data len).sinkFields = sinkCap.sinkFields := by
  -- every phase returns early, or stores something else
  have cec (sinkCap : HdmiSinkDeviceCapability) :
      (hdmiEdidVsdbCecPhyAddrPhase sinkCap data len).sinkFields = sinkCap.sinkFields := by
    rw [hdmiEdidVsdbCecPhyAddrPhase]
    split <;> rfl
  have color (sinkCap : HdmiSinkDeviceCapability) :
      (hdmiEdidVsdbColorDepthPhase sinkCap data len).sinkFields = sinkCap.sinkFields := by
    rw [hdmiEdidVsdbColorDepthPhase]
    split <;> rfl
  have clock (sinkCap : HdmiSinkDeviceCapability) :
      (hdmiEdidVsdbMaxTmdsClockPhase sinkCap data len).sinkFields = sinkCap.sinkFields := by
    rw [hdmiEdidVsdbMaxTmdsClockPhase]
    split <;> rfl
  have present (sinkCap : HdmiSinkDeviceCapability) :
      (hdmiEdidVsdbSinkPresentPhase sinkCap data len).sinkFields = sinkCap.sinkFields := by
    rw [hdmiEdidVsdbSinkPresentPhase]
    split <;> rfl
  have latency (sinkCap : HdmiSinkDeviceCapability) :
      (hdmiEdidVsdbSinkLatencyPhase sinkCap data len).sinkFields = sinkCap.sinkFields := by
    rw [sinkFields_latency, if_neg (show ¬ 10 ≤ len by omega), if_neg (show ¬ 9 ≤ len by omega),
      if_neg (show ¬ 11 ≤ len by omega), if_neg (show ¬ 12 ≤ len by omega), ite_self, ite_self,
      ite_self]
    rfl
  rw [hdmiEdidVsdbPhase]
  split
  · rfl
  · dsimp only
    rw [sinkFields_vicAnd3dInfo, latency, present, clock, color, cec]

/-! ## What is lost -/

theorem when_of {α : Type*} {condition : Prop} [Decidable condition] {value : α}
    (holds : condition) : when condition value = some value := if_pos holds

theorem when_of_not {α : Type*} {condition : Prop} [Decidable condition] {value : α}
    (fails : ¬ condition) : when condition value = none := if_neg fails

theorem getD_when {α : Type*} {condition : Prop} [Decidable condition] {value old : α} :
    (when condition value).getD old = if condition then value else old := by
  rw [when]
  split <;> rfl

/-- Values that are there under one condition are told apart by what they are put over. -/
theorem when_eq_iff {α : Type*} {condition : Prop} [Decidable condition] {value value' old : α} :
    when condition value = when condition value' ↔
      (if condition then value else old) = if condition then value' else old := by
  rw [when, when]
  split
  · exact Option.some_inj
  · exact iff_of_true rfl rfl

/-- Fields in which the values of blocks with the same flags were put tell these values. -/
theorem declared_eq_of_put {block : SinkBlock} {data' : ℕ → UInt8} (fields : SinkFields)
    (flags : data 7 = data' 7)
    (same : (block.declared data len).put fields = (block.declared data' len).put fields) :
    block.declared data len = block.declared data' len := by
  cases block with
  | vendorSpecific =>
    simp only [SinkBlock.declared, Declared.put, SinkFields.mk.injEq, getD_when, flags] at same
    obtain ⟨video, audio, interlacedVideo, interlacedAudio, -⟩ := same
    simp only [SinkBlock.declared, flags]
    rw [when_eq_iff.mpr video, when_eq_iff.mpr audio, when_eq_iff.mpr interlacedVideo,
      when_eq_iff.mpr interlacedAudio]
  | hdrStaticMetadata =>
    simp only [SinkBlock.declared, Declared.put, SinkFields.mk.injEq, getD_when] at same
    obtain ⟨-, -, -, -, sdr, hdr, smpteSt2048, hlg, luminance, frameAverage, least⟩ := same
    simp only [SinkBlock.declared]
    rw [when_eq_iff.mpr sdr, when_eq_iff.mpr hdr, when_eq_iff.mpr smpteSt2048,
      when_eq_iff.mpr hlg, when_eq_iff.mpr luminance, when_eq_iff.mpr frameAverage,
      when_eq_iff.mpr least]

/-- A block whose values are stored apart. -/
theorem own_of_apart {block : SinkBlock} {present : UInt8} (apart : block.Apart len present)
    (flags : data 7 = present) :
    (block.parse sinkCap data len).sinkFields =
      (block.declared data len).put sinkCap.sinkFields := by
  subst flags
  cases block with
  | vendorSpecific =>
    change (hdmiEdidVsdbPhase sinkCap data len).sinkFields = _
    by_cases short : len < 9
    · rw [sinkFields_vsdb_short short, SinkBlock.declared, when_of_not (by omega),
        when_of_not (by omega), when_of_not (by omega), when_of_not (by omega)]
      rfl
    · rw [sinkFields_vsdb (by omega)]
      simp only [SinkBlock.declared, Declared.put, getD_when]
      -- with nine bytes there is no room for a latency, and otherwise none is present
      rcases apart with short' | noLatency
      · obtain rfl : len = 9 := by omega
        simp [HdmiSinkDeviceCapability.sinkFields]
      · cases bitMark (data 7) 6 <;> simp [HdmiSinkDeviceCapability.sinkFields, noLatency]
  | hdrStaticMetadata =>
    -- the block is refused, and its declared values need more bytes
    have short : len < hdrSmdbMinLen := apart
    have short3 : len < 3 := apart
    change (hdmiEdidExtUseExtDataBlockHdrSmdbPhase sinkCap data len).sinkFields = _
    rw [hdmiEdidExtUseExtDataBlockHdrSmdbPhase, if_pos short, SinkBlock.declared,
      when_of_not (Nat.not_le.mpr short), when_of_not (Nat.not_le.mpr short),
      when_of_not (Nat.not_le.mpr short), when_of_not (Nat.not_le.mpr short),
      when_of_not (by omega), when_of_not (by omega), when_of_not (by omega)]
    rfl

/-- Nothing is lost if and only if a vendor-specific block does not have both latencies, or an
HDR static metadata block is too short to be looked at. -/
theorem nothingLost_iff (block : SinkBlock) (sinkCap : HdmiSinkDeviceCapability) (len : ℕ)
    (present : UInt8) : NothingLost block sinkCap len present ↔ block.Apart len present := by
  constructor
  · intro nothingLost
    by_contra both
    cases block with
    | vendorSpecific =>
      obtain ⟨long, latency⟩ := not_or.mp both
      have present7 : bitMark present 7 = true := by simpa using latency
      -- the video latency is 0, and the audio latency 1
      let data : ℕ → UInt8 := fun i => if i = 7 then present else if i = 8 then 0 else 1
      have own : (hdmiEdidVsdbPhase sinkCap data len).sinkFields = _ := nothingLost.own data rfl
      rw [sinkFields_vsdb (by omega)] at own
      have video := congrArg SinkFields.videoLatency own
      simp [SinkBlock.declared, Declared.put, getD_when, data, present7, Nat.not_lt.mp long,
        show 9 ≤ len by omega] at video
    | hdrStaticMetadata =>
      have long : hdrSmdbMinLen ≤ len := Nat.not_lt.mp both
      -- only the flag of hybrid log-gamma is set
      let data : ℕ → UInt8 := fun i => if i = 7 then present else 0x08
      have own : (hdmiEdidExtUseExtDataBlockHdrSmdbPhase sinkCap data len).sinkFields = _ :=
        nothingLost.own data rfl
      rw [sinkFields_hdrSmdb long] at own
      have hlg := congrArg SinkFields.hlg own
      simp only [SinkBlock.declared, Declared.put, when_of long, Option.getD_some] at hlg
      exact absurd hlg (show bitMark 0x08 2 ≠ bitMark 0x08 3 by decide)
  · intro apart
    refine ⟨fun data flags => own_of_apart apart flags, fun data data' flags flags' same => ?_⟩
    refine declared_eq_of_put sinkCap.sinkFields (flags.trans flags'.symm) ?_
    rw [← own_of_apart apart flags, ← own_of_apart apart flags', same]

/-- A vendor-specific block with both latencies. -/
def vsdbWith (videoLatency : UInt8) (i : ℕ) : UInt8 :=
  [0x03, 0x0c, 0x00, 0x10, 0x00, 0x00, 0x00, 0x80, videoLatency, 0x09].getD i 0

/-- An HDR static metadata block with all luminances. -/
def hdrSmdbWith (eotf maxFrameAverageLuminance : UInt8) (i : ℕ) : UInt8 :=
  [0x06, eotf, 0x01, 0x60, maxFrameAverageLuminance, 0x20].getD i 0

/-- Blocks that differ in the video latency, and blocks that differ in the flag of hybrid log-gamma
and the maximum frame-average luminance, are parsed alike. -/
theorem latencies_and_luminances_lost :
    (SinkBlock.vendorSpecific.parse hdmiEdidReset (vsdbWith 1) 10).sinkFields =
      (SinkBlock.vendorSpecific.parse hdmiEdidReset (vsdbWith 5) 10).sinkFields ∧
    (SinkBlock.hdrStaticMetadata.parse hdmiEdidReset (hdrSmdbWith 0x05 0x50) 6).sinkFields =
      (SinkBlock.hdrStaticMetadata.parse hdmiEdidReset (hdrSmdbWith 0x0d 0x40) 6).sinkFields ∧
    ¬ NothingLost .vendorSpecific hdmiEdidReset 10 0x80 ∧
    ¬ NothingLost .hdrStaticMetadata hdmiEdidReset 6 0x00 := by
  refine ⟨by decide +kernel, by decide +kernel, fun nothingLost => ?_, fun nothingLost => ?_⟩
  · have own := nothingLost.own (vsdbWith 1) rfl
    revert own
    decide +kernel
  · have own := nothingLost.own (hdrSmdbWith 0x05 0x50) rfl
    revert own
    decide +kernel

end Hdf.Hdmi
