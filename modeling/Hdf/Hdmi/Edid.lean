import Hdf.Lib.Filled
import Mathlib.Logic.Function.Basic

/-!
# The capability of an HDMI sink

A sink describes itself in its EDID. The data blocks of the CTA extension are parsed one
after the other into one record, which is cleared at first. Each parser gets a pointer to
the first payload byte of its block and the length of the payload; what stands in memory
behind the block can be read through the same pointer.

Only what these parsers store is kept here. An array that is filled from the front stands
for its first elements; the audio entries are an array with a counter, since a new entry
is written over what is there.
-/

namespace Hdf.Hdmi

/-- `HDMI_EDID_EXTENSION_MAX_VIC_COUNT`. -/
abbrev maxVicCount : ℕ := 128

/-- `HDMI_EDID_EXTENSION_AUDIO_MAX_SAMPLE_RATE_NUM`. -/
abbrev maxSampleRateNum : ℕ := 8

/-- `HDMI_EDID_EXTENSION_AUDIO_MAX_BIT_DEPTH_NUM`. -/
abbrev maxBitDepthNum : ℕ := 6

/-- `HDMI_EDID_EXTENSION_AUDIO_CAP_COUNT`. -/
def audioCapCount : ℕ := 16

/-- `enum HdmiSampleRate`. -/
inductive HdmiSampleRate
  | unknown | r8K | r11K | r12K | r16K | r22K | r24K | r32K | r44K | r48K | r88K | r96K | r176K
  | r192K | r768K
  deriving DecidableEq, Repr

/-- `enum HdmiAudioBitDepth`. -/
inductive HdmiAudioBitDepth
  | unknown | d8 | d16 | d18 | d20 | d24 | d32
  deriving DecidableEq, Repr

/-- `struct HdmiEdidAudioInfo`. The format code is an `enum HdmiAudioCodingType`, by its value. -/
structure HdmiEdidAudioInfo where
  formatCode : UInt8
  sampleRate : Filled HdmiSampleRate maxSampleRateNum
  bitDepth : Filled HdmiAudioBitDepth maxBitDepthNum
  channels : UInt8
  maxBitRate : ℕ
  deriving DecidableEq

/-- An entry that is all zero. -/
def HdmiEdidAudioInfo.zero : HdmiEdidAudioInfo where
  formatCode := 0
  sampleRate := .empty
  bitDepth := .empty
  channels := 0
  maxBitRate := 0

/-- `struct HdmiEdidVideoInfo`. -/
structure HdmiEdidVideoInfo where
  vic : Filled ℕ maxVicCount
  nativeFormat : ℕ
  deriving DecidableEq

/-- `struct HdmiEdidVsdbCecAddr`. -/
structure HdmiEdidVsdbCecAddr where
  addrValid : Bool
  phyAddrA : UInt8
  phyAddrB : UInt8
  phyAddrC : UInt8
  phyAddrD : UInt8
  deriving DecidableEq, Repr

/-- `struct HdmiEdidDeepColor`. -/
structure HdmiEdidDeepColor where
  dcY444 : Bool
  dc30bit : Bool
  dc36bit : Bool
  dc48bit : Bool
  deriving DecidableEq, Repr

/-- `enum HdmiVSVideo3dStructure`. -/
inductive HdmiVSVideo3dStructure
  | framePacking | fieldAlternative | lineAlternative | sideBySideFull | lDepth
  | lDepthGfxGfxDepth | topAndBottom | sideBySideHalf
  deriving DecidableEq, Repr

/-- `struct HdmiEdidExtVsdbInfo`. -/
structure HdmiEdidExtVsdbInfo where
  cecAddr : HdmiEdidVsdbCecAddr
  deepColor : HdmiEdidDeepColor
  supportAi : Bool
  supportDviDual : Bool
  latencyFieldsPresent : Bool
  iLatencyFieldsPresent : Bool
  hdmiVideoPresent : Bool
  videoLatency : UInt8
  audioLatency : UInt8
  interlacedVideoLatency : UInt8
  interlacedAudioLatency : UInt8
  present3d : Bool
  multiPresent3d : UInt8
  support3dType : HdmiVSVideo3dStructure → Bool

/-- `struct HdmiEdidHdrSmdbEotf`. -/
structure HdmiEdidHdrSmdbEotf where
  sdr : Bool
  hdr : Bool
  smpteSt2048 : Bool
  hlg : Bool
  deriving DecidableEq, Repr

/-- `struct HdmiEdidHdrCap`. -/
structure HdmiEdidHdrCap where
  eotf : HdmiEdidHdrSmdbEotf
  smType1 : Bool
  maxLuminancedata : UInt8
  maxFrameAverageLuminanceData : UInt8
  minLuminanceData : UInt8
  deriving DecidableEq, Repr

/-- `struct HdmiSinkDeviceCapability`. -/
structure HdmiSinkDeviceCapability where
  ycbcr420 : Bool
  audioInfoCnt : ℕ
  audioInfo : ℕ → HdmiEdidAudioInfo
  videoInfo : HdmiEdidVideoInfo
  maxTmdsClk : ℕ
  supportHdmi20 : Bool
  vsdbInfo : HdmiEdidExtVsdbInfo
  supportY420Format : Filled ℕ maxVicCount
  hdrCap : HdmiEdidHdrCap

/-- `HdmiEdidReset`: everything is zero. -/
def hdmiEdidReset : HdmiSinkDeviceCapability where
  ycbcr420 := false
  audioInfoCnt := 0
  audioInfo _ := .zero
  videoInfo := { vic := .empty, nativeFormat := 0 }
  maxTmdsClk := 0
  supportHdmi20 := false
  vsdbInfo :=
    { cecAddr := ⟨false, 0, 0, 0, 0⟩
      deepColor := ⟨false, false, false, false⟩
      supportAi := false
      supportDviDual := false
      latencyFieldsPresent := false
      iLatencyFieldsPresent := false
      hdmiVideoPresent := false
      videoLatency := 0
      audioLatency := 0
      interlacedVideoLatency := 0
      interlacedAudioLatency := 0
      present3d := false
      multiPresent3d := 0
      support3dType := fun _ => false }
  supportY420Format := .empty
  hdrCap := ⟨⟨false, false, false, false⟩, false, 0, 0, 0⟩

/-- `data & HDMI_BITi_MARK`: a bit of a byte is set. -/
def bitMark (data : UInt8) (i : ℕ) : Bool := data.toNat.testBit i

end Hdf.Hdmi
