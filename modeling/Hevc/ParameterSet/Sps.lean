import Hevc.NalUnit.Header
import Hevc.ParameterSet.Buffering
import Hevc.ParameterSet.RefPicSet
import Hevc.ParameterSet.ScalingList
import Hevc.ParameterSet.Vui
import Hevc.Profile

/-!
# Sequence parameter sets

A sequence parameter set as far as its usability information; what follows it is not read.
-/

namespace Hevc

/-- The parameters of samples that are coded as they are. -/
structure Pcm where
  /-- `pcm_sample_bit_depth_luma_minus1`, 4 bits. -/
  bitDepthLumaMinus1 : Nat
  /-- `pcm_sample_bit_depth_chroma_minus1`, 4 bits. -/
  bitDepthChromaMinus1 : Nat
  log2MinSizeMinus3 : Nat
  log2SizeDiff : Nat
  loopFilterDisabled : Bool
deriving DecidableEq, Repr

/-- The sizes of coding and transform blocks. -/
structure BlockSizes where
  log2MinCodingMinus3 : Nat
  log2DiffCoding : Nat
  log2MinTransformMinus2 : Nat
  log2DiffTransform : Nat
  maxHierarchyDepthInter : Nat
  maxHierarchyDepthIntra : Nat
deriving DecidableEq, Repr

/-- A sequence parameter set. The fields are named for the syntax elements of ISO/IEC 23008-2,
7.3.2.2. -/
structure Sps where
  /-- `sps_video_parameter_set_id`, 4 bits. -/
  vpsId : Nat
  /-- `sps_max_sub_layers_minus1`, 3 bits. -/
  maxSubLayersMinus1 : Nat
  temporalIdNesting : Bool
  profile : ProfileTierLevel
  id : Nat
  /-- `chroma_format_idc`, as coded. -/
  chromaFormat : Nat
  /-- `separate_colour_plane_flag`, coded for the format 4:4:4 only. -/
  separateColourPlane : Bool
  width : Nat
  height : Nat
  /-- What remains of the picture when it is shown. -/
  conformanceWindow : Option Window
  /-- `bit_depth_luma_minus8`, as coded. -/
  bitDepthLumaMinus8 : Nat
  /-- `bit_depth_chroma_minus8`, as coded. -/
  bitDepthChromaMinus8 : Nat
  log2MaxPocLsbMinus4 : Nat
  /-- One entry for each sub-layer. -/
  buffering : List Buffering
  blockSizes : BlockSizes
  scalingEnabled : Bool
  /-- The scaling lists, if they are enabled and coded. -/
  scalingLists : Option ScalingLists
  asymmetricMotion : Bool
  sampleAdaptiveOffset : Bool
  pcm : Option Pcm
  shortTermSets : List RefPicSet
  longTermPics : Option (List LongTermPic)
  temporalMvp : Bool
  strongIntraSmoothing : Bool
  vui : Option Vui
deriving DecidableEq, Repr

open Decoder

/-- Reads the parameters of samples that are coded as they are. -/
def Pcm.decoder : Decoder Pcm := do
  let bitDepthLumaMinus1 ← bits 4
  let bitDepthChromaMinus1 ← bits 4
  let log2MinSizeMinus3 ← ue
  let log2SizeDiff ← ue
  let loopFilterDisabled ← flag
  return { bitDepthLumaMinus1, bitDepthChromaMinus1, log2MinSizeMinus3, log2SizeDiff,
           loopFilterDisabled }

/-- Reads the sizes of coding and transform blocks. -/
def BlockSizes.decoder : Decoder BlockSizes := do
  let log2MinCodingMinus3 ← ue
  let log2DiffCoding ← ue
  let log2MinTransformMinus2 ← ue
  let log2DiffTransform ← ue
  let maxHierarchyDepthInter ← ue
  let maxHierarchyDepthIntra ← ue
  return { log2MinCodingMinus3, log2DiffCoding, log2MinTransformMinus2, log2DiffTransform,
           maxHierarchyDepthInter, maxHierarchyDepthIntra }

namespace Sps

/-- The code of the format in which colour planes may be separate. -/
def format444 : Nat := 3

def decoder : Decoder Sps := do
  let vpsId ← bits 4
  let maxSubLayersMinus1 ← bits 3
  let temporalIdNesting ← flag
  let profile ← ProfileTierLevel.decoder maxSubLayersMinus1
  let id ← ue
  let chromaFormat ← ue
  let separateColourPlane ← codedOr (chromaFormat = format444) false flag
  let width ← ue
  let height ← ue
  let conformanceWindow ← optional Window.decoder
  let bitDepthLumaMinus8 ← ue
  let bitDepthChromaMinus8 ← ue
  let log2MaxPocLsbMinus4 ← ue
  let buffering ← Buffering.perSubLayer maxSubLayersMinus1
  let blockSizes ← BlockSizes.decoder
  let scalingEnabled ← flag
  let scalingLists ← when scalingEnabled (optional ScalingLists.decoder)
  let asymmetricMotion ← flag
  let sampleAdaptiveOffset ← flag
  let pcm ← optional Pcm.decoder
  let shortTermSets ← RefPicSet.counted
  let longTermPics ← optional (LongTermPic.all log2MaxPocLsbMinus4)
  let temporalMvp ← flag
  let strongIntraSmoothing ← flag
  let vui ← optional (Vui.decoder maxSubLayersMinus1)
  return { vpsId, maxSubLayersMinus1, temporalIdNesting, profile, id, chromaFormat,
           separateColourPlane, width, height, conformanceWindow, bitDepthLumaMinus8,
           bitDepthChromaMinus8, log2MaxPocLsbMinus4, buffering, blockSizes, scalingEnabled,
           scalingLists := scalingLists.join, asymmetricMotion, sampleAdaptiveOffset, pcm,
           shortTermSets, longTermPics, temporalMvp, strongIntraSmoothing, vui }

/-- Reads a NAL unit that has to be a sequence parameter set. -/
def read (nal : List UInt8) : Reading Sps := NalUnit.read .sps decoder nal

/-! ## Derived sizes -/

/-- The luma samples that go with one chroma sample in a row (ISO/IEC 23008-2, table 6-1). -/
def subWidthC (sps : Sps) : Nat :=
  if (sps.chromaFormat = 1 ∨ sps.chromaFormat = 2) ∧ !sps.separateColourPlane then 2 else 1

/-- The luma samples that go with one chroma sample in a column (ISO/IEC 23008-2, table 6-1). -/
def subHeightC (sps : Sps) : Nat :=
  if sps.chromaFormat = 1 ∧ !sps.separateColourPlane then 2 else 1

/-- The width inside the conformance window, at least 0. -/
def croppedWidth (sps : Sps) : Nat :=
  sps.width - sps.subWidthC * (sps.conformanceWindow.elim 0 fun w => w.left + w.right)

/-- The height inside the conformance window, at least 0. -/
def croppedHeight (sps : Sps) : Nat :=
  sps.height - sps.subHeightC * (sps.conformanceWindow.elim 0 fun w => w.top + w.bottom)

/-- The bits of a luma sample. -/
def bitDepthLuma (sps : Sps) : Nat := sps.bitDepthLumaMinus8 + 8

/-- The bits of a chroma sample. -/
def bitDepthChroma (sps : Sps) : Nat := sps.bitDepthChromaMinus8 + 8

end Sps

end Hevc
