import Hevc.ParameterSet.Hrd

/-!
# Video usability information

`vui_parameters()`: how a stream is to be shown. Every part is read, since what follows it can
only be found so.
-/

namespace Hevc

/-! ## Aspect ratios -/

/-- The shape of a sample, `width : height`. -/
structure AspectRatio where
  width : Nat
  height : Nat
deriving DecidableEq, Repr

namespace AspectRatio

/-- The ratios that have a code, in the order of the codes (ISO/IEC 23008-2, table E.1). -/
def table : List AspectRatio :=
  [⟨0, 1⟩, ⟨1, 1⟩, ⟨12, 11⟩, ⟨10, 11⟩, ⟨16, 11⟩, ⟨40, 33⟩, ⟨24, 11⟩, ⟨20, 11⟩, ⟨32, 11⟩, ⟨80, 33⟩,
    ⟨18, 11⟩, ⟨15, 11⟩, ⟨64, 33⟩, ⟨160, 99⟩, ⟨4, 3⟩, ⟨3, 2⟩, ⟨2, 1⟩]

/-- The code after which a ratio is written out. -/
def extendedCode : Nat := 255

/-- The ratio of a code, unless the code is reserved or stands for a ratio that is written out. -/
def ofCode? (code : Nat) : Option AspectRatio := table[code]?

/-- The ratio `0 : 1`, and any other of width 0, says nothing. -/
def isUnspecified (ratio : AspectRatio) : Bool := ratio.width = 0

open Decoder

/-- Reads a code and, after the code for it, a ratio that is written out. -/
def decoder : Decoder (Option AspectRatio) := do
  let code ← bits 8
  if code = extendedCode then
    let width ← bits 16
    let height ← bits 16
    return some { width, height }
  else return ofCode? code

end AspectRatio

/-! ## Parts -/

/-- The three codes that describe colours. -/
structure ColourDescription where
  primaries : Nat
  transfer : Nat
  matrix : Nat
deriving DecidableEq, Repr

/-- The kind of the video signal. -/
structure VideoSignal where
  /-- `video_format`, 3 bits. -/
  format : Nat
  fullRange : Bool
  colour : Option ColourDescription
deriving DecidableEq, Repr

/-- Where the chroma samples lie in the two fields. -/
structure ChromaLocation where
  top : Nat
  bottom : Nat
deriving DecidableEq, Repr

/-- A window, by the distances of its edges from those of the picture, in chroma samples. -/
structure Window where
  left : Nat
  right : Nat
  top : Nat
  bottom : Nat
deriving DecidableEq, Repr

/-- The clock of a stream. -/
structure Clock where
  /-- `num_units_in_tick`, 32 bits. -/
  unitsInTick : Nat
  /-- `time_scale`, 32 bits. -/
  timeScale : Nat
  /-- `num_ticks_poc_diff_one_minus1`, if picture order goes with time. -/
  ticksPerPocMinus1 : Option Nat
deriving DecidableEq, Repr

/-- The timing part. -/
structure VuiTiming where
  clock : Clock
  hrd : Option Hrd
deriving DecidableEq, Repr

/-- The restrictions that a bitstream keeps to. -/
structure Restriction where
  tilesFixed : Bool
  motionOverBoundaries : Bool
  restrictedLists : Bool
  /-- `min_spatial_segmentation_idc`, at most 4095. -/
  minSpatialSegmentation : Nat
  maxBytesPerPicDenom : Nat
  maxBitsPerMinCuDenom : Nat
  log2MaxMvLengthHorizontal : Nat
  log2MaxMvLengthVertical : Nat
deriving DecidableEq, Repr

/-- Video usability information. The fields are named for the syntax elements of ISO/IEC 23008-2,
E.2.1. -/
structure Vui where
  /-- Absent also where the code of the ratio is reserved. -/
  aspectRatio : Option AspectRatio
  overscanAppropriate : Option Bool
  videoSignal : Option VideoSignal
  chromaLocation : Option ChromaLocation
  neutralChroma : Bool
  fieldSequence : Bool
  frameFieldInfo : Bool
  displayWindow : Option Window
  timing : Option VuiTiming
  restriction : Option Restriction
deriving DecidableEq, Repr

open Decoder

def Window.decoder : Decoder Window := do
  let left ← ue
  let right ← ue
  let top ← ue
  let bottom ← ue
  return { left, right, top, bottom }

def Clock.decoder : Decoder Clock := do
  let unitsInTick ← bits 32
  let timeScale ← bits 32
  let ticksPerPocMinus1 ← optional ue
  return { unitsInTick, timeScale, ticksPerPocMinus1 }

/-- The frames in a second, unless one of the two numbers is 0. -/
def Clock.frameRate? (clock : Clock) : Option Float :=
  if clock.unitsInTick = 0 ∨ clock.timeScale = 0 then none
  else some (Float.ofNat clock.timeScale / Float.ofNat clock.unitsInTick)

def ColourDescription.decoder : Decoder ColourDescription := do
  let primaries ← bits 8
  let transfer ← bits 8
  let matrix ← bits 8
  return { primaries, transfer, matrix }

def VideoSignal.decoder : Decoder VideoSignal := do
  let format ← bits 3
  let fullRange ← flag
  let colour ← optional ColourDescription.decoder
  return { format, fullRange, colour }

def ChromaLocation.decoder : Decoder ChromaLocation := do
  let top ← ue
  let bottom ← ue
  return { top, bottom }

def VuiTiming.decoder (maxSubLayersMinus1 : Nat) : Decoder VuiTiming := do
  let clock ← Clock.decoder
  let hrd ← optional (Hrd.decoder true maxSubLayersMinus1)
  return { clock, hrd }

def Restriction.decoder : Decoder Restriction := do
  let tilesFixed ← flag
  let motionOverBoundaries ← flag
  let restrictedLists ← flag
  let minSpatialSegmentation ← ue
  require .spatialSegmentation 0 4095 minSpatialSegmentation
  let maxBytesPerPicDenom ← ue
  let maxBitsPerMinCuDenom ← ue
  let log2MaxMvLengthHorizontal ← ue
  let log2MaxMvLengthVertical ← ue
  return { tilesFixed, motionOverBoundaries, restrictedLists, minSpatialSegmentation,
           maxBytesPerPicDenom, maxBitsPerMinCuDenom, log2MaxMvLengthHorizontal,
           log2MaxMvLengthVertical }

namespace Vui

/-- Reads the information for a stream with one sub-layer more than the given number. -/
def decoder (maxSubLayersMinus1 : Nat) : Decoder Vui := do
  let aspectRatio ← optional AspectRatio.decoder
  let overscanAppropriate ← optional flag
  let videoSignal ← optional VideoSignal.decoder
  let chromaLocation ← optional ChromaLocation.decoder
  let neutralChroma ← flag
  let fieldSequence ← flag
  let frameFieldInfo ← flag
  let displayWindow ← optional Window.decoder
  let timing ← optional (VuiTiming.decoder maxSubLayersMinus1)
  let restriction ← optional Restriction.decoder
  return { aspectRatio := aspectRatio.join, overscanAppropriate, videoSignal, chromaLocation,
           neutralChroma, fieldSequence, frameFieldInfo, displayWindow, timing, restriction }

/-- `min_spatial_segmentation_idc`, known only where the restrictions are. -/
def minSpatialSegmentation? (vui : Vui) : Option Nat :=
  vui.restriction.map (·.minSpatialSegmentation)

end Vui

end Hevc
