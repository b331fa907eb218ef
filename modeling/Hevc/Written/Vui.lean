import Hevc.ParameterSet.Vui
import Hevc.Written.Hrd

/-!
# Written form of video usability information

A sample aspect ratio may be written by its code, if it has one, or as a pair of numbers. The
written form takes the code, unless it is told to write the pair.
-/

namespace Hevc

/-- The written form of a ratio, as a pair of numbers. -/
def AspectRatio.pairItems (a : AspectRatio) : List Item :=
  [.bits extendedCode 8, .bits a.width 16, .bits a.height 16]

/-- The written form of a ratio, by its code if it has one and no pair is asked for. -/
def AspectRatio.items (asPair : Bool) (a : AspectRatio) : List Item :=
  match table.findIdx? (· = a) with
  | some code => if asPair then a.pairItems else [.bits code 8]
  | none => a.pairItems

def Window.items (w : Window) : List Item := [.ue w.left, .ue w.right, .ue w.top, .ue w.bottom]

def Clock.items (c : Clock) : List Item :=
  [.bits c.unitsInTick 32, .bits c.timeScale 32]
    ++ Item.optional (fun ticks => [.ue ticks]) c.ticksPerPocMinus1

/-- The written form of the description of the colours. -/
def ColourDescription.items (c : ColourDescription) : List Item :=
  [.bits c.primaries 8, .bits c.transfer 8, .bits c.matrix 8]

/-- The written form of the kind of the video signal. -/
def VideoSignal.items (v : VideoSignal) : List Item :=
  [.bits v.format 3, .flag v.fullRange] ++ Item.optional ColourDescription.items v.colour

/-- The written form of the places of the chroma samples. -/
def ChromaLocation.items (c : ChromaLocation) : List Item := [.ue c.top, .ue c.bottom]

def VuiTiming.items (delayLengths : Nat) (t : VuiTiming) : List Item :=
  t.clock.items ++ Item.optional (Hrd.items delayLengths) t.hrd

def Restriction.items (r : Restriction) : List Item :=
  [.flag r.tilesFixed, .flag r.motionOverBoundaries, .flag r.restrictedLists,
    .ue r.minSpatialSegmentation, .ue r.maxBytesPerPicDenom, .ue r.maxBitsPerMinCuDenom,
    .ue r.log2MaxMvLengthHorizontal, .ue r.log2MaxMvLengthVertical]

def Vui.items (asPair : Bool) (delayLengths : Nat) (v : Vui) : List Item :=
  Item.optional (AspectRatio.items asPair) v.aspectRatio
    ++ Item.optional (fun b => [.flag b]) v.overscanAppropriate
    ++ Item.optional VideoSignal.items v.videoSignal
    ++ Item.optional ChromaLocation.items v.chromaLocation
    ++ [.flag v.neutralChroma, .flag v.fieldSequence, .flag v.frameFieldInfo]
    ++ Item.optional Window.items v.displayWindow
    ++ Item.optional (VuiTiming.items delayLengths) v.timing
    ++ Item.optional Restriction.items v.restriction

end Hevc
