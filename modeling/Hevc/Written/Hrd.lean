import Hevc.ParameterSet.Buffering
import Hevc.ParameterSet.Hrd
import Hevc.Written.NalUnit

/-!
# Written form of buffering

Picture buffering may be written for every sub-layer or for the highest only. Reference decoder
parameters are written with their common information.
-/

namespace Hevc

/-! ## Picture buffering -/

namespace Buffering

/-- The written form for one sub-layer. -/
def items (b : Buffering) : List Item :=
  [.ue b.maxDecPicBufferingMinus1, .ue b.maxNumReorderPics, .ue b.maxLatencyIncreasePlus1]

/-- The written form for all sub-layers: each of them, or the highest only. -/
def perSubLayerItems (all : Bool) (bs : List Buffering) : List Item :=
  .flag all :: if all then bs.flatMap items else (bs.getLast?.map items).getD []

end Buffering

/-! ## Reference decoder parameters -/

def Cpb.items (c : Cpb) : List Item :=
  [.ue c.bitRateMinus1, .ue c.sizeMinus1]
    ++ Item.present (fun unit => [.ue unit.1, .ue unit.2]) c.decodingUnit
    ++ [.flag c.constantBitRate]

/-- The written form of the sub-picture fields in front of the scales. -/
def SubPicture.items (s : SubPicture) : List Item :=
  [.bits s.tickDivisorMinus2 8, .bits s.removalDelayLengthMinus1 5, .flag s.inPicTimingSei,
    .bits s.outputDelayLengthMinus1 5]

namespace HrdCommon

/-- The written form of the part that depends on either stream having buffers, with the delay
lengths. -/
def scaleItems (delayLengths : Nat) (c : HrdCommon) : List Item :=
  Item.optional SubPicture.items c.subPicture
    ++ [.bits c.bitRateScale 4, .bits c.cpbSizeScale 4]
    ++ Item.present (fun s => [.bits s.cpbSizeDuScale 4]) c.subPicture
    ++ [.bits delayLengths delayLengthBits]

/-- The written form, with the delay lengths. -/
def items (delayLengths : Nat) (c : HrdCommon) : List Item :=
  [.flag c.nalPresent, .flag c.vclPresent]
    ++ if c.nalPresent || c.vclPresent then c.scaleItems delayLengths else []

end HrdCommon

def HrdSubLayer.items (s : HrdSubLayer) : List Item :=
  .flag s.fixedRateGeneral
    :: (if !s.fixedRateGeneral then [.flag s.fixedRateWithinCvs] else [])
    ++ Item.present (fun duration => [.ue duration]) s.elementalDurationMinus1
    ++ (if !s.fixedRateWithinCvs then [.flag s.lowDelay] else [])
    ++ (if !s.lowDelay then [.ue s.cpbCountMinus1] else [])
    ++ s.nalBuffers.flatMap Cpb.items ++ s.vclBuffers.flatMap Cpb.items

/-- The written form with common information, with the delay lengths. -/
def Hrd.items (delayLengths : Nat) (h : Hrd) : List Item :=
  h.common.items delayLengths ++ h.subLayers.flatMap HrdSubLayer.items

end Hevc
