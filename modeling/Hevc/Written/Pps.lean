import Hevc.ParameterSet.Pps
import Hevc.Written.NalUnit

/-!
# Written form of picture parameter sets
-/

namespace Hevc

def Pps.items (p : Pps) : List Item :=
  [.ue p.id, .ue p.spsId, .flag p.dependentSliceSegments, .flag p.outputFlagPresent,
    .bits p.extraSliceHeaderBits 3, .flag p.signDataHiding, .flag p.cabacInitPresent,
    .ue p.refIdxL0DefaultActiveMinus1, .ue p.refIdxL1DefaultActiveMinus1, .se p.initQpMinus26,
    .flag p.constrainedIntraPred, .flag p.transformSkip]
    ++ Item.optional (fun depth => [.ue depth]) p.cuQpDeltaDepth
    ++ [.se p.cbQpOffset, .se p.crQpOffset, .flag p.sliceChromaQpOffsetsPresent,
      .flag p.weightedPred, .flag p.weightedBipred, .flag p.transquantBypass, .flag p.tiles,
      .flag p.entropyCodingSync]

/-- The header of a picture parameter set of the base layer. -/
def Pps.header : NalHeader := { type := .pps, layerId := 0, temporalIdPlus1 := 1 }

end Hevc
