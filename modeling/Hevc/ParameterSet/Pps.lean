import Hevc.ExpGolomb
import Hevc.NalUnit.Header
import Hevc.Parallelism

/-!
# Picture parameter sets

A picture parameter set as far as the two flags that decide on its parallelism; what follows them
is not read.
-/

namespace Hevc

/-- A picture parameter set. The fields are named for the syntax elements of ISO/IEC 23008-2,
7.3.2.3. -/
structure Pps where
  id : Nat
  spsId : Nat
  dependentSliceSegments : Bool
  outputFlagPresent : Bool
  /-- `num_extra_slice_header_bits`, 3 bits. -/
  extraSliceHeaderBits : Nat
  signDataHiding : Bool
  cabacInitPresent : Bool
  refIdxL0DefaultActiveMinus1 : Nat
  refIdxL1DefaultActiveMinus1 : Nat
  initQpMinus26 : Int
  constrainedIntraPred : Bool
  transformSkip : Bool
  /-- `diff_cu_qp_delta_depth`, if `cu_qp_delta_enabled_flag` is set. -/
  cuQpDeltaDepth : Option Nat
  cbQpOffset : Int
  crQpOffset : Int
  sliceChromaQpOffsetsPresent : Bool
  weightedPred : Bool
  weightedBipred : Bool
  transquantBypass : Bool
  tiles : Bool
  entropyCodingSync : Bool
deriving DecidableEq, Repr

namespace Pps

open Decoder

def decoder : Decoder Pps := do
  let id ← ue
  let spsId ← ue
  let dependentSliceSegments ← flag
  let outputFlagPresent ← flag
  let extraSliceHeaderBits ← bits 3
  let signDataHiding ← flag
  let cabacInitPresent ← flag
  let refIdxL0DefaultActiveMinus1 ← ue
  let refIdxL1DefaultActiveMinus1 ← ue
  let initQpMinus26 ← se
  let constrainedIntraPred ← flag
  let transformSkip ← flag
  let cuQpDeltaDepth ← optional ue
  let cbQpOffset ← se
  let crQpOffset ← se
  let sliceChromaQpOffsetsPresent ← flag
  let weightedPred ← flag
  let weightedBipred ← flag
  let transquantBypass ← flag
  let tiles ← flag
  let entropyCodingSync ← flag
  return { id, spsId, dependentSliceSegments, outputFlagPresent, extraSliceHeaderBits,
           signDataHiding, cabacInitPresent, refIdxL0DefaultActiveMinus1,
           refIdxL1DefaultActiveMinus1, initQpMinus26, constrainedIntraPred, transformSkip,
           cuQpDeltaDepth, cbQpOffset, crQpOffset, sliceChromaQpOffsetsPresent, weightedPred,
           weightedBipred, transquantBypass, tiles, entropyCodingSync }

/-- Reads a NAL unit that has to be a picture parameter set. -/
def read (nal : List UInt8) : Reading Pps := NalUnit.read .pps decoder nal

/-- The parallelism that the set allows. -/
def parallelism (pps : Pps) : Parallelism := .ofFlags pps.tiles pps.entropyCodingSync

end Pps

end Hevc
