import Hevc.NalUnit.Header
import Hevc.ParameterSet.Buffering
import Hevc.ParameterSet.Vui
import Hevc.Profile

/-!
# Video parameter sets

A video parameter set as far as its timing part; what follows it is not read.
-/

namespace Hevc

/-- The reference decoder parameters of one layer set. -/
structure LayerSetHrd where
  layerSet : Nat
  hrd : Hrd
deriving DecidableEq, Repr

/-- The timing part. -/
structure VpsTiming where
  clock : Clock
  hrds : List LayerSetHrd
deriving DecidableEq, Repr

/-- A video parameter set. The fields are named for the syntax elements of ISO/IEC 23008-2,
7.3.2.1. -/
structure Vps where
  /-- `vps_video_parameter_set_id`, 4 bits. -/
  id : Nat
  /-- `vps_max_layers_minus1`, 6 bits. -/
  maxLayersMinus1 : Nat
  /-- `vps_max_sub_layers_minus1`, 3 bits. -/
  maxSubLayersMinus1 : Nat
  temporalIdNesting : Bool
  profile : ProfileTierLevel
  /-- One entry for each sub-layer. -/
  buffering : List Buffering
  /-- `vps_max_layer_id`, 6 bits. -/
  maxLayerId : Nat
  /-- `layer_id_included_flag` of every layer set after the first, one flag for each layer. -/
  layerSets : List (List Bool)
  timing : Option VpsTiming
deriving DecidableEq, Repr

open Decoder

/-- Reads the parameters of the layer set at a place of the list. The first always has the common
information. -/
def LayerSetHrd.decoder (maxSubLayersMinus1 place : Nat) : Decoder LayerSetHrd := do
  let layerSet ← ue
  let commonPresent ← codedOr (0 < place) true flag
  let hrd ← Hrd.decoder commonPresent maxSubLayersMinus1
  return { layerSet, hrd }

/-- Reads the timing part. There is at most one structure for each layer set. -/
def VpsTiming.decoder (maxSubLayersMinus1 layerSetsMinus1 : Nat) : Decoder VpsTiming := do
  let clock ← Clock.decoder
  let count ← ue
  let layerSets ← checked (Word.unsigned? 64 (layerSetsMinus1 + 1))
  require .hrdCount 0 layerSets count
  let hrds ← forEach (List.range count) (LayerSetHrd.decoder maxSubLayersMinus1)
  return { clock, hrds }

namespace Vps

/-- Reads the number of layer sets after the first. -/
def layerSetCount : Decoder Nat := do
  let countMinus1 ← ue
  require .layerSetCount 0 1023 countMinus1
  return countMinus1

def decoder : Decoder Vps := do
  let id ← bits 4
  let _baseLayer ← bits 2
  let maxLayersMinus1 ← bits 6
  let maxSubLayersMinus1 ← bits 3
  let temporalIdNesting ← flag
  ignore 16
  let profile ← ProfileTierLevel.decoder maxSubLayersMinus1
  let buffering ← Buffering.perSubLayer maxSubLayersMinus1
  let maxLayerId ← bits 6
  let layerSetsMinus1 ← layerSetCount
  let layers ← checked (Word.unsigned? 64 (maxLayerId + 1))
  let layerSets ← many layerSetsMinus1 (many layers flag)
  let timing ← optional (VpsTiming.decoder maxSubLayersMinus1 layerSetsMinus1)
  return { id, maxLayersMinus1, maxSubLayersMinus1, temporalIdNesting, profile, buffering,
           maxLayerId, layerSets, timing }

/-- Reads a NAL unit that has to be a video parameter set. -/
def read (nal : List UInt8) : Reading Vps := NalUnit.read .vps decoder nal

end Vps

end Hevc
