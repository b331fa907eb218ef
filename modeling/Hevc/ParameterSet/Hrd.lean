import Hevc.ExpGolomb

/-!
# Hypothetical reference decoder parameters

`hrd_parameters(commonInfPresentFlag, maxNumSubLayersMinus1)`: information common to all
sub-layers, then for each sub-layer its picture rate and the coded picture buffers of the NAL and
of the VCL stream, where the common information announces them.
-/

namespace Hevc

/-- The sub-picture fields of the common information. -/
structure SubPicture where
  /-- `tick_divisor_minus2`, 8 bits. -/
  tickDivisorMinus2 : Nat
  /-- `du_cpb_removal_delay_increment_length_minus1`, 5 bits. -/
  removalDelayLengthMinus1 : Nat
  inPicTimingSei : Bool
  /-- `dpb_output_delay_du_length_minus1`, 5 bits. -/
  outputDelayLengthMinus1 : Nat
  /-- `cpb_size_du_scale`, 4 bits. -/
  cpbSizeDuScale : Nat
deriving DecidableEq, Repr

/-- One coded picture buffer. -/
structure Cpb where
  bitRateMinus1 : Nat
  sizeMinus1 : Nat
  /-- `cpb_size_du_value_minus1` and `bit_rate_du_value_minus1`, with sub-picture fields only. -/
  decodingUnit : Option (Nat × Nat)
  constantBitRate : Bool
deriving DecidableEq, Repr

/-- What is common to all sub-layers. -/
structure HrdCommon where
  nalPresent : Bool
  vclPresent : Bool
  /-- The sub-picture fields, if any. -/
  subPicture : Option SubPicture
  /-- `bit_rate_scale`, 4 bits. -/
  bitRateScale : Nat
  /-- `cpb_size_scale`, 4 bits. -/
  cpbSizeScale : Nat
deriving DecidableEq, Repr

/-- The parameters of one sub-layer. -/
structure HrdSubLayer where
  fixedRateGeneral : Bool
  /-- `fixed_pic_rate_within_cvs_flag`, set also where the general flag is. -/
  fixedRateWithinCvs : Bool
  /-- `elemental_duration_in_tc_minus1`, with a fixed rate only. -/
  elementalDurationMinus1 : Option Nat
  /-- `low_delay_hrd_flag`, without a fixed rate only. -/
  lowDelay : Bool
  /-- `cpb_cnt_minus1`, 0 with a low delay. -/
  cpbCountMinus1 : Nat
  /-- The buffers of the NAL stream. -/
  nalBuffers : List Cpb
  /-- The buffers of the VCL stream. -/
  vclBuffers : List Cpb
deriving DecidableEq, Repr

/-- Hypothetical reference decoder parameters. The fields are named for the syntax elements of
ISO/IEC 23008-2, E.2.2. -/
structure Hrd where
  common : HrdCommon
  /-- One entry for each sub-layer, the lowest first. -/
  subLayers : List HrdSubLayer
deriving DecidableEq, Repr

open Decoder

namespace HrdCommon

/-- What holds where no common information is coded. -/
def absent : HrdCommon :=
  { nalPresent := false, vclPresent := false, subPicture := none, bitRateScale := 0,
    cpbSizeScale := 0 }

/-- Reads the sub-picture fields that stand before the scales. The scale of decoding units stands
after them. -/
def subPictureFields : Decoder SubPicture := do
  let tickDivisorMinus2 ← bits 8
  let removalDelayLengthMinus1 ← bits 5
  let inPicTimingSei ← flag
  let outputDelayLengthMinus1 ← bits 5
  return { tickDivisorMinus2, removalDelayLengthMinus1, inPicTimingSei, outputDelayLengthMinus1,
           cpbSizeDuScale := 0 }

/-- The number of bits of the three delay lengths, which are not kept. -/
def delayLengthBits : Nat := 15

/-- Reads the sub-picture fields, the scales and the delay lengths. -/
def scales (nalPresent vclPresent : Bool) : Decoder HrdCommon := do
  let fields ← optional subPictureFields
  let bitRateScale ← bits 4
  let cpbSizeScale ← bits 4
  let duScale ← when fields.isSome (bits 4)
  ignore delayLengthBits
  let subPicture := fields.map fun f => { f with cpbSizeDuScale := duScale.getD 0 }
  return { nalPresent, vclPresent, subPicture, bitRateScale, cpbSizeScale }

def decoder : Decoder HrdCommon := do
  let nalPresent ← flag
  let vclPresent ← flag
  if nalPresent || vclPresent then scales nalPresent vclPresent
  else return absent

end HrdCommon

def Cpb.decoder (subPicture : Bool) : Decoder Cpb := do
  let bitRateMinus1 ← ue
  let sizeMinus1 ← ue
  let decodingUnit ← when subPicture do
    let size ← ue
    let bitRate ← ue
    return (size, bitRate)
  let constantBitRate ← flag
  return { bitRateMinus1, sizeMinus1, decodingUnit, constantBitRate }

namespace HrdSubLayer

/-- Reads the buffers of one stream, if it has any. -/
def buffers (present : Bool) (countMinus1 : Nat) (subPicture : Bool) : Decoder (List Cpb) :=
  if present then do
    let count ← checked (Word.unsigned? 64 (countMinus1 + 1))
    many count (Cpb.decoder subPicture)
  else .done []

/-- Reads the number of buffers less one. -/
def cpbCount : Decoder Nat := do
  let countMinus1 ← ue
  require .cpbCount 0 31 countMinus1
  return countMinus1

/-- Reads the elemental duration less one. -/
def elementalDuration : Decoder Nat := do
  let duration ← ue
  require .elementalDuration 0 2047 duration
  return duration

def decoder (common : HrdCommon) : Decoder HrdSubLayer := do
  let fixedRateGeneral ← flag
  let fixedRateWithinCvs ← codedOr (!fixedRateGeneral) true flag
  let elementalDurationMinus1 ← when fixedRateWithinCvs elementalDuration
  let lowDelay ← codedOr (!fixedRateWithinCvs) false flag
  let cpbCountMinus1 ← codedOr (!lowDelay) 0 cpbCount
  let subPicture := common.subPicture.isSome
  let nalBuffers ← buffers common.nalPresent cpbCountMinus1 subPicture
  let vclBuffers ← buffers common.vclPresent cpbCountMinus1 subPicture
  return { fixedRateGeneral, fixedRateWithinCvs, elementalDurationMinus1, lowDelay,
           cpbCountMinus1, nalBuffers, vclBuffers }

end HrdSubLayer

/-- Reads the parameters. Without common information nothing of it is taken over from elsewhere:
there are no buffers then. -/
def Hrd.decoder (commonPresent : Bool) (maxSubLayersMinus1 : Nat) : Decoder Hrd := do
  let common ← codedOr commonPresent .absent HrdCommon.decoder
  let subLayers ← many (maxSubLayersMinus1 + 1) (HrdSubLayer.decoder common)
  return { common, subLayers }

end Hevc
