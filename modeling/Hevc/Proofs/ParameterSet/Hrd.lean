import Hevc.Proofs.Reads
import Hevc.Written.Hrd

/-!
# Round trip of buffering

`Coded` says of each structure that the syntax has a written form for its values: numbers are in
range, and a value that is not coded is the one that is inferred.

* `Buffering.perSubLayer_reads` — picture buffering is read back from its written form
* `Hrd.decoder_reads` — reference decoder parameters are read back from their written form
-/

namespace Hevc

open Decoder

/-! ## Picture buffering -/

namespace Buffering

/-- Picture buffering with numbers in range. -/
structure Coded (b : Buffering) : Prop where
  maxDecPicBufferingMinus1 : b.maxDecPicBufferingMinus1 ≤ maxCode
  maxNumReorderPics : b.maxNumReorderPics ≤ maxCode
  maxLatencyIncreasePlus1 : b.maxLatencyIncreasePlus1 ≤ maxCode

/-- Picture buffering for every sub-layer. If only the highest is written, all are like it. -/
structure AllCoded (maxSubLayersMinus1 : Nat) (all : Bool) (bs : List Buffering) : Prop where
  length : bs.length = maxSubLayersMinus1 + 1
  coded : ∀ b ∈ bs, b.Coded
  alike : all = false → ∀ b ∈ bs, bs.getLast? = some b

theorem decoder_reads {b : Buffering} (h : b.Coded) : decoder.Reads b.items b := by
  refine (reads_ue h.maxDecPicBufferingMinus1).cons ?_
  refine (reads_ue h.maxNumReorderPics).cons ?_
  exact (reads_ue h.maxLatencyIncreasePlus1).map

theorem perSubLayer_reads {maxSubLayersMinus1 : Nat} {all : Bool} {bs : List Buffering}
    (h : AllCoded maxSubLayersMinus1 all bs) (few : maxSubLayersMinus1 < 2 ^ 3) :
    (perSubLayer maxSubLayersMinus1).Reads (perSubLayerItems all bs) bs := by
  have count : Word.unsigned? 64 (maxSubLayersMinus1 + 1) = some bs.length := by
    rw [h.length]
    exact Word.unsigned?_of_lt (by omega)
  refine (reads_checked count).step ?_
  cases all with
  | true => exact (reads_flag true).cons (reads_many fun b mem => decoder_reads (h.coded b mem))
  | false =>
    -- only the highest is written, and reading repeats it for the others
    have some : bs ≠ [] := List.ne_nil_of_length_eq_add_one h.length
    have last := List.getLast?_eq_some_getLast some
    have same : bs = List.replicate bs.length (bs.getLast some) := by
      refine List.eq_replicate_iff.mpr ⟨rfl, fun b mem => ?_⟩
      exact Option.some.inj ((h.alike rfl b mem).symm.trans last)
    have highest := decoder_reads (h.coded _ (List.getLast_mem some))
    have top := highest.map (f := List.replicate bs.length)
    rw [← same] at top
    rw [perSubLayerItems, last]
    exact (reads_flag false).cons top

end Buffering

/-! ## Coded picture buffers -/

namespace Cpb

/-- A buffer with numbers in range, and with fields of decoding units where they are coded. -/
structure Coded (subPicture : Bool) (c : Cpb) : Prop where
  bitRateMinus1 : c.bitRateMinus1 ≤ maxCode
  sizeMinus1 : c.sizeMinus1 ≤ maxCode
  present : c.decodingUnit.isSome = subPicture
  decodingUnit : ∀ unit ∈ c.decodingUnit, unit.1 ≤ maxCode ∧ unit.2 ≤ maxCode

theorem decoder_reads {subPicture : Bool} {c : Cpb} (h : c.Coded subPicture) :
    (decoder subPicture).Reads c.items c := by
  obtain rfl := h.present
  rw [items, List.append_assoc]
  refine (reads_ue h.bitRateMinus1).cons ?_
  refine (reads_ue h.sizeMinus1).cons ?_
  refine (reads_when fun unit mem => ?_).bind (reads_flag c.constantBitRate).map
  obtain ⟨size, bitRate⟩ := h.decodingUnit unit mem
  exact (reads_ue size).cons (reads_ue bitRate).map

end Cpb

/-! ## Common information -/

/-- Sub-picture fields that fit. -/
structure SubPicture.Fits (s : SubPicture) : Prop where
  tickDivisorMinus2 : s.tickDivisorMinus2 < 2 ^ 8
  removalDelayLengthMinus1 : s.removalDelayLengthMinus1 < 2 ^ 5
  outputDelayLengthMinus1 : s.outputDelayLengthMinus1 < 2 ^ 5
  cpbSizeDuScale : s.cpbSizeDuScale < 2 ^ 4

namespace HrdCommon

/-- Common information that fits, and is absent where neither stream has buffers. -/
structure Coded (c : HrdCommon) : Prop where
  subPicture : ∀ s ∈ c.subPicture, s.Fits
  bitRateScale : c.bitRateScale < 2 ^ 4
  cpbSizeScale : c.cpbSizeScale < 2 ^ 4
  absent : (c.nalPresent || c.vclPresent) = false → c = absent

/-- The scale of decoding units stands elsewhere, so reading leaves it at 0. -/
theorem subPictureFields_reads {s : SubPicture} (h : s.Fits) :
    subPictureFields.Reads s.items { s with cpbSizeDuScale := 0 } := by
  refine (reads_bits h.tickDivisorMinus2 (by decide)).cons ?_
  refine (reads_bits h.removalDelayLengthMinus1 (by decide)).cons ?_
  refine (reads_flag s.inPicTimingSei).cons ?_
  exact (reads_bits h.outputDelayLengthMinus1 (by decide)).map

theorem scales_reads {delayLengths : Nat} {c : HrdCommon} (h : c.Coded)
    (fits : delayLengths < 2 ^ delayLengthBits) :
    (scales c.nalPresent c.vclPresent).Reads (c.scaleItems delayLengths) c := by
  rw [scaleItems, List.append_assoc, List.append_assoc]
  refine (reads_optionalAs fun s mem => subPictureFields_reads (h.subPicture s mem)).bind ?_
  refine (reads_bits h.bitRateScale (by decide)).cons ?_
  refine (reads_bits h.cpbSizeScale (by decide)).cons ?_
  rw [Option.isSome_map]
  refine (reads_whenAs fun s mem =>
    reads_bits (h.subPicture s mem).cpbSizeDuScale (by decide)).bind ?_
  refine (reads_ignore fits (by decide)).then ?_
  obtain ⟨nalPresent, vclPresent, subPicture, bitRateScale, cpbSizeScale⟩ := c
  cases subPicture <;> exact reads_pure _

theorem decoder_reads {delayLengths : Nat} {c : HrdCommon} (h : c.Coded)
    (fits : delayLengths < 2 ^ delayLengthBits) :
    decoder.Reads (c.items delayLengths) c := by
  refine (reads_flag c.nalPresent).cons ?_
  refine (reads_flag c.vclPresent).cons ?_
  cases present : c.nalPresent || c.vclPresent with
  | true => exact scales_reads h fits
  | false => exact h.absent present ▸ reads_pure c

end HrdCommon

/-! ## Sub-layers -/

namespace HrdSubLayer

/-- The most buffers of a sub-layer, less one. -/
def maxCpbCountMinus1 : Nat := 31

/-- The greatest elemental duration, less one. -/
def maxDurationMinus1 : Nat := 2047

/-- The buffers of one stream: as many as are counted if the stream has any, and coded with or
without fields of decoding units. -/
structure CodedBuffers (present : Bool) (countMinus1 : Nat) (subPicture : Bool)
    (buffers : List Cpb) : Prop where
  length : present = true → buffers.length = countMinus1 + 1
  none : present = false → buffers = []
  coded : ∀ c ∈ buffers, c.Coded subPicture

/-- The parameters of a sub-layer under the common information. -/
structure Coded (common : HrdCommon) (s : HrdSubLayer) : Prop where
  fixedRate : s.fixedRateGeneral = true → s.fixedRateWithinCvs = true
  durationPresent : s.elementalDurationMinus1.isSome = s.fixedRateWithinCvs
  duration : ∀ d ∈ s.elementalDurationMinus1, d ≤ maxDurationMinus1
  lowDelay : s.fixedRateWithinCvs = true → s.lowDelay = false
  cpbCount : s.cpbCountMinus1 ≤ maxCpbCountMinus1
  lowDelayCount : s.lowDelay = true → s.cpbCountMinus1 = 0
  nalBuffers :
    CodedBuffers common.nalPresent s.cpbCountMinus1 common.subPicture.isSome s.nalBuffers
  vclBuffers :
    CodedBuffers common.vclPresent s.cpbCountMinus1 common.subPicture.isSome s.vclBuffers

theorem elementalDuration_reads {d : Nat} (h : d ≤ maxDurationMinus1) :
    elementalDuration.Reads [.ue d] d := by
  rw [maxDurationMinus1] at h
  exact .inRange (by omega) (by decide) (reads_pure d)

theorem cpbCount_reads {count : Nat} (h : count ≤ maxCpbCountMinus1) :
    cpbCount.Reads [.ue count] count := by
  rw [maxCpbCountMinus1] at h
  exact .inRange (by omega) (by decide) (reads_pure count)

theorem buffers_reads {present subPicture : Bool} {countMinus1 : Nat} {cs : List Cpb}
    (h : CodedBuffers present countMinus1 subPicture cs) (few : countMinus1 ≤ maxCpbCountMinus1) :
    (buffers present countMinus1 subPicture).Reads (cs.flatMap Cpb.items) cs := by
  cases present with
  | true =>
    have count : Word.unsigned? 64 (countMinus1 + 1) = some cs.length := by
      rw [maxCpbCountMinus1] at few
      rw [h.length rfl]
      exact Word.unsigned?_of_lt (by omega)
    refine (reads_checked count).step ?_
    exact reads_many fun c mem => Cpb.decoder_reads (h.coded c mem)
  | false =>
    rw [h.none rfl]
    exact reads_pure []

theorem decoder_reads {common : HrdCommon} {s : HrdSubLayer} (h : s.Coded common) :
    (decoder common).Reads s.items s := by
  simp only [items, List.append_assoc, List.cons_append]
  refine (reads_flag s.fixedRateGeneral).cons ?_
  -- where an element is left out, the coded value is the one that reading infers
  refine (reads_codedOr (fun _ => reads_flag s.fixedRateWithinCvs) fun general => ?_).bind ?_
  · exact h.fixedRate (by simpa using general)
  rw [← h.durationPresent]
  refine (reads_when fun d mem => elementalDuration_reads (h.duration d mem)).bind ?_
  rw [h.durationPresent]
  refine (reads_codedOr (fun _ => reads_flag s.lowDelay) fun within => ?_).bind ?_
  · exact h.lowDelay (by simpa using within)
  refine (reads_codedOr (fun _ => cpbCount_reads h.cpbCount) fun lowDelay => ?_).bind ?_
  · exact h.lowDelayCount (by simpa using lowDelay)
  refine (buffers_reads h.nalBuffers h.cpbCount).bind ?_
  exact (buffers_reads h.vclBuffers h.cpbCount).map

end HrdSubLayer

/-! ## Reference decoder parameters -/

/-- Reference decoder parameters for a number of sub-layers. -/
structure Hrd.Coded (maxSubLayersMinus1 : Nat) (h : Hrd) : Prop where
  common : h.common.Coded
  length : h.subLayers.length = maxSubLayersMinus1 + 1
  subLayers : ∀ s ∈ h.subLayers, s.Coded h.common

theorem Hrd.decoder_reads {maxSubLayersMinus1 delayLengths : Nat} {h : Hrd}
    (coded : h.Coded maxSubLayersMinus1) (fits : delayLengths < 2 ^ HrdCommon.delayLengthBits) :
    (Hrd.decoder true maxSubLayersMinus1).Reads (h.items delayLengths) h := by
  refine (HrdCommon.decoder_reads coded.common fits).bind ?_
  rw [← coded.length]
  exact (reads_many fun s mem => HrdSubLayer.decoder_reads (coded.subLayers s mem)).map

end Hevc
