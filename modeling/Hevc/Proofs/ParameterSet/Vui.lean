import Hevc.Proofs.ParameterSet.Hrd
import Hevc.Written.Vui

/-!
# Round trip of video usability information

* `AspectRatio.decoder_reads` — a ratio is read back from its code and from a pair of numbers
* `Vui.decoder_reads` — the information is read back from its written form, whichever parts it has
-/

namespace Hevc

open Decoder

/-! ## Aspect ratios -/

namespace AspectRatio

/-- A ratio of numbers that fit. -/
structure Fits (a : AspectRatio) : Prop where
  width : a.width < 2 ^ 16
  height : a.height < 2 ^ 16

theorem pair_reads {a : AspectRatio} (h : a.Fits) : decoder.Reads a.pairItems (some a) := by
  refine (reads_bits (show extendedCode < 2 ^ 8 by decide) (by decide)).cons ?_
  rw [if_pos rfl]
  refine (reads_bits h.width (by decide)).cons ?_
  exact (reads_bits h.height (by decide)).map

theorem code_reads {a : AspectRatio} {code : Nat} (h : ofCode? code = some a) :
    decoder.Reads [.bits code 8] (some a) := by
  have bound : code < table.length := (List.getElem?_eq_some_iff.mp h).1
  have few : code < 17 := bound
  refine (reads_bits (show code < 2 ^ 8 by omega) (by decide)).then ?_
  rw [if_neg (by rw [extendedCode]; omega), h]
  exact reads_pure _

theorem decoder_reads (asPair : Bool) {a : AspectRatio} (h : a.Fits) :
    decoder.Reads (a.items asPair) (some a) := by
  rw [items]
  split
  · next code found =>
    split
    · exact pair_reads h
    · obtain ⟨bound, at_code, -⟩ := List.findIdx?_eq_some_iff_getElem.mp found
      have entry : table[code] = a := of_decide_eq_true at_code
      exact code_reads (List.getElem?_eq_some_iff.mpr ⟨bound, entry⟩)
  · exact pair_reads h

end AspectRatio

/-! ## Parts -/

/-- A window with distances in range. -/
structure Window.Coded (w : Window) : Prop where
  left : w.left ≤ maxCode
  right : w.right ≤ maxCode
  top : w.top ≤ maxCode
  bottom : w.bottom ≤ maxCode

theorem Window.decoder_reads {w : Window} (h : w.Coded) : Window.decoder.Reads w.items w := by
  refine (reads_ue h.left).cons ?_
  refine (reads_ue h.right).cons ?_
  refine (reads_ue h.top).cons ?_
  exact (reads_ue h.bottom).map

/-- A clock with numbers in range. -/
structure Clock.Coded (c : Clock) : Prop where
  unitsInTick : c.unitsInTick < 2 ^ 32
  timeScale : c.timeScale < 2 ^ 32
  ticksPerPocMinus1 : ∀ ticks ∈ c.ticksPerPocMinus1, ticks ≤ maxCode

theorem Clock.decoder_reads {c : Clock} (h : c.Coded) : Clock.decoder.Reads c.items c := by
  refine (reads_bits h.unitsInTick (by decide)).cons ?_
  refine (reads_bits h.timeScale (by decide)).cons ?_
  exact (reads_optional fun ticks mem => reads_ue (h.ticksPerPocMinus1 ticks mem)).map

/-- Colour codes that fit. -/
structure ColourDescription.Fits (c : ColourDescription) : Prop where
  primaries : c.primaries < 2 ^ 8
  transfer : c.transfer < 2 ^ 8
  matrix : c.matrix < 2 ^ 8

theorem ColourDescription.decoder_reads {c : ColourDescription} (h : c.Fits) :
    ColourDescription.decoder.Reads c.items c := by
  refine (reads_bits h.primaries (by decide)).cons ?_
  refine (reads_bits h.transfer (by decide)).cons ?_
  exact (reads_bits h.matrix (by decide)).map

/-- A kind of video signal that fits. -/
structure VideoSignal.Fits (v : VideoSignal) : Prop where
  format : v.format < 2 ^ 3
  colour : ∀ c ∈ v.colour, c.Fits

theorem VideoSignal.decoder_reads {v : VideoSignal} (h : v.Fits) :
    VideoSignal.decoder.Reads v.items v := by
  refine (reads_bits h.format (by decide)).cons ?_
  refine (reads_flag v.fullRange).cons ?_
  exact (reads_optional fun c mem => ColourDescription.decoder_reads (h.colour c mem)).map

/-- Places of chroma samples in range. -/
structure ChromaLocation.Coded (c : ChromaLocation) : Prop where
  top : c.top ≤ maxCode
  bottom : c.bottom ≤ maxCode

theorem ChromaLocation.decoder_reads {c : ChromaLocation} (h : c.Coded) :
    ChromaLocation.decoder.Reads c.items c := by
  refine (reads_ue h.top).cons ?_
  exact (reads_ue h.bottom).map

/-- A timing part for a number of sub-layers. -/
structure VuiTiming.Coded (maxSubLayersMinus1 : Nat) (t : VuiTiming) : Prop where
  clock : t.clock.Coded
  hrd : ∀ hrd ∈ t.hrd, hrd.Coded maxSubLayersMinus1

theorem VuiTiming.decoder_reads {maxSubLayersMinus1 delayLengths : Nat} {t : VuiTiming}
    (h : t.Coded maxSubLayersMinus1) (fits : delayLengths < 2 ^ HrdCommon.delayLengthBits) :
    (VuiTiming.decoder maxSubLayersMinus1).Reads (t.items delayLengths) t := by
  refine (Clock.decoder_reads h.clock).bind ?_
  exact (reads_optional fun hrd mem => Hrd.decoder_reads (h.hrd hrd mem) fits).map

namespace Restriction

/-- The greatest `min_spatial_segmentation_idc`. -/
def maxSegmentation : Nat := 4095

/-- Restrictions with numbers in range. -/
structure Coded (r : Restriction) : Prop where
  minSpatialSegmentation : r.minSpatialSegmentation ≤ maxSegmentation
  maxBytesPerPicDenom : r.maxBytesPerPicDenom ≤ maxCode
  maxBitsPerMinCuDenom : r.maxBitsPerMinCuDenom ≤ maxCode
  log2MaxMvLengthHorizontal : r.log2MaxMvLengthHorizontal ≤ maxCode
  log2MaxMvLengthVertical : r.log2MaxMvLengthVertical ≤ maxCode

theorem decoder_reads {r : Restriction} (h : r.Coded) : decoder.Reads r.items r := by
  have segmentation := h.minSpatialSegmentation
  rw [maxSegmentation] at segmentation
  refine (reads_flag r.tilesFixed).cons ?_
  refine (reads_flag r.motionOverBoundaries).cons ?_
  refine (reads_flag r.restrictedLists).cons ?_
  refine .inRange (by omega) (by decide) ?_
  refine (reads_ue h.maxBytesPerPicDenom).cons ?_
  refine (reads_ue h.maxBitsPerMinCuDenom).cons ?_
  refine (reads_ue h.log2MaxMvLengthHorizontal).cons ?_
  exact (reads_ue h.log2MaxMvLengthVertical).map

end Restriction

/-! ## The information as a whole -/

namespace Vui

/-- Information for a number of sub-layers, all of whose parts can be coded. -/
structure Coded (maxSubLayersMinus1 : Nat) (v : Vui) : Prop where
  aspectRatio : ∀ a ∈ v.aspectRatio, a.Fits
  videoSignal : ∀ s ∈ v.videoSignal, s.Fits
  chromaLocation : ∀ c ∈ v.chromaLocation, c.Coded
  displayWindow : ∀ w ∈ v.displayWindow, w.Coded
  timing : ∀ t ∈ v.timing, t.Coded maxSubLayersMinus1
  restriction : ∀ r ∈ v.restriction, r.Coded

theorem decoder_reads (asPair : Bool) {maxSubLayersMinus1 delayLengths : Nat} {v : Vui}
    (h : v.Coded maxSubLayersMinus1) (fits : delayLengths < 2 ^ HrdCommon.delayLengthBits) :
    (decoder maxSubLayersMinus1).Reads (v.items asPair delayLengths) v := by
  have ratio : (v.aspectRatio.map some).join = v.aspectRatio := by
    cases v.aspectRatio <;> rfl
  simp only [items, List.append_assoc, List.cons_append, List.nil_append]
  refine (reads_optionalAs fun a mem =>
    AspectRatio.decoder_reads asPair (h.aspectRatio a mem)).bind ?_
  refine (reads_optional fun b _ => reads_flag b).bind ?_
  refine (reads_optional fun s mem => VideoSignal.decoder_reads (h.videoSignal s mem)).bind ?_
  refine (reads_optional fun c mem => ChromaLocation.decoder_reads (h.chromaLocation c mem)).bind ?_
  refine (reads_flag v.neutralChroma).cons ?_
  refine (reads_flag v.fieldSequence).cons ?_
  refine (reads_flag v.frameFieldInfo).cons ?_
  refine (reads_optional fun w mem => Window.decoder_reads (h.displayWindow w mem)).bind ?_
  refine (reads_optional fun t mem => VuiTiming.decoder_reads (h.timing t mem) fits).bind ?_
  rw [ratio]
  exact (reads_optional fun r mem => Restriction.decoder_reads (h.restriction r mem)).map

end Vui

end Hevc
