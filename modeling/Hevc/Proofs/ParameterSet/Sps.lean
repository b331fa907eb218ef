import Hevc.Proofs.NalUnit
import Hevc.Proofs.ParameterSet.RefPicSet
import Hevc.Proofs.ParameterSet.ScalingList
import Hevc.Proofs.ParameterSet.Vui
import Hevc.Proofs.Profile

/-!
# Round trip of sequence parameter sets

* `Sps.Coded` — the parameter sets that the syntax can code
* `Sps.decoder_reads` — a parameter set is read back from its written form
* `Sps.sps_read_written` — so is a NAL unit with its escape bytes, whatever follows the set
-/

namespace Hevc

open Decoder

/-! ## Parts -/

/-- Parameters of samples with numbers in range. -/
structure Pcm.Coded (p : Pcm) : Prop where
  bitDepthLumaMinus1 : p.bitDepthLumaMinus1 < 2 ^ 4
  bitDepthChromaMinus1 : p.bitDepthChromaMinus1 < 2 ^ 4
  log2MinSizeMinus3 : p.log2MinSizeMinus3 ≤ maxCode
  log2SizeDiff : p.log2SizeDiff ≤ maxCode

theorem Pcm.decoder_reads {p : Pcm} (h : p.Coded) : Pcm.decoder.Reads p.items p := by
  refine (reads_bits h.bitDepthLumaMinus1 (by decide)).cons ?_
  refine (reads_bits h.bitDepthChromaMinus1 (by decide)).cons ?_
  refine (reads_ue h.log2MinSizeMinus3).cons ?_
  refine (reads_ue h.log2SizeDiff).cons ?_
  exact (reads_flag p.loopFilterDisabled).map

/-- Sizes of blocks in range. -/
structure BlockSizes.Coded (b : BlockSizes) : Prop where
  log2MinCodingMinus3 : b.log2MinCodingMinus3 ≤ maxCode
  log2DiffCoding : b.log2DiffCoding ≤ maxCode
  log2MinTransformMinus2 : b.log2MinTransformMinus2 ≤ maxCode
  log2DiffTransform : b.log2DiffTransform ≤ maxCode
  maxHierarchyDepthInter : b.maxHierarchyDepthInter ≤ maxCode
  maxHierarchyDepthIntra : b.maxHierarchyDepthIntra ≤ maxCode

theorem BlockSizes.decoder_reads {b : BlockSizes} (h : b.Coded) :
    BlockSizes.decoder.Reads b.items b := by
  refine (reads_ue h.log2MinCodingMinus3).cons ?_
  refine (reads_ue h.log2DiffCoding).cons ?_
  refine (reads_ue h.log2MinTransformMinus2).cons ?_
  refine (reads_ue h.log2DiffTransform).cons ?_
  refine (reads_ue h.maxHierarchyDepthInter).cons ?_
  exact (reads_ue h.maxHierarchyDepthIntra).map

/-! ## Parameter sets -/

namespace Sps

/-- The bits beside the values of a parameter set fit their places. -/
structure Filling.Fits (maxSubLayersMinus1 : Nat) (f : Filling) : Prop where
  subLayers : f.subLayers < 2 ^ (2 * (8 - maxSubLayersMinus1))
  delayLengths : f.delayLengths < 2 ^ HrdCommon.delayLengthBits

/-- A parameter set that the syntax can code, with its picture buffering written for all
sub-layers or for the highest only. -/
structure Coded (allBuffering : Bool) (s : Sps) : Prop where
  vpsId : s.vpsId < 2 ^ 4
  maxSubLayersMinus1 : s.maxSubLayersMinus1 < 2 ^ 3
  profile : s.profile.Coded s.maxSubLayersMinus1
  id : s.id ≤ maxCode
  chromaFormat : s.chromaFormat ≤ maxCode
  separateColourPlane : s.chromaFormat ≠ format444 → s.separateColourPlane = false
  width : s.width ≤ maxCode
  height : s.height ≤ maxCode
  conformanceWindow : ∀ w ∈ s.conformanceWindow, w.Coded
  bitDepthLumaMinus8 : s.bitDepthLumaMinus8 ≤ maxCode
  bitDepthChromaMinus8 : s.bitDepthChromaMinus8 ≤ maxCode
  log2MaxPocLsbMinus4 : s.log2MaxPocLsbMinus4 ≤ maxCode
  buffering : Buffering.AllCoded s.maxSubLayersMinus1 allBuffering s.buffering
  blockSizes : s.blockSizes.Coded
  scalingEnabled : s.scalingEnabled = false → s.scalingLists = none
  scalingLists : ∀ lists ∈ s.scalingLists, lists.Coded
  pcm : ∀ p ∈ s.pcm, p.Coded
  shortTermCount : s.shortTermSets.length ≤ RefPicSet.maxSets
  shortTermSets : ∀ set ∈ s.shortTermSets, set.Coded
  longTermCount : ∀ pics ∈ s.longTermPics, pics.length ≤ LongTermPic.maxPics
  longTermPics : ∀ pics ∈ s.longTermPics, ∀ pic ∈ pics,
    pic.pocLsb < 2 ^ LongTermPic.pocBits s.log2MaxPocLsbMinus4
  vui : ∀ v ∈ s.vui, v.Coded s.maxSubLayersMinus1

theorem separateColourPlane_reads {s : Sps}
    (h : s.chromaFormat ≠ format444 → s.separateColourPlane = false) :
    (codedOr (s.chromaFormat = format444) false flag).Reads
      (if s.chromaFormat = format444 then [.flag s.separateColourPlane] else [])
      s.separateColourPlane := by
  have all := reads_codedOr (fun _ => reads_flag s.separateColourPlane)
    fun other => h (of_decide_eq_false other)
  simpa only [decide_eq_true_eq] using all

/-- The decoder reads a parameter set from its written form. -/
theorem decoder_reads {filling : Filling} {s : Sps} (h : s.Coded filling.allBuffering)
    (fits : filling.Fits s.maxSubLayersMinus1) : decoder.Reads (s.items filling) s := by
  have few := h.maxSubLayersMinus1
  -- lists are coded only where scaling is enabled, and without it there are none
  have lists : (if s.scalingEnabled then some s.scalingLists else none).join = s.scalingLists := by
    cases enabled : s.scalingEnabled with
    | true => rfl
    | false => exact (h.scalingEnabled enabled).symm
  simp only [items, List.append_assoc, List.cons_append, List.nil_append]
  refine (reads_bits h.vpsId (by decide)).cons ?_
  refine (reads_bits h.maxSubLayersMinus1 (by decide)).cons ?_
  refine (reads_flag s.temporalIdNesting).cons ?_
  refine (ProfileTierLevel.decoder_reads h.profile (Nat.le_of_lt_succ few) fits.subLayers).bind ?_
  refine (reads_ue h.id).cons ?_
  refine (reads_ue h.chromaFormat).cons ?_
  refine (separateColourPlane_reads h.separateColourPlane).bind ?_
  refine (reads_ue h.width).cons ?_
  refine (reads_ue h.height).cons ?_
  refine (reads_optional fun w mem => Window.decoder_reads (h.conformanceWindow w mem)).bind ?_
  refine (reads_ue h.bitDepthLumaMinus8).cons ?_
  refine (reads_ue h.bitDepthChromaMinus8).cons ?_
  refine (reads_ue h.log2MaxPocLsbMinus4).cons ?_
  refine (Buffering.perSubLayer_reads h.buffering few).bind ?_
  refine (BlockSizes.decoder_reads h.blockSizes).bind ?_
  refine (reads_flag s.scalingEnabled).cons ?_
  refine (reads_whenFlag fun _ =>
    reads_optional fun l mem => ScalingLists.decoder_reads (h.scalingLists l mem)).bind ?_
  refine (reads_flag s.asymmetricMotion).cons ?_
  refine (reads_flag s.sampleAdaptiveOffset).cons ?_
  refine (reads_optional fun p mem => Pcm.decoder_reads (h.pcm p mem)).bind ?_
  refine (RefPicSet.counted_reads h.shortTermCount h.shortTermSets).bind ?_
  refine (reads_optional fun pics mem =>
    LongTermPic.all_reads (h.longTermCount pics mem) (h.longTermPics pics mem)).bind ?_
  refine (reads_flag s.temporalMvp).cons ?_
  refine (reads_flag s.strongIntraSmoothing).cons ?_
  rw [lists]
  exact (reads_optional fun v mem =>
    Vui.decoder_reads filling.ratioAsPair (h.vui v mem) fits.delayLengths).map

/-- A sequence parameter set is written with escape bytes, whatever the bits are that stand beside
and behind its values, and it is read back as it was. Of the payload no byte is taken behind the
last that has bits of the set. -/
theorem sps_read_written {filling : Filling} {s : Sps} (h : s.Coded filling.allBuffering)
    (fits : filling.Fits s.maxSubLayersMinus1) (trailing : List Bool) :
    ∃ payload,
      escapedBytes (.bytes [0x42, 0x01] :: s.items filling ++ trailing.map Item.flag)
          = .ok (escape payload)
        ∧ read (escape payload)
          = { result := .ok { header, payload := s }
              taken := (escape (payload.take
                ((16 + (Item.allBits (s.items filling)).length + 7) / 8))).length } := by
  have small : header.Fits := ⟨by decide, by decide⟩
  have bytes : Bits.ofBytes [0x42, 0x01] = Item.allBits header.items := by decide
  have head := NalHeader.expecting_reads_bytes small bytes
  have unit := NalUnit.decoder_reads head (decoder_reads h fits)
  obtain ⟨payload, written, found⟩ := NalUnit.read_escape unit trailing
  refine ⟨payload, written, ?_⟩
  rw [Item.allBits_append, List.length_append] at found
  exact found

/-! ## A set with optional parts -/

/-- A 4:4:4 set of two sub-layers with scaling lists, reference pictures on both sides and
reference decoder parameters. -/
def sample : Sps :=
  { vpsId := 0
    maxSubLayersMinus1 := 1
    temporalIdNesting := true
    profile :=
      { general :=
          { space := 0, highTier := false, idc := 4, compatibility := 0x08000000,
            constraints := 0x900000000000, level := 93 }
        subLayers := [⟨none, some 90⟩] }
    id := 0
    chromaFormat := format444
    separateColourPlane := true
    width := 64
    height := 64
    conformanceWindow := some ⟨0, 1, 0, 1⟩
    bitDepthLumaMinus8 := 2
    bitDepthChromaMinus8 := 2
    log2MaxPocLsbMinus4 := 4
    buffering := List.replicate 2 ⟨4, 2, 0⟩
    blockSizes := ⟨0, 3, 0, 3, 1, 1⟩
    scalingEnabled := true
    scalingLists := some .flat
    asymmetricMotion := true
    sampleAdaptiveOffset := true
    pcm := some ⟨7, 7, 0, 2, true⟩
    shortTermSets := [⟨[⟨-1, true⟩, ⟨-3, false⟩], [⟨2, true⟩]⟩]
    longTermPics := some [⟨255, true⟩]
    temporalMvp := true
    strongIntraSmoothing := false
    vui := some
      { aspectRatio := some ⟨4, 3⟩
        overscanAppropriate := none
        videoSignal := some ⟨5, false, some ⟨1, 1, 1⟩⟩
        chromaLocation := none
        neutralChroma := false
        fieldSequence := false
        frameFieldInfo := false
        displayWindow := none
        timing := some
          { clock := ⟨1001, 30000, none⟩
            hrd := some
              { common := ⟨true, false, none, 1, 2⟩
                subLayers := List.replicate 2
                  ⟨true, true, some 0, false, 0, [⟨1000, 2000, none, false⟩], []⟩ } }
        restriction := some ⟨false, true, false, 4095, 2, 1, 15, 15⟩ } }

theorem coded_sample_vui : ∀ v ∈ sample.vui, v.Coded 1 := by
  rintro v ⟨⟩
  refine
    { aspectRatio := ?_, videoSignal := ?_, chromaLocation := ?_, displayWindow := ?_, timing := ?_,
      restriction := ?_ }
  · rintro a ⟨⟩
    constructor <;> decide
  · rintro s ⟨⟩
    refine ⟨by decide, ?_⟩
    rintro c ⟨⟩
    constructor <;> decide
  · rintro c ⟨⟩
  · rintro w ⟨⟩
  · rintro t ⟨⟩
    refine ⟨⟨by decide, by decide, ?_⟩, ?_⟩
    · rintro ticks ⟨⟩
    · rintro hrd ⟨⟩
      refine ⟨⟨?_, by decide, by decide, by decide⟩, by decide, fun s mem => ?_⟩
      · rintro s ⟨⟩
      · rw [List.eq_of_mem_replicate mem]
        refine
          { fixedRate := by decide
            durationPresent := by decide
            duration := by
              rintro d ⟨⟩
              decide
            lowDelay := by decide
            cpbCount := by decide
            lowDelayCount := by decide
            nalBuffers := ⟨by decide, by decide, fun c only => ?_⟩
            vclBuffers := ⟨by decide, by decide, fun c none => absurd none List.not_mem_nil⟩ }
        rw [List.mem_singleton.mp only]
        refine ⟨by decide, by decide, by decide, ?_⟩
        rintro unit ⟨⟩
  · rintro r ⟨⟩
    constructor <;> decide

theorem coded_sample : sample.Coded false where
  vpsId := by decide
  maxSubLayersMinus1 := by decide
  profile := by
    refine ⟨by constructor <;> decide, by decide, fun s mem => ?_⟩
    rw [List.mem_singleton.mp mem]
    refine ⟨?_, ?_⟩
    · rintro p ⟨⟩
    · rintro level ⟨⟩
      decide
  id := by decide
  chromaFormat := by decide
  separateColourPlane := by decide
  width := by decide
  height := by decide
  conformanceWindow := by
    rintro w ⟨⟩
    constructor <;> decide
  bitDepthLumaMinus8 := by decide
  bitDepthChromaMinus8 := by decide
  log2MaxPocLsbMinus4 := by decide
  buffering := by
    refine ⟨by decide, fun b mem => ?_, by decide⟩
    rw [List.eq_of_mem_replicate mem]
    constructor <;> decide
  blockSizes := by constructor <;> decide
  scalingEnabled := by decide
  scalingLists := by
    rintro lists ⟨⟩
    exact ScalingLists.coded_flat
  pcm := by
    rintro p ⟨⟩
    constructor <;> decide
  shortTermCount := by decide
  shortTermSets := by
    intro set mem
    rw [List.mem_singleton.mp mem]
    refine ⟨by decide, by decide, ?_, ?_⟩
    · exact ⟨by decide, by decide, by decide, by decide, trivial⟩
    · exact ⟨by decide, by decide, trivial⟩
  longTermCount := by
    rintro pics ⟨⟩
    decide
  longTermPics := by
    rintro pics ⟨⟩
    decide
  vui := coded_sample_vui

/-- The set is read back from bytes with all the other bits set. -/
theorem sps_read_written_sample :
    ∃ payload,
      escapedBytes
          (.bytes [0x42, 0x01] :: sample.items ⟨0x3fff, false, true, 0x7fff⟩ ++ [.flag true])
          = .ok (escape payload)
        ∧ (read (escape payload)).result = .ok { header, payload := sample } := by
  have fits : Filling.Fits sample.maxSubLayersMinus1 ⟨0x3fff, false, true, 0x7fff⟩ :=
    ⟨by decide, by decide⟩
  obtain ⟨payload, written, found⟩ := sps_read_written coded_sample fits [true]
  exact ⟨payload, written, by rw [found]⟩

end Sps

end Hevc
