import Hevc.Proofs.NalUnit
import Hevc.Proofs.ParameterSet.Vui
import Hevc.Proofs.Profile
import Hevc.Written.Vps

/-!
# Round trip of video parameter sets

Layer sets are written flag by flag, and the reference decoder parameters of a layer set with
their common information: only the first place of the list has no flag for it.

* `Vps.Coded` — the parameter sets that the syntax can code
* `Vps.decoder_reads` — a parameter set is read back from its written form
* `Vps.vps_read_written` — so is a NAL unit with its escape bytes, whatever follows the set
-/

namespace Hevc

open Decoder

/-! ## Timing -/

/-- The parameters of a layer set, with a number in range. -/
structure LayerSetHrd.Coded (maxSubLayersMinus1 : Nat) (h : LayerSetHrd) : Prop where
  layerSet : h.layerSet ≤ maxCode
  hrd : h.hrd.Coded maxSubLayersMinus1

theorem LayerSetHrd.decoder_reads {maxSubLayersMinus1 place : Nat} {delayLengths : Nat → Nat}
    {h : LayerSetHrd} (coded : h.Coded maxSubLayersMinus1)
    (fits : delayLengths place < 2 ^ HrdCommon.delayLengthBits) :
    (decoder maxSubLayersMinus1 place).Reads (h.items delayLengths place) h := by
  have hrd := (Hrd.decoder_reads coded.hrd fits).map (f := LayerSetHrd.mk h.layerSet)
  rw [items, List.cons_append]
  refine (reads_ue coded.layerSet).cons ?_
  -- the flag of the common information is left out at the first place, where it is inferred
  by_cases first : 0 < place
  · rw [if_pos first, decide_eq_true first]
    exact (reads_flag true).cons hrd
  · rw [if_neg first, decide_eq_false first]
    exact (reads_pure true).step hrd

/-- A timing part with numbers in range, and at most one structure for each layer set. -/
structure VpsTiming.Coded (maxSubLayersMinus1 layerSetsMinus1 : Nat) (t : VpsTiming) : Prop where
  clock : t.clock.Coded
  hrdCount : t.hrds.length ≤ layerSetsMinus1 + 1
  hrds : ∀ h ∈ t.hrds, h.Coded maxSubLayersMinus1

/-- The most layer sets after the first. -/
def Vps.maxLayerSetsMinus1 : Nat := 1023

/-- In front of the structures stand the clock and the number of them. -/
theorem VpsTiming.decoder_leads {maxSubLayersMinus1 layerSetsMinus1 : Nat} {t : VpsTiming}
    (h : t.Coded maxSubLayersMinus1 layerSetsMinus1)
    (few : layerSetsMinus1 ≤ Vps.maxLayerSetsMinus1) :
    (decoder maxSubLayersMinus1 layerSetsMinus1).Leads (t.clock.items ++ [.ue t.hrds.length]) (do
      let hrds ← forEach (List.range t.hrds.length) (LayerSetHrd.decoder maxSubLayersMinus1)
      return { t with hrds }) := by
  have count := h.hrdCount
  rw [Vps.maxLayerSetsMinus1] at few
  refine .bind (Clock.decoder_reads h.clock) ?_
  refine .cons (reads_ue (by rw [maxCode]; omega)) ?_
  refine .step (reads_checked (Word.unsigned?_of_lt (show layerSetsMinus1 + 1 < 2 ^ 64 by omega)))
    ?_
  exact .step (reads_require (by omega)) (.refl _)

/-- The structures, each with its place in the list. -/
theorem VpsTiming.hrds_reads (items : LayerSetHrd → Nat → List Item) {maxSubLayersMinus1 : Nat}
    {t : VpsTiming}
    (each : ∀ x ∈ t.hrds.zipIdx, (LayerSetHrd.decoder maxSubLayersMinus1 x.2).Reads
      (items x.1 x.2) x.1) :
    (forEach (List.range t.hrds.length) (LayerSetHrd.decoder maxSubLayersMinus1)).Reads
      (t.hrds.zipIdx.flatMap fun (hrd, place) => items hrd place) t.hrds := by
  have places : List.range t.hrds.length = t.hrds.zipIdx.map Prod.snd := by
    rw [List.zipIdx_map_snd, List.range_eq_range']
  have structures := reads_forEach each
  rwa [List.zipIdx_map_fst, ← places] at structures

theorem VpsTiming.decoder_reads {maxSubLayersMinus1 layerSetsMinus1 : Nat}
    {delayLengths : Nat → Nat} {t : VpsTiming}
    (h : t.Coded maxSubLayersMinus1 layerSetsMinus1)
    (few : layerSetsMinus1 ≤ Vps.maxLayerSetsMinus1)
    (fits : ∀ place, delayLengths place < 2 ^ HrdCommon.delayLengthBits) :
    (decoder maxSubLayersMinus1 layerSetsMinus1).Reads (t.items delayLengths) t := by
  have structures :=
    hrds_reads (fun hrd place => hrd.items delayLengths place) fun x mem =>
      LayerSetHrd.decoder_reads (h.hrds x.1 (List.fst_mem_of_mem_zipIdx mem)) (fits x.2)
  have all := (decoder_leads h few).reads structures.map
  rwa [List.append_assoc] at all

/-! ## Parameter sets -/

namespace Vps

/-- The bits beside the values of a parameter set fit their places. -/
structure Filling.Fits (maxSubLayersMinus1 : Nat) (f : Filling) : Prop where
  baseLayer : f.baseLayer < 2 ^ 2
  reserved : f.reserved < 2 ^ 16
  subLayers : f.subLayers < 2 ^ (2 * (8 - maxSubLayersMinus1))
  delayLengths : ∀ place, f.delayLengths place < 2 ^ HrdCommon.delayLengthBits

/-- A parameter set that the syntax can code, with its picture buffering written for all
sub-layers or for the highest only. -/
structure Coded (allBuffering : Bool) (v : Vps) : Prop where
  id : v.id < 2 ^ 4
  maxLayersMinus1 : v.maxLayersMinus1 < 2 ^ 6
  maxSubLayersMinus1 : v.maxSubLayersMinus1 < 2 ^ 3
  profile : v.profile.Coded v.maxSubLayersMinus1
  buffering : Buffering.AllCoded v.maxSubLayersMinus1 allBuffering v.buffering
  maxLayerId : v.maxLayerId < 2 ^ 6
  layerSetCount : v.layerSets.length ≤ maxLayerSetsMinus1
  layerSets : ∀ flags ∈ v.layerSets, flags.length = v.maxLayerId + 1
  timing : ∀ t ∈ v.timing, t.Coded v.maxSubLayersMinus1 v.layerSets.length

theorem layerSetCount_reads {count : Nat} (h : count ≤ maxLayerSetsMinus1) :
    layerSetCount.Reads [.ue count] count := by
  rw [maxLayerSetsMinus1] at h
  exact .inRange (by omega) (by decide) (reads_pure count)

/-- A layer set is written by one flag for each layer. -/
theorem layerSet_reads (flags : List Bool) :
    (many flags.length flag).Reads (flags.map Item.flag) flags := by
  rw [List.map_eq_flatMap]
  exact reads_many fun b _ => reads_flag b

/-- Behind the other parts of a parameter set its timing part is left to be read. -/
theorem decoder_leads {filling : Filling} {v : Vps} (h : v.Coded filling.allBuffering)
    (fits : filling.Fits v.maxSubLayersMinus1) :
    decoder.Leads (v.frontItems filling) (do
      let timing ← optional (VpsTiming.decoder v.maxSubLayersMinus1 v.layerSets.length)
      return { v with timing }) := by
  have few := h.maxSubLayersMinus1
  have layers : Word.unsigned? 64 (v.maxLayerId + 1) = some (v.maxLayerId + 1) := by
    have small := h.maxLayerId
    exact Word.unsigned?_of_lt (by omega)
  simp only [frontItems, List.append_assoc, List.cons_append, List.nil_append]
  refine .cons (reads_bits h.id (by decide)) ?_
  refine .cons (reads_bits fits.baseLayer (by decide)) ?_
  refine .cons (reads_bits h.maxLayersMinus1 (by decide)) ?_
  refine .cons (reads_bits h.maxSubLayersMinus1 (by decide)) ?_
  refine .cons (reads_flag v.temporalIdNesting) ?_
  refine .cons (reads_ignore fits.reserved (by decide)) ?_
  refine .bind
    (ProfileTierLevel.decoder_reads h.profile (Nat.le_of_lt_succ few) fits.subLayers) ?_
  refine .bind (Buffering.perSubLayer_reads h.buffering few) ?_
  refine .cons (reads_bits h.maxLayerId (by decide)) ?_
  refine .cons (layerSetCount_reads h.layerSetCount) ?_
  refine .step (reads_checked layers) ?_
  have flags : (many v.layerSets.length (many (v.maxLayerId + 1) flag)).Reads
      (v.layerSets.flatMap (List.map Item.flag)) v.layerSets := by
    refine reads_many fun flags mem => ?_
    rw [← h.layerSets flags mem]
    exact layerSet_reads flags
  rw [← List.append_nil (List.flatMap _ _)]
  exact .bind flags (.refl _)

/-- The decoder reads a parameter set from its written form. -/
theorem decoder_reads {filling : Filling} {v : Vps} (h : v.Coded filling.allBuffering)
    (fits : filling.Fits v.maxSubLayersMinus1) : decoder.Reads (v.items filling) v :=
  (decoder_leads h fits).reads (reads_optional fun t mem =>
    VpsTiming.decoder_reads (h.timing t mem) h.layerSetCount fits.delayLengths).map

/-- A video parameter set is written with escape bytes, whatever the bits are that stand beside and
behind its values, and it is read back as it was. Of the payload no byte is taken behind the last
that has bits of the set. -/
theorem vps_read_written {filling : Filling} {v : Vps} (h : v.Coded filling.allBuffering)
    (fits : filling.Fits v.maxSubLayersMinus1) (trailing : List Bool) :
    ∃ payload,
      escapedBytes (.bytes [0x40, 0x01] :: v.items filling ++ trailing.map Item.flag)
          = .ok (escape payload)
        ∧ read (escape payload)
          = { result := .ok { header, payload := v }
              taken := (escape (payload.take
                ((16 + (Item.allBits (v.items filling)).length + 7) / 8))).length } := by
  have small : header.Fits := ⟨by decide, by decide⟩
  have bytes : Bits.ofBytes [0x40, 0x01] = Item.allBits header.items := by decide
  have head := NalHeader.expecting_reads_bytes small bytes
  have unit := NalUnit.decoder_reads head (decoder_reads h fits)
  obtain ⟨payload, written, found⟩ := NalUnit.read_escape unit trailing
  refine ⟨payload, written, ?_⟩
  rw [Item.allBits_append, List.length_append] at found
  exact found

/-! ## A set with layer sets and buffers -/

/-- A buffer with fields of decoding units. -/
def sampleCpb : Cpb := ⟨1000, maxCode, some (3, 5), true⟩

/-- Parameters with buffers of both streams, two in the lower sub-layer and one in the upper. -/
def sampleHrd : Hrd :=
  { common := ⟨true, true, some ⟨98, 7, true, 9, 3⟩, 1, 2⟩
    subLayers :=
      [⟨true, true, some 2047, false, 1, List.replicate 2 sampleCpb, List.replicate 2 sampleCpb⟩,
        ⟨false, false, none, true, 0, List.replicate 1 sampleCpb, List.replicate 1 sampleCpb⟩] }

/-- Parameters without any buffers. -/
def bufferlessHrd : Hrd :=
  { common := .absent, subLayers := List.replicate 2 ⟨true, true, some 0, false, 31, [], []⟩ }

/-- A set of two sub-layers, with two layer sets of three layers after the first, each with
reference decoder parameters. -/
def sample : Vps :=
  { id := 15
    maxLayersMinus1 := 2
    maxSubLayersMinus1 := 1
    temporalIdNesting := false
    profile :=
      { general :=
          { space := 0, highTier := true, idc := 2, compatibility := 0x20000000,
            constraints := 0x900000000000, level := 120 }
        subLayers :=
          [⟨some
              { space := 0, highTier := false, idc := 1, compatibility := 0x60000000,
                constraints := 0, level := 93 },
            some 93⟩] }
    buffering := [⟨1, 0, 0⟩, ⟨4, 2, maxCode⟩]
    maxLayerId := 2
    layerSets := [[true, true, false], [true, true, true]]
    timing := some
      { clock := ⟨1001, 60000, some 0⟩
        hrds := [⟨1, sampleHrd⟩, ⟨2, bufferlessHrd⟩] } }

theorem codedBuffers_sample (countMinus1 : Nat) :
    HrdSubLayer.CodedBuffers true countMinus1 true
      (List.replicate (countMinus1 + 1) sampleCpb) := by
  refine ⟨fun _ => List.length_replicate, nofun, fun c mem => ?_⟩
  rw [List.eq_of_mem_replicate mem]
  refine ⟨by decide, by decide, rfl, ?_⟩
  rintro unit ⟨⟩
  decide

theorem coded_sampleHrd : sampleHrd.Coded 1 := by
  refine ⟨⟨?_, by decide, by decide, by decide⟩, rfl, fun s mem => ?_⟩
  · rintro s ⟨⟩
    constructor <;> decide
  · simp only [sampleHrd, List.mem_cons, List.not_mem_nil, or_false] at mem
    rcases mem with rfl | rfl
    · refine ⟨by decide, rfl, ?_, by decide, by decide, by decide, codedBuffers_sample 1,
        codedBuffers_sample 1⟩
      rintro d ⟨⟩
      decide
    · refine ⟨by decide, rfl, ?_, by decide, by decide, by decide, codedBuffers_sample 0,
        codedBuffers_sample 0⟩
      rintro d ⟨⟩

theorem coded_bufferlessHrd : bufferlessHrd.Coded 1 := by
  have none : HrdSubLayer.CodedBuffers false 31 false [] := ⟨nofun, fun _ => rfl, nofun⟩
  refine ⟨⟨nofun, by decide, by decide, fun _ => rfl⟩, rfl, fun s mem => ?_⟩
  rw [List.eq_of_mem_replicate mem]
  refine ⟨by decide, rfl, ?_, by decide, by decide, by decide, none, none⟩
  rintro d ⟨⟩
  decide

theorem coded_sample : sample.Coded true where
  id := by decide
  maxLayersMinus1 := by decide
  maxSubLayersMinus1 := by decide
  profile := by
    refine ⟨by constructor <;> decide, rfl, fun s mem => ?_⟩
    rw [List.mem_singleton.mp mem]
    refine ⟨?_, ?_⟩
    · rintro p ⟨⟩
      exact ⟨by constructor <;> decide, rfl⟩
    · rintro level ⟨⟩
      decide
  buffering := by
    refine ⟨rfl, fun b mem => ?_, nofun⟩
    simp only [sample, List.mem_cons, List.not_mem_nil, or_false] at mem
    rcases mem with rfl | rfl <;> constructor <;> decide
  maxLayerId := by decide
  layerSetCount := by decide
  layerSets := by decide
  timing := by
    rintro t ⟨⟩
    refine ⟨⟨by decide, by decide, ?_⟩, by decide, fun h mem => ?_⟩
    · rintro ticks ⟨⟩
      decide
    · simp only [List.mem_cons, List.not_mem_nil, or_false] at mem
      rcases mem with rfl | rfl
      · exact ⟨by decide, coded_sampleHrd⟩
      · exact ⟨by decide, coded_bufferlessHrd⟩

/-- The set is read back from bytes with all the other bits set. -/
theorem vps_read_written_sample :
    ∃ payload,
      escapedBytes
          (.bytes [0x40, 0x01] :: sample.items ⟨3, 0xffff, 0x3fff, true, fun _ => 0x7fff⟩
            ++ [.flag true])
          = .ok (escape payload)
        ∧ (read (escape payload)).result = .ok { header, payload := sample } := by
  have fits : Filling.Fits sample.maxSubLayersMinus1 ⟨3, 0xffff, 0x3fff, true, fun _ => 0x7fff⟩ :=
    ⟨by decide, by decide, by decide, fun _ => show 0x7fff < 2 ^ 15 by decide⟩
  obtain ⟨payload, written, found⟩ := vps_read_written coded_sample fits [true]
  exact ⟨payload, written, by rw [found]⟩

end Vps

end Hevc
