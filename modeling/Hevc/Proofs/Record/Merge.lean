import Hevc.Proofs.ParameterSet.Bounds
import Hevc.Record.Merge
import Mathlib.Data.Bool.Basic
import Mathlib.Data.List.Induction
import Mathlib.Data.List.Perm.Basic
import Mathlib.Data.Prod.Lex

/-!
# Merging in closed form

A record that parameter sets were merged into one by one is described by all of them at once:
by maxima, minima and conjunctions over the sets, and by the last set of a kind.

* `covering_append` — the profile that covers some profiles, when one more is merged
* `gather_append` — one more parameter set, merged into the closed form
* `mergeAll_eq` — the closed form of a run of merges
* `finalize_mergeAll` — the final record, which does not depend on the order of the sets but for
  the format of the last sequence and the parallelism of the last picture parameter set
* `gather_congr` — the closed form of sets in another order, with the same last ones
-/

namespace Hevc

/-- A parameter set of any kind. -/
inductive ParameterSet where
  | vps (set : Vps)
  | sps (set : Sps)
  | pps (set : Pps)

namespace ParameterSet

/-- Merges a parameter set into a record. -/
def merge : ParameterSet → Record → Record
  | .vps set => Record.mergeVps set
  | .sps set => Record.mergeSps set
  | .pps set => Record.mergePps set

/-- A parameter set that some NAL unit is read as. -/
def Parsed : ParameterSet → Prop
  | .vps set => ∃ nal header, (Vps.read nal).result = .ok ⟨header, set⟩
  | .sps set => ∃ nal header, (Sps.read nal).result = .ok ⟨header, set⟩
  | .pps set => ∃ nal header, (Pps.read nal).result = .ok ⟨header, set⟩

/-! ## What a set says -/

/-- The profile of the stream. -/
def profile? : ParameterSet → Option Profile
  | .vps set => some set.profile.general
  | .sps set => some set.profile.general
  | .pps _ => none

/-- The number of sub-layers. -/
def subLayers? : ParameterSet → Option Nat
  | .vps set => some (set.maxSubLayersMinus1 + 1)
  | .sps set => some (set.maxSubLayersMinus1 + 1)
  | .pps _ => none

/-- The sub-layers are nested. -/
def isNested : ParameterSet → Bool
  | .vps set => set.temporalIdNesting
  | .sps set => set.temporalIdNesting
  | .pps _ => false

/-- The spatial segmentation. -/
def segmentation? : ParameterSet → Option Nat
  | .sps set => set.vui.bind (·.minSpatialSegmentation?)
  | _ => none

/-- The set itself, if it is a sequence parameter set. -/
def sps? : ParameterSet → Option Sps
  | .sps set => some set
  | _ => none

/-- The parallelism. -/
def parallelism? : ParameterSet → Option Parallelism
  | .pps set => some set.parallelism
  | _ => none

/-! ## What is known of every set -/

/-- The values of a parameter set that a record takes over are bounded. -/
def Bounded : ParameterSet → Prop
  | .vps set => set.Bounded
  | .sps set => set.Bounded
  | .pps _ => True

theorem Parsed.bounded {set : ParameterSet} (h : set.Parsed) : set.Bounded := by
  cases set with
  | vps set =>
    obtain ⟨nal, header, ok⟩ := h
    exact Vps.bounded_of_read ok
  | sps set =>
    obtain ⟨nal, header, ok⟩ := h
    exact Sps.bounded_of_read ok
  | pps set => trivial

theorem Bounded.segmentation_le {set : ParameterSet} (h : set.Bounded) :
    ∀ n ∈ set.segmentation?, n ≤ Restriction.maxSegmentation := by
  intro n mem
  cases set with
  | sps set => exact Sps.Bounded.segmentation h n mem
  | _ => exact absurd mem (by simp [segmentation?])

theorem Bounded.subLayers_le {set : ParameterSet} (h : set.Bounded) :
    ∀ n ∈ set.subLayers?, n ≤ 2 ^ 3 := by
  intro n mem
  cases set with
  | vps set =>
    obtain rfl := Option.some.inj mem
    exact Vps.Bounded.maxSubLayersMinus1 h
  | sps set =>
    obtain rfl := Option.some.inj mem
    exact Sps.Bounded.maxSubLayersMinus1 h
  | pps set => exact absurd mem (by simp [subLayers?])

end ParameterSet

namespace Record

open ParameterSet

/-! ## Profiles -/

/-- The highest pair of a tier and a level, where the tier counts first. -/
def highest (ps : List Profile) : Bool ×ₗ Nat :=
  (ps.map fun p => toLex (p.highTier, p.level)).foldl max (toLex (false, 0))

/-- The profile that covers some profiles. -/
def covering (ps : List Profile) : Profile :=
  { space := (ps.map (·.space)).foldl max 0
    highTier := (ofLex (highest ps)).1
    idc := (ps.map (·.idc)).foldl max 0
    compatibility := (ps.map (·.compatibility)).foldl (· &&& ·) (2 ^ 32 - 1)
    constraints := (ps.map (·.constraints)).foldl (· &&& ·) (2 ^ 48 - 1)
    level := (ofLex (highest ps)).2 }

/-- The higher of two pairs has a level of the higher tier. -/
theorem max_toLex (a b : Bool) (m n : Nat) :
    max (toLex (a, m)) (toLex (b, n))
      = toLex (a || b, if a = b then max m n else if b then n else m) := by
  rcases le_total (toLex (a, m)) (toLex (b, n)) with h | h
  · rw [max_eq_right h]
    rcases Prod.Lex.toLex_le_toLex.mp h with tier | ⟨rfl, level⟩
    · obtain ⟨rfl, rfl⟩ := Bool.lt_iff.mp tier
      rfl
    · rw [Bool.or_self, if_pos rfl, max_eq_right level]
  · rw [max_eq_left h]
    rcases Prod.Lex.toLex_le_toLex.mp h with tier | ⟨rfl, level⟩
    · obtain ⟨rfl, rfl⟩ := Bool.lt_iff.mp tier
      rfl
    · rw [Bool.or_self, if_pos rfl, max_eq_left level]

theorem highest_append (ps : List Profile) (p : Profile) :
    highest (ps ++ [p]) = max (highest ps) (toLex (p.highTier, p.level)) := by
  rw [highest, List.map_append, List.foldl_append]
  rfl

theorem covering_append (ps : List Profile) (p : Profile) :
    covering (ps ++ [p]) = (covering ps).merge p := by
  have pair := highest_append ps p
  rw [show highest ps = toLex ((covering ps).highTier, (covering ps).level) from rfl, max_toLex]
    at pair
  simp only [covering, pair, Profile.merge, List.map_append, List.foldl_append, List.map_cons,
    List.map_nil, List.foldl_cons, List.foldl_nil, ofLex_toLex]

/-- A cover has the high tier if some profile does. -/
theorem covering_highTier (ps : List Profile) : (covering ps).highTier = ps.any (·.highTier) := by
  induction ps using List.reverseRecOn with
  | nil => rfl
  | append_singleton ps p ih =>
    rw [covering_append, List.any_append, ← ih, List.any_cons, List.any_nil, Bool.or_false]
    rfl

/-- The level of a cover is the highest among the profiles of its tier. -/
theorem covering_level (ps : List Profile) :
    (covering ps).level
      = ((ps.filter (·.highTier = (covering ps).highTier)).map (·.level)).foldl max 0 := by
  induction ps using List.reverseRecOn with
  | nil => rfl
  | append_singleton ps p ih =>
    have tier : (covering (ps ++ [p])).highTier = ((covering ps).highTier || p.highTier) := by
      rw [covering_append, Profile.merge]
    rw [tier, covering_append, Profile.merge, List.filter_append, List.map_append,
      List.foldl_append]
    rcases hc : (covering ps).highTier <;> rcases hp : p.highTier
    · rw [hc] at ih
      simp [hp, ih]
    · -- nothing before had the tier that counts now
      have low : ps.filter (·.highTier) = [] := by
        rw [covering_highTier, List.any_eq_false] at hc
        exact List.filter_eq_nil_iff.mpr hc
      simp [hp, low]
    · rw [hc] at ih
      simp [hp, ih]
    · rw [hc] at ih
      simp [hp, ih]

/-! ## Runs of merges -/

/-- The record that parameter sets are merged into, one by one. -/
def mergeAll (sets : List ParameterSet) : Record := sets.foldl (fun r set => set.merge r) empty

/-- The last sequence parameter set. -/
def lastSps? (sets : List ParameterSet) : Option Sps := (sets.filterMap sps?).getLast?

/-- What the sets of a run of merges say together, before the record is final. -/
def gather (sets : List ParameterSet) : Record :=
  { empty with
    profile := covering (sets.filterMap profile?)
    minSpatialSegmentation := (sets.filterMap segmentation?).foldl min unrestricted
    parallelism := ((sets.filterMap parallelism?).getLast?).getD .mixedOrUnknown
    chromaFormat := (lastSps? sets).elim 0 (·.chromaFormat % 4)
    bitDepthLumaMinus8 := (lastSps? sets).elim 0 (·.bitDepthLumaMinus8 % 8)
    bitDepthChromaMinus8 := (lastSps? sets).elim 0 (·.bitDepthChromaMinus8 % 8)
    numTemporalLayers := (sets.filterMap subLayers?).foldl max 0
    temporalIdNested := sets.any isNested }

theorem filterMap_append_singleton {α β : Type} (f : α → Option β) (xs : List α) (x : α) :
    (xs ++ [x]).filterMap f = xs.filterMap f ++ (f x).toList := by
  rw [List.filterMap_append]
  cases h : f x with
  | none => rw [List.filterMap_cons_none h]; rfl
  | some y => rw [List.filterMap_cons_some h]; rfl

theorem gather_append (sets : List ParameterSet) (set : ParameterSet) :
    gather (sets ++ [set]) = set.merge (gather sets) := by
  -- every field is a fold, or a last value, and takes one more set at the end
  simp only [gather, lastSps?, filterMap_append_singleton, List.any_append]
  cases set with
  | vps set =>
    simp [merge, mergeVps, mergeSubLayers, mergeProfile, profile?, segmentation?, parallelism?,
      sps?, subLayers?, isNested, covering_append]
  | sps set =>
    cases hs : set.vui.bind (·.minSpatialSegmentation?) <;>
      simp [merge, mergeSps, mergeSubLayers, mergeProfile, takeFormat, mergeSegmentation, profile?,
        segmentation?, parallelism?, sps?, subLayers?, isNested, covering_append, hs]
  | pps set =>
    simp [merge, mergePps, profile?, segmentation?, parallelism?, sps?, subLayers?, isNested]

theorem mergeAll_eq (sets : List ParameterSet) : mergeAll sets = gather sets := by
  induction sets using List.reverseRecOn with
  | nil => rfl
  | append_singleton sets set ih =>
    rw [gather_append, ← ih, mergeAll, List.foldl_append]
    rfl

/-! ## Values in range -/

/-- A record that only merges were made to: its values fit their fields, but for the spatial
segmentation that nothing restricted and for the number of sub-layers, which may be eight. -/
structure InRange (r : Record) : Prop where
  profile : r.profile.Fits
  minSpatialSegmentation :
    r.minSpatialSegmentation ≤ Restriction.maxSegmentation
      ∨ r.minSpatialSegmentation = unrestricted
  chromaFormat : r.chromaFormat < 2 ^ 2
  bitDepthLumaMinus8 : r.bitDepthLumaMinus8 < 2 ^ 3
  bitDepthChromaMinus8 : r.bitDepthChromaMinus8 < 2 ^ 3
  avgFrameRate : r.avgFrameRate < 2 ^ 16
  lengthSizeMinusOne : r.lengthSizeMinusOne ∈ [0, 1, 3]

theorem inRange_empty : empty.InRange where
  profile := by constructor <;> decide
  minSpatialSegmentation := .inr rfl
  chromaFormat := by decide
  bitDepthLumaMinus8 := by decide
  bitDepthChromaMinus8 := by decide
  avgFrameRate := by decide
  lengthSizeMinusOne := by decide

/-- The values of two profiles fit together where both fit. -/
theorem fits_merge {p q : Profile} (hp : p.Fits) (hq : q.Fits) : (p.merge q).Fits where
  space := Nat.max_lt.mpr ⟨hp.space, hq.space⟩
  idc := Nat.max_lt.mpr ⟨hp.idc, hq.idc⟩
  compatibility := Nat.and_lt_two_pow _ hq.compatibility
  constraints := Nat.and_lt_two_pow _ hq.constraints
  level := by
    rw [Profile.merge]
    split
    · exact Nat.max_lt.mpr ⟨hp.level, hq.level⟩
    · split
      · exact hq.level
      · exact hp.level

theorem inRange_mergeSegmentation {r : Record} (h : r.InRange) {n : Nat}
    (hn : n ≤ Restriction.maxSegmentation) : (r.mergeSegmentation n).InRange :=
  { h with minSpatialSegmentation := .inl (Nat.le_trans (Nat.min_le_right _ _) hn) }

/-- Merging a parameter set keeps the values in range. -/
theorem inRange_merge {r : Record} {set : ParameterSet} (h : r.InRange) (bounded : set.Bounded) :
    (set.merge r).InRange := by
  cases set with
  | vps set => exact { h with profile := fits_merge h.profile (Vps.Bounded.profile bounded) }
  | pps set => exact { h with }
  | sps set =>
    -- the spatial segmentation is merged last, and only where the set carries one
    have merged : (((r.mergeSubLayers set.maxSubLayersMinus1 set.temporalIdNesting).mergeProfile
        set.profile.general).takeFormat set).InRange :=
      { h with
        profile := fits_merge h.profile (Sps.Bounded.profile bounded)
        chromaFormat := Nat.mod_lt _ (by decide)
        bitDepthLumaMinus8 := Nat.mod_lt _ (by decide)
        bitDepthChromaMinus8 := Nat.mod_lt _ (by decide) }
    show (mergeSps set r).InRange
    rw [mergeSps]
    cases hs : set.vui.bind (·.minSpatialSegmentation?) with
    | none => exact merged
    | some n => exact inRange_mergeSegmentation merged (Sps.Bounded.segmentation bounded n hs)

theorem inRange_mergeAll {sets : List ParameterSet} (bounded : ∀ set ∈ sets, set.Bounded) :
    (mergeAll sets).InRange :=
  List.foldlRecOn sets _ inRange_empty fun _ h set mem => inRange_merge h (bounded set mem)

/-! ## The final record -/

/-- The lowest spatial segmentation that a set carries, or 0 if none does. -/
def lowestSegmentation (sets : List ParameterSet) : Nat :=
  ((sets.filterMap segmentation?).min?).getD 0

/-- What the sets of a run of merges say together. -/
def summary (sets : List ParameterSet) : Record :=
  { gather sets with
    minSpatialSegmentation := lowestSegmentation sets
    parallelism :=
      if lowestSegmentation sets = 0 then .mixedOrUnknown
      else ((sets.filterMap parallelism?).getLast?).getD .mixedOrUnknown }

/-- The spatial segmentation of a final record. -/
def settled (segmentation : Nat) : Nat := if segmentation = unrestricted then 0 else segmentation

/-- Making a record final touches two fields only. -/
theorem finalize_eq (r : Record) :
    r.finalize =
      { r with
        minSpatialSegmentation := settled r.minSpatialSegmentation
        parallelism :=
          if settled r.minSpatialSegmentation = 0 then .mixedOrUnknown else r.parallelism } := by
  have segmentation : r.settleSegmentation
      = { r with minSpatialSegmentation := settled r.minSpatialSegmentation } := by
    rw [settleSegmentation, settled]
    split <;> rfl
  rw [finalize, segmentation, settleParallelism]
  split <;> rfl

theorem settled_settled (n : Nat) : settled (settled n) = settled n := by
  by_cases h : n = unrestricted
  · rw [h]
    decide
  · have kept : settled n = n := if_neg h
    rw [kept, kept]

/-- A final record stays as it is. -/
theorem finalize_finalize (r : Record) : r.finalize.finalize = r.finalize := by
  rw [finalize_eq r.finalize, finalize_eq r]
  simp only [settled_settled]
  split <;> rfl

/-- A minimum that starts above all numbers of a list shows whether there are any. -/
theorem settled_foldl_min {ns : List Nat} (h : ∀ n ∈ ns, n < unrestricted) :
    settled (ns.foldl min unrestricted) = ns.min?.getD 0 := by
  rw [List.foldl_min]
  cases hm : ns.min? with
  | none => rfl
  | some m =>
    -- `unrestricted` is above every number of the list, so it takes no part in the minimum
    have below : m < unrestricted := h m (List.min?_mem hm)
    rw [Option.getD_some, Option.getD_some, Nat.min_eq_right below.le, settled, if_neg below.ne]

theorem finalize_gather {sets : List ParameterSet} (parsed : ∀ set ∈ sets, set.Parsed) :
    (gather sets).finalize = summary sets := by
  have bounded : ∀ n ∈ sets.filterMap segmentation?, n < unrestricted := by
    intro n mem
    obtain ⟨set, member, carried⟩ := List.mem_filterMap.mp mem
    exact Nat.lt_of_le_of_lt ((parsed set member).bounded.segmentation_le n carried) (by decide)
  have lowest : settled (gather sets).minSpatialSegmentation = lowestSegmentation sets :=
    settled_foldl_min bounded
  rw [finalize_eq, lowest]
  rfl

/-- A record without the fields that come from the last set of a kind. -/
def withoutLast (r : Record) : Record :=
  { r with
    parallelism := .mixedOrUnknown
    chromaFormat := 0
    bitDepthLumaMinus8 := 0
    bitDepthChromaMinus8 := 0 }

theorem withoutLast_finalize (r : Record) : r.finalize.withoutLast = r.withoutLast.finalize := by
  simp only [finalize_eq, withoutLast, ite_self]

theorem covering_perm {ps qs : List Profile} (h : ps.Perm qs) : covering ps = covering qs := by
  have pairs : highest ps = highest qs := (h.map _).foldl_eq _
  simp only [covering, pairs, (h.map _).foldl_eq _]

theorem withoutLast_gather {sets other : List ParameterSet} (h : sets.Perm other) :
    (gather sets).withoutLast = (gather other).withoutLast := by
  have nested : sets.any isNested = other.any isNested := h.any_eq
  simp only [gather, withoutLast, covering_perm (h.filterMap profile?), nested,
    (h.filterMap segmentation?).foldl_eq _, (h.filterMap subLayers?).foldl_eq _]

/-- The order of parameter sets plays a part for the last ones of two kinds only. -/
theorem gather_congr {sets other : List ParameterSet} (perm : sets.Perm other)
    (sps : sets.filterMap sps? = other.filterMap sps?)
    (pps : sets.filterMap parallelism? = other.filterMap parallelism?) :
    gather sets = gather other := by
  have formats : lastSps? sets = lastSps? other := by rw [lastSps?, sps, lastSps?]
  have rest := withoutLast_gather perm
  have fields : ∀ sets, gather sets = { (gather sets).withoutLast with
      parallelism := ((sets.filterMap parallelism?).getLast?).getD .mixedOrUnknown
      chromaFormat := (lastSps? sets).elim 0 (·.chromaFormat % 4)
      bitDepthLumaMinus8 := (lastSps? sets).elim 0 (·.bitDepthLumaMinus8 % 8)
      bitDepthChromaMinus8 := (lastSps? sets).elim 0 (·.bitDepthChromaMinus8 % 8) } := fun _ => rfl
  rw [fields sets, fields other, rest, formats, pps]

/-- Parameter sets that were read, merged one by one and made final, give the record that all of
them describe together, with the highest level of the highest tier. Making it final once more
changes nothing, and another order of the sets changes only what the last set of a kind says. -/
theorem finalize_mergeAll {sets : List ParameterSet} (parsed : ∀ set ∈ sets, set.Parsed) :
    (mergeAll sets).finalize = summary sets
      ∧ (summary sets).profile.level
          = (((sets.filterMap profile?).filter (·.highTier = (summary sets).profile.highTier)).map
              (·.level)).foldl max 0
      ∧ (mergeAll sets).finalize.finalize = (mergeAll sets).finalize
      ∧ ∀ other, sets.Perm other →
          (mergeAll other).finalize.withoutLast = (mergeAll sets).finalize.withoutLast := by
  refine ⟨?_, covering_level _, finalize_finalize _, fun other perm => ?_⟩
  · rw [mergeAll_eq, finalize_gather parsed]
  · rw [withoutLast_finalize, withoutLast_finalize, mergeAll_eq, mergeAll_eq,
      withoutLast_gather perm]

/-- A video parameter set of a tier and a level. -/
def sampleVps (highTier : Bool) (level : UInt8) : Vps :=
  { id := 0
    maxLayersMinus1 := 0
    maxSubLayersMinus1 := 0
    temporalIdNesting := true
    profile :=
      { general :=
          { space := 0, highTier, idc := 1, compatibility := 0x60111111,
            constraints := 0x901111111111, level := level.toNat }
        subLayers := [] }
    buffering := [⟨0, 0, 0⟩]
    maxLayerId := 0
    layerSets := []
    timing := none }

/-- The NAL unit of such a set; the byte of the tier also has the number of the profile. -/
def sampleVpsNal (tier level : UInt8) : List UInt8 :=
  [0x40, 0x01, 0x0c, 0x01, 0xff, 0xff, tier, 0x60, 0x11, 0x11, 0x11, 0x90, 0x11, 0x11, 0x11, 0x11,
    0x11, level, 0xf0, 0x20]

/-- A sequence parameter set of the main tier, in a higher level, with a spatial segmentation. -/
def segmentedSps : Sps :=
  { vpsId := 0
    maxSubLayersMinus1 := 0
    temporalIdNesting := true
    profile :=
      { general :=
          { space := 0, highTier := false, idc := 2, compatibility := 0x20000000,
            constraints := 0x900000000000, level := 120 }
        subLayers := [] }
    id := 0
    chromaFormat := 1
    separateColourPlane := false
    width := 64
    height := 64
    conformanceWindow := none
    bitDepthLumaMinus8 := 2
    bitDepthChromaMinus8 := 2
    log2MaxPocLsbMinus4 := 4
    buffering := [⟨0, 0, 0⟩]
    blockSizes := ⟨0, 1, 0, 1, 0, 0⟩
    scalingEnabled := false
    scalingLists := none
    asymmetricMotion := false
    sampleAdaptiveOffset := false
    pcm := none
    shortTermSets := []
    longTermPics := none
    temporalMvp := false
    strongIntraSmoothing := false
    vui := some
      { aspectRatio := none
        overscanAppropriate := none
        videoSignal := none
        chromaLocation := none
        neutralChroma := false
        fieldSequence := false
        frameFieldInfo := false
        displayWindow := none
        timing := none
        restriction := some ⟨false, false, false, 7, 0, 0, 0, 0⟩ } }

/-- The NAL unit of that set, with its escape bytes. -/
def segmentedSpsNal : List UInt8 :=
  [0x42, 0x01, 0x01, 0x02, 0x20, 0x00, 0x00, 0x03, 0x00, 0x90, 0x00, 0x00, 0x03, 0x00, 0x00, 0x03,
    0x00, 0x78, 0xa0, 0x20, 0x81, 0x04, 0xd9, 0x7e, 0xab, 0x08, 0x80, 0x20, 0x47, 0xc0]

/-- A picture parameter set with tiles. -/
def tiledPps : Pps :=
  { id := 0
    spsId := 0
    dependentSliceSegments := false
    outputFlagPresent := false
    extraSliceHeaderBits := 0
    signDataHiding := false
    cabacInitPresent := false
    refIdxL0DefaultActiveMinus1 := 0
    refIdxL1DefaultActiveMinus1 := 0
    initQpMinus26 := 0
    constrainedIntraPred := false
    transformSkip := false
    cuQpDeltaDepth := none
    cbQpOffset := 0
    crQpOffset := 0
    sliceChromaQpOffsetsPresent := false
    weightedPred := false
    weightedBipred := false
    transquantBypass := false
    tiles := true
    entropyCodingSync := false }

/-- The NAL unit of that set. -/
def tiledPpsNal : List UInt8 := [0x44, 0x01, 0xc0, 0x71, 0x85]

/-- Two video parameter sets of different tiers, and a set of either other kind. -/
def tieredSets : List ParameterSet :=
  [.vps (sampleVps true 90), .sps segmentedSps, .pps tiledPps, .vps (sampleVps false 120)]

/-- The level of the main tier does not count beside the high tier. The parallelism stays, since
there is a spatial segmentation. -/
theorem finalize_mergeAll_tiers :
    (mergeAll tieredSets).finalize
      = { empty with
          profile :=
            { space := 0, highTier := true, idc := 2, compatibility := 0x20000000,
              constraints := 0x900000000000, level := 90 }
          minSpatialSegmentation := 7
          parallelism := .tile
          chromaFormat := 1
          bitDepthLumaMinus8 := 2
          bitDepthChromaMinus8 := 2
          numTemporalLayers := 1
          temporalIdNested := true } := by
  have parsed : ∀ set ∈ tieredSets, set.Parsed := by
    intro set mem
    simp only [tieredSets, List.mem_cons, List.not_mem_nil, or_false] at mem
    rcases mem with rfl | rfl | rfl | rfl
    · exact ⟨sampleVpsNal 0x21 90, ⟨.vps, 0, 1⟩, rfl⟩
    · exact ⟨segmentedSpsNal, ⟨.sps, 0, 1⟩, toOption_ok (by decide +kernel)⟩
    · exact ⟨tiledPpsNal, ⟨.pps, 0, 1⟩, toOption_ok (by decide +kernel)⟩
    · exact ⟨sampleVpsNal 0x01 120, ⟨.vps, 0, 1⟩, rfl⟩
  rw [(finalize_mergeAll parsed).1]
  decide +kernel

end Record

end Hevc
