import Hevc.Proofs.Record.Absorb
import Hevc.Proofs.Record.RoundTrip

/-!
# Built records, written and read again

What a built record says fits its fields, but for the number of sub-layers, which may be eight.

* `build_ok` — a built record is the merge of the parameter sets of its stream, with arrays that
  hold nothing but units that a record can carry
* `demux_toBytes_build` — a built record is read back from its bytes as it was, unless a parameter
  set announces eight sub-layers
-/

namespace Hevc

namespace Record

/-- The arrays have types that a record carries, and units that it can carry. -/
def Carries (arrays : List NalArray) : Prop :=
  ∀ a ∈ arrays, a.type ∈ NalType.carried ∧ ∀ unit ∈ a.units.toList, unit.length ≤ maxUnitSize

/-- A built record says what the parameter sets of its stream say together, and holds units that
a record can carry. -/
theorem build_ok {options : Options} {data : List UInt8} {r : Record}
    (h : build options data = .ok r) :
    r.withoutArrays = (mergeAll (parameterSets data)).finalize ∧ Carries r.arrays := by
  obtain ⟨acceptable, -, rfl⟩ := build_iff.mp h
  refine ⟨withoutArrays_ofUnits options _, fun a mem => ?_⟩
  obtain ⟨kept, -, same⟩ := mem_arraysOf.mp mem
  refine ⟨(mem_keptTypes.mp kept).1, fun unit held => (acceptable a.type kept unit ?_).size⟩
  rw [same] at held
  exact held

/-! ## The number of sub-layers -/

theorem foldl_max_le {start bound : Nat} {ns : List Nat} :
    ns.foldl max start ≤ bound ↔ start ≤ bound ∧ ∀ n ∈ ns, n ≤ bound := by
  induction ns generalizing start with
  | nil => simp
  | cons n rest ih => rw [List.foldl_cons, ih, Nat.max_le, List.forall_mem_cons, and_assoc]

theorem numTemporalLayers_le {sets : List ParameterSet} {bound : Nat} :
    (mergeAll sets).numTemporalLayers ≤ bound
      ↔ ∀ set ∈ sets, ∀ n ∈ set.subLayers?, n ≤ bound := by
  have maximum : (mergeAll sets).numTemporalLayers
      = (sets.filterMap ParameterSet.subLayers?).foldl max 0 := by
    rw [mergeAll_eq]
    rfl
  rw [maximum, foldl_max_le, and_iff_right (Nat.zero_le bound)]
  constructor
  · intro all set mem n announced
    exact all n (List.mem_filterMap.mpr ⟨set, mem, announced⟩)
  · intro all n mem
    obtain ⟨set, member, announced⟩ := List.mem_filterMap.mp mem
    exact all set member n announced

/-- Some parameter set of a stream announces eight sub-layers, which 3 bits do not hold. -/
def AnnouncesEight (data : List UInt8) : Prop :=
  ∃ set ∈ parameterSets data, set.subLayers? = some 8

/-! ## Round trip -/

/-- A record whose number of sub-layers is reduced to its field. -/
def reduced (r : Record) : Record := { r with numTemporalLayers := r.numTemporalLayers % 2 ^ 3 }

theorem items_reduced (r : Record) : r.reduced.items = r.items := by
  have fixed : r.reduced.fixedItems = r.fixedItems := by
    simp only [fixedItems, reduced, field_mod]
  rw [items, items, fixed]
  rfl

theorem toBytes_reduced (r : Record) : r.reduced.toBytes = r.toBytes := by
  rw [toBytes, toBytes, mux, mux, items_reduced]

/-- Only a record with numbers that their fields hold is written. -/
theorem countable_of_toBytes {r : Record} {bytes : List UInt8} (h : r.toBytes = .ok bytes) :
    r.Countable := by
  rw [toBytes_eq_form] at h
  split at h
  · next uncut => exact cut_form.mp uncut
  · exact absurd h (by simp)

theorem parsed_of_mem {data : List UInt8} {set : ParameterSet} (h : set ∈ parameterSets data) :
    set.Parsed := by
  obtain ⟨nal, -, read⟩ := List.mem_filterMap.mp h
  exact parsed_of_parameterSet? read

theorem inRange_build {options : Options} {data : List UInt8} {r : Record}
    (h : build options data = .ok r) :
    r.InRange ∧ r.minSpatialSegmentation ≤ Restriction.maxSegmentation := by
  have merged : (mergeAll (parameterSets data)).InRange :=
    inRange_mergeAll fun set mem => (parsed_of_mem mem).bounded
  have bound : settled (mergeAll (parameterSets data)).minSpatialSegmentation
      ≤ Restriction.maxSegmentation := by
    rw [settled]
    split
    · exact Nat.zero_le _
    · next restricted => exact merged.minSpatialSegmentation.resolve_right restricted
  have final : r.withoutArrays.InRange
      ∧ r.withoutArrays.minSpatialSegmentation ≤ Restriction.maxSegmentation := by
    rw [(build_ok h).1, finalize_eq]
    exact ⟨{ merged with minSpatialSegmentation := .inl bound }, bound⟩
  exact ⟨{ final.1 with }, final.2⟩

/-- A built record that is written has values that fit, but for the number of sub-layers. -/
theorem fits_reduced {options : Options} {data bytes : List UInt8} {r : Record}
    (built : build options data = .ok r) (written : r.toBytes = .ok bytes) : r.reduced.Fits := by
  obtain ⟨inRange, segmentation⟩ := inRange_build built
  have countable := countable_of_toBytes written
  have carries := (build_ok built).2
  exact
    { inRange with
      minSpatialSegmentation := Nat.lt_succ_of_le segmentation
      numTemporalLayers := Nat.mod_lt _ (by decide)
      arrays := countable.arrays
      array := fun a mem =>
        { type := (carries a mem).1
          size := countable.units a mem
          units := fun unit held => Nat.lt_succ_of_le ((carries a mem).2 unit held) } }

/-- The number of sub-layers of a built record fits its field unless eight are announced. -/
theorem numTemporalLayers_build {options : Options} {data : List UInt8} {r : Record}
    (h : build options data = .ok r) : r.numTemporalLayers < 2 ^ 3 ↔ ¬AnnouncesEight data := by
  have same : r.numTemporalLayers = (mergeAll (parameterSets data)).numTemporalLayers := by
    have fields := congrArg numTemporalLayers (build_ok h).1
    rwa [finalize_eq] at fields
  rw [same, Nat.lt_iff_le_pred (by decide), numTemporalLayers_le, AnnouncesEight]
  constructor
  · rintro all ⟨set, mem, eight⟩
    exact absurd (all set mem 8 eight) (by decide)
  · intro none set mem n announced
    have most : n ≤ 2 ^ 3 := (parsed_of_mem mem).bounded.subLayers_le n announced
    have notEight : n ≠ 8 := fun eight => none ⟨set, mem, eight ▸ announced⟩
    omega

/-- A built record is read back from its bytes, with the number of its sub-layers reduced to three
bits. So it is the same record again exactly if no parameter set announces eight sub-layers. -/
theorem demux_toBytes_build {options : Options} {data bytes : List UInt8} {r : Record}
    (built : build options data = .ok r) (written : r.toBytes = .ok bytes) :
    demux bytes = (.ok { r with numTemporalLayers := r.numTemporalLayers % 2 ^ 3 }, bytes.length)
      ∧ ((demux bytes).1 = .ok r ↔ ¬AnnouncesEight data) := by
  -- the reduced record fits its fields and has the same bytes, so it is what is read
  have read : demux bytes = (.ok r.reduced, bytes.length) := by
    have fits := fits_reduced built written
    obtain ⟨found, done, -, bits⟩ := toBytes_of_fits fits
    rw [toBytes_reduced, written, Except.ok.injEq] at done
    have all := demux_append fits bits []
    rwa [List.append_nil, ← done] at all
  refine ⟨read, ?_⟩
  rw [read, ← numTemporalLayers_build built]
  constructor
  · intro same
    have number := congrArg numTemporalLayers (Except.ok.inj same)
    exact number ▸ Nat.mod_lt _ (by decide)
  · intro small
    rw [reduced, Nat.mod_eq_of_lt small]

/-! ## Two streams -/

/-- A video parameter set with one sub-layer. -/
def oneLayerVps : List UInt8 := sampleVpsNal 0x01 93

/-- A video parameter set with eight sub-layers. -/
def eightLayersVps : List UInt8 :=
  [0x40, 0x01, 0x0c, 0x0f, 0xff, 0xff, 0x01, 0x60, 0x11, 0x11, 0x11, 0x90, 0x11, 0x11, 0x11, 0x11,
    0x11, 0x5d, 0x00, 0x00, 0x70, 0x28]

/-- A sequence parameter set with one sub-layer. -/
def sampleSps : List UInt8 :=
  [0x42, 0x01, 0x01, 0x01, 0x60, 0x11, 0x11, 0x11, 0x90, 0x11, 0x11, 0x11, 0x11, 0x11, 0x5d, 0xa0,
    0x20, 0x81, 0x05, 0x95, 0xff, 0x08, 0x40]

/-- A picture parameter set. -/
def samplePps : List UInt8 := [0x44, 0x01, 0xc0, 0x71, 0x81]

/-- A stream with a given video parameter set. -/
def sampleStream (vps : List UInt8) : List UInt8 :=
  startCode ++ vps ++ startCode ++ sampleSps ++ startCode ++ samplePps

/-- The record of such a stream. -/
def sampleRecord (vps : List UInt8) (layers : Nat) : Record :=
  { empty with
    profile :=
      { space := 0, highTier := false, idc := 1, compatibility := 0x60111111,
        constraints := 0x901111111111, level := 93 }
    minSpatialSegmentation := 0
    chromaFormat := 1
    numTemporalLayers := layers
    temporalIdNested := true
    arrays := [⟨false, .vps, #[vps]⟩, ⟨false, .sps, #[sampleSps]⟩, ⟨false, .pps, #[samplePps]⟩] }

/-- With one sub-layer the record is the same again. -/
theorem demux_toBytes_build_oneLayer :
    ∃ bytes, build .default (sampleStream oneLayerVps) = .ok (sampleRecord oneLayerVps 1)
      ∧ (sampleRecord oneLayerVps 1).toBytes = .ok bytes
      ∧ (demux bytes).1 = .ok (sampleRecord oneLayerVps 1) := by
  have built : build .default (sampleStream oneLayerVps) = .ok (sampleRecord oneLayerVps 1) :=
    toOption_ok (by decide +kernel)
  have writable : (sampleRecord oneLayerVps 1).toBytes.toOption.isSome := by decide +kernel
  obtain ⟨bytes, found⟩ := Option.isSome_iff_exists.mp writable
  have written := toOption_ok found
  have few : ¬AnnouncesEight (sampleStream oneLayerVps) := by
    rw [AnnouncesEight]
    decide +kernel
  exact ⟨bytes, built, written, (demux_toBytes_build built written).2.mpr few⟩

/-- With eight sub-layers the record that is read back has none. -/
theorem demux_toBytes_build_eightLayers :
    ∃ bytes, build .default (sampleStream eightLayersVps) = .ok (sampleRecord eightLayersVps 8)
      ∧ (sampleRecord eightLayersVps 8).toBytes = .ok bytes
      ∧ (demux bytes).1 = .ok (sampleRecord eightLayersVps 0)
      ∧ (demux bytes).1 ≠ .ok (sampleRecord eightLayersVps 8) := by
  have built : build .default (sampleStream eightLayersVps) = .ok (sampleRecord eightLayersVps 8) :=
    toOption_ok (by decide +kernel)
  have writable : ((sampleRecord eightLayersVps 8).toBytes.toOption.bind fun bytes =>
      (demux bytes).1.toOption) = some (sampleRecord eightLayersVps 0) := by decide +kernel
  obtain ⟨bytes, written, read⟩ := Option.bind_eq_some_iff.mp writable
  have lost : (demux bytes).1 = .ok (sampleRecord eightLayersVps 0) := toOption_ok read
  refine ⟨bytes, built, toOption_ok written, lost, fun same => ?_⟩
  rw [lost] at same
  exact absurd (congrArg numTemporalLayers (Except.ok.inj same)) (by decide)

end Record

end Hevc
