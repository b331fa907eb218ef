import Hevc.Proofs.Record.Build

/-!
# Units of all types, mixed

A record keeps the units of each type in their order, and takes nothing else from how the types
are mixed: two streams that have the same units of every kept type have the same record, or both
have none.

* `build_keeps` — which units a built record holds, and where
* `mergeAll_congr` — the parameter sets of both are merged to the same record
* `build_mixed` — streams that mix the same units have the same record
-/

namespace Hevc

open ParameterSet

namespace Record

/-! ## What is kept -/

/-- The arrays of a built record have the order of their types, with one array at most for each.
An array is there for each type that has units, of supplemental enhancement information only if
that is asked for; it holds all units of its type as they stand in the stream, and has the flag
that was asked for. The rest of the record does not depend on what was asked for. -/
theorem build_keeps {options : Options} {data : List UInt8} {r : Record}
    (built : build options data = .ok r) :
    (r.arrays.map (·.type)).Sublist NalType.carried
      ∧ (r.arrays.map (·.type)).Nodup
      ∧ (∀ a ∈ r.arrays, a.complete = options.complete ∧ a.units.toList ≠ []
          ∧ a.units.toList = (Stream.units data).filter (nalTypeOf? · = some a.type))
      ∧ (∀ type, (∃ a ∈ r.arrays, a.type = type)
          ↔ type ∈ NalType.carried ∧ (type.isSei → options.includeSei)
            ∧ ∃ nal ∈ Stream.units data, nalTypeOf? nal = some type)
      ∧ ∀ other r', build other data = .ok r' → r'.withoutArrays = r.withoutArrays := by
  have others : ∀ other r', build other data = .ok r' → r'.withoutArrays = r.withoutArrays := by
    intro other r' built'
    rw [(build_ok built').1, (build_ok built).1]
  obtain ⟨-, -, rfl⟩ := build_iff.mp built
  have order := types_arraysOf options (Stream.units data)
  refine ⟨order, order.nodup (by decide), ?_, ?_, others⟩
  · intro a mem
    obtain ⟨-, some, same⟩ := mem_arraysOf.mp mem
    rw [same]
    exact ⟨rfl, some, rfl⟩
  · intro type
    rw [← and_assoc, ← mem_keptTypes, ← unitsOf_ne_nil]
    constructor
    · rintro ⟨a, mem, rfl⟩
      obtain ⟨kept, some, -⟩ := mem_arraysOf.mp mem
      exact ⟨kept, some⟩
    · rintro ⟨kept, some⟩
      exact ⟨⟨options.complete, type, (unitsOf type (Stream.units data)).toArray⟩,
        mem_arraysOf.mpr ⟨kept, some, rfl⟩, rfl⟩

/-- Supplemental enhancement information in front of the slices, with an escape byte. -/
def samplePrefixSei : List UInt8 := [0x4e, 0x01, 0x00, 0x00, 0x03, 0x01, 0x80]

/-- Supplemental enhancement information behind the slices. -/
def sampleSuffixSei : List UInt8 := [0x50, 0x01, 0x80]

/-- A stream with units of all kept types, out of order, and an access unit delimiter. -/
def mixedStream : List UInt8 :=
  [sampleSuffixSei, samplePps, [0x46, 0x01, 0x50], oneLayerVps, samplePrefixSei, sampleSps,
    sampleSuffixSei].flatMap (longStartCode ++ ·)

/-- The record of this stream. -/
def mixedRecord : Record :=
  { sampleRecord oneLayerVps 1 with
    arrays := [⟨true, .vps, #[oneLayerVps]⟩, ⟨true, .sps, #[sampleSps]⟩, ⟨true, .pps, #[samplePps]⟩,
      ⟨true, .prefixSei, #[samplePrefixSei]⟩,
      ⟨true, .suffixSei, #[sampleSuffixSei, sampleSuffixSei]⟩] }

/-- All types are kept, and what was asked for shows in the arrays alone. -/
theorem build_keeps_mixed :
    build { complete := true, includeSei := true } mixedStream = .ok mixedRecord
      ∧ (∀ a ∈ mixedRecord.arrays, a.complete = true ∧ a.units.toList ≠ []
          ∧ a.units.toList = (Stream.units mixedStream).filter (nalTypeOf? · = some a.type))
      ∧ (∃ a ∈ mixedRecord.arrays, a.type = .suffixSei)
      ∧ build { complete := false, includeSei := false } mixedStream
          = .ok (sampleRecord oneLayerVps 1)
      ∧ (sampleRecord oneLayerVps 1).withoutArrays = mixedRecord.withoutArrays := by
  have built : build { complete := true, includeSei := true } mixedStream = .ok mixedRecord :=
    toOption_ok (by decide +kernel)
  have without : build { complete := false, includeSei := false } mixedStream
      = .ok (sampleRecord oneLayerVps 1) := toOption_ok (by decide +kernel)
  have sei : ∃ nal ∈ Stream.units mixedStream, nalTypeOf? nal = some .suffixSei := by
    decide +kernel
  obtain ⟨-, -, units, arrays, others⟩ := build_keeps built
  exact ⟨built, units, (arrays .suffixSei).mpr ⟨by decide, fun _ => rfl, sei⟩, without,
    others _ _ without⟩

/-! ## Parameter sets in another order -/

/-- What is read of the units of one type only, is read of them alone. -/
theorem filterMap_unitsOf {β : Type} {f : List UInt8 → Option β} {type : NalType}
    (only : ∀ nal v, f nal = some v → nalTypeOf? nal = some type) (units : List (List UInt8)) :
    units.filterMap f = (unitsOf type units).filterMap f := by
  rw [unitsOf, List.filterMap_filter]
  refine List.filterMap_congr fun nal _ => ?_
  cases read : f nal with
  | none => simp
  | some v => simp [only nal v read]

section

variable {xs ys : List (List UInt8)}

/-- What is read of units of one kind of parameter sets is read of the units of one type. -/
theorem filterMap_sets {β : Type} {part? : ParameterSet → Option β} {type : NalType}
    (only : ∀ set v, part? set = some v → set.type = type)
    (same : unitsOf type xs = unitsOf type ys) :
    (xs.filterMap parameterSet?).filterMap part?
      = (ys.filterMap parameterSet?).filterMap part? := by
  have announced : ∀ nal v, (parameterSet? nal).bind part? = some v →
      nalTypeOf? nal = some type := by
    intro nal v found
    obtain ⟨set, read, part⟩ := Option.bind_eq_some_iff.mp found
    rw [type_of_parameterSet? read, only set v part]
  rw [List.filterMap_filterMap, List.filterMap_filterMap, filterMap_unitsOf announced, same,
    ← filterMap_unitsOf announced]

/-- The parameter sets are the same up to their order. -/
theorem perm_sets (same : ∀ type ∈ required, unitsOf type xs = unitsOf type ys) :
    (xs.filterMap parameterSet?).Perm (ys.filterMap parameterSet?) := by
  have readable : ∀ units : List (List UInt8), units.filterMap parameterSet?
      = (units.filter fun nal => (parameterSet? nal).isSome).filterMap parameterSet? := by
    intro units
    rw [List.filterMap_filter]
    refine List.filterMap_congr fun nal _ => ?_
    cases parameterSet? nal <;> rfl
  have count : ∀ {nal type}, nalTypeOf? nal = some type → ∀ units : List (List UInt8),
      (unitsOf type units).count nal = units.count nal :=
    fun announced _ => List.count_filter (decide_eq_true announced)
  rw [readable xs, readable ys]
  refine (List.perm_iff_count.mpr fun nal => ?_).filterMap _
  cases read : parameterSet? nal with
  | none =>
    have absent : ∀ units : List (List UInt8),
        nal ∉ units.filter fun nal => (parameterSet? nal).isSome := by simp [read]
    rw [List.count_eq_zero_of_not_mem (absent xs), List.count_eq_zero_of_not_mem (absent ys)]
  | some set =>
    have announced := type_of_parameterSet? read
    rw [List.count_filter (by simp [read]), List.count_filter (by simp [read]),
      ← count announced xs, ← count announced ys, same _ (type_mem_required set)]

theorem mergeAll_congr (same : ∀ type ∈ required, unitsOf type xs = unitsOf type ys) :
    mergeAll (xs.filterMap parameterSet?) = mergeAll (ys.filterMap parameterSet?) := by
  rw [mergeAll_eq, mergeAll_eq]
  refine gather_congr (perm_sets same) (filterMap_sets ?_ (same .sps (by decide)))
    (filterMap_sets ?_ (same .pps (by decide)))
  · intro set v found
    cases set with
    | sps set => rfl
    | _ => exact absurd found (by simp [sps?])
  · intro set v found
    cases set with
    | pps set => rfl
    | _ => exact absurd found (by simp [parallelism?])

theorem ofUnits_congr {options : Options}
    (same : ∀ type ∈ keptTypes options, unitsOf type xs = unitsOf type ys) :
    ofUnits options xs = ofUnits options ys := by
  have arrays : arraysOf options xs = arraysOf options ys :=
    List.filterMap_congr fun type kept => by rw [arrayOf?, arrayOf?, same type kept]
  have sets := mergeAll_congr fun type mem => same type (kept_of_required options mem)
  rw [ofUnits, ofUnits, arrays, sets]

end

/-- Two streams that have the same units of every type that is kept, in the same order within each
type, have the same record, or both have none. How the types are mixed, units of other types, the
lengths of start codes, what is in front of the first and zeros at the end play no part. -/
theorem build_mixed {options : Options} {data other : List UInt8}
    (same : ∀ type ∈ NalType.carried, (type.isSei → options.includeSei) →
      (Stream.units data).filter (nalTypeOf? · = some type)
        = (Stream.units other).filter (nalTypeOf? · = some type)) (r : Record) :
    build options data = .ok r ↔ build options other = .ok r := by
  have kept : ∀ type ∈ keptTypes options,
      unitsOf type (Stream.units data) = unitsOf type (Stream.units other) := by
    intro type mem
    obtain ⟨carried, sei⟩ := mem_keptTypes.mp mem
    exact same type carried sei
  have acceptable : (∀ type ∈ keptTypes options, ∀ nal ∈ unitsOf type (Stream.units data),
        Acceptable type nal)
      ↔ ∀ type ∈ keptTypes options, ∀ nal ∈ unitsOf type (Stream.units other),
        Acceptable type nal :=
    forall₂_congr fun type mem => by rw [kept type mem]
  have needed : (∀ type ∈ required, unitsOf type (Stream.units data) ≠ [])
      ↔ ∀ type ∈ required, unitsOf type (Stream.units other) ≠ [] :=
    forall₂_congr fun type mem => by rw [kept type (kept_of_required options mem)]
  rw [build_iff, build_iff, acceptable, needed, ofUnits_congr kept]

/-- Without supplemental enhancement information, the mixed stream has the units of one that has
nothing but the three parameter sets. -/
theorem build_mixed_sample :
    (∀ type ∈ NalType.carried, (type.isSei → false) →
      (Stream.units (sampleStream oneLayerVps)).filter (nalTypeOf? · = some type)
        = (Stream.units mixedStream).filter (nalTypeOf? · = some type))
      ∧ build { complete := false, includeSei := false } mixedStream
          = .ok (sampleRecord oneLayerVps 1) := by
  have same : ∀ type ∈ NalType.carried, (type.isSei → false) →
      (Stream.units (sampleStream oneLayerVps)).filter (nalTypeOf? · = some type)
        = (Stream.units mixedStream).filter (nalTypeOf? · = some type) := by decide +kernel
  have built : build { complete := false, includeSei := false } (sampleStream oneLayerVps)
      = .ok (sampleRecord oneLayerVps 1) := toOption_ok (by decide +kernel)
  exact ⟨same, (build_mixed same _).mp built⟩

end Record

end Hevc
