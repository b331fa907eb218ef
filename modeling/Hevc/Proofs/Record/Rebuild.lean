import Hevc.Proofs.Delimited
import Hevc.Proofs.Record.Convert
import Hevc.Proofs.Record.Order

/-!
# Records, built again from themselves

The arrays of a record are enough to make its bytes once more: their units, put behind start codes
in the order of the arrays, are a stream that is converted to the same bytes. The units were
regrouped by their types on the way, and nothing else of the stream is left.

* `unitsOf_arraysOf` — the arrays hold the units of each kept type in their order
* `convert_restream` — the stream of the arrays is converted as the first one was
-/

namespace Hevc

theorem Stream.startsWithStartCode_append {code : List UInt8} (h : code ∈ startCodes)
    (rest : List UInt8) : startsWithStartCode (code ++ rest) = true := by
  simp only [startCodes, List.mem_cons, List.not_mem_nil, or_false] at h
  rcases h with rfl | rfl
  · simp [startsWithStartCode, startCode, List.isPrefixOf]
  · simp [startsWithStartCode, longStartCode, startCode, List.isPrefixOf]

namespace Record

/-! ## The units of the arrays -/

/-- All units of a record, in the order of its arrays. -/
def allUnits (arrays : List NalArray) : List (List UInt8) := arrays.flatMap (·.units.toList)

theorem allUnits_arraysOf (options : Options) (units : List (List UInt8)) :
    allUnits (arraysOf options units) = (keptTypes options).flatMap (unitsOf · units) := by
  rw [allUnits, arraysOf]
  induction keptTypes options with
  | nil => rfl
  | cons type rest ih =>
    rw [List.flatMap_cons, ← ih]
    by_cases none : unitsOf type units = []
    · rw [List.filterMap_cons_none (by rw [arrayOf?, if_pos none]), none, List.nil_append]
    · rw [List.filterMap_cons_some (by rw [arrayOf?, if_neg none]), List.flatMap_cons]

theorem unitsOf_unitsOf (type : NalType) (units : List (List UInt8)) :
    unitsOf type (unitsOf type units) = unitsOf type units := by
  rw [unitsOf, unitsOf, List.filter_filter]
  simp

theorem unitsOf_flatMap_others {types : List NalType} {type : NalType} (absent : type ∉ types)
    (units : List (List UInt8)) : unitsOf type (types.flatMap (unitsOf · units)) = [] := by
  rw [List.eq_nil_iff_forall_not_mem]
  intro nal mem
  obtain ⟨grouped, announced⟩ := mem_unitsOf.mp mem
  obtain ⟨other, among, within⟩ := List.mem_flatMap.mp grouped
  have same := announced.symm.trans (mem_unitsOf.mp within).2
  obtain rfl := Option.some.inj same
  exact absent among

theorem unitsOf_flatMap {types : List NalType} (distinct : types.Nodup) {type : NalType}
    (mem : type ∈ types) (units : List (List UInt8)) :
    unitsOf type (types.flatMap (unitsOf · units)) = unitsOf type units := by
  induction types with
  | nil => exact absurd mem List.not_mem_nil
  | cons first rest ih =>
    obtain ⟨new, distinct⟩ := List.nodup_cons.mp distinct
    have split : unitsOf type ((first :: rest).flatMap (unitsOf · units))
        = unitsOf type (unitsOf first units)
          ++ unitsOf type (rest.flatMap (unitsOf · units)) := by
      rw [List.flatMap_cons, unitsOf, List.filter_append]
      rfl
    rw [split]
    rcases List.mem_cons.mp mem with rfl | among
    · rw [unitsOf_unitsOf, unitsOf_flatMap_others new, List.append_nil]
    · -- no unit of the first type is one of this type
      have other : type ∉ [first] := by
        rintro single
        obtain rfl := List.mem_singleton.mp single
        exact new among
      have none := unitsOf_flatMap_others other units
      rw [List.flatMap_singleton] at none
      rw [none, List.nil_append, ih distinct among]

/-- Regrouped by their types, the units of each kept type are still there in their order. -/
theorem unitsOf_arraysOf {options : Options} {type : NalType} (kept : type ∈ keptTypes options)
    (units : List (List UInt8)) :
    unitsOf type (allUnits (arraysOf options units)) = unitsOf type units := by
  have carried : NalType.carried.Nodup := by decide
  have distinct : (keptTypes options).Nodup := carried.sublist List.filter_sublist
  rw [allUnits_arraysOf, unitsOf_flatMap distinct kept]

theorem isUnit_of_mem_allUnits {options : Options} {data unit : List UInt8}
    (h : unit ∈ allUnits (arraysOf options (Stream.units data))) : Stream.IsUnit unit := by
  rw [allUnits_arraysOf] at h
  obtain ⟨type, -, mem⟩ := List.mem_flatMap.mp h
  exact Stream.isUnit_of_mem (mem_unitsOf.mp mem).1

/-! ## The stream of the arrays -/

/-- The units of a record behind start codes, in the order of its arrays. -/
def restream (code : List UInt8) (r : Record) : List UInt8 :=
  Stream.delimited ((allUnits r.arrays).map (code, ·))

section

variable {options : Options} {data : List UInt8} {r : Record}

theorem units_restream {code : List UInt8} (h : code ∈ Stream.startCodes)
    (built : build options data = .ok r) : Stream.units (r.restream code) = allUnits r.arrays := by
  obtain ⟨-, -, rfl⟩ := build_iff.mp built
  rw [restream, Stream.units_delimited, List.map_map]
  · exact List.map_id _
  · rw [List.forall_mem_map]
    exact fun _ _ => h
  · rw [List.forall_mem_map]
    exact fun unit mem => isUnit_of_mem_allUnits mem

theorem allUnits_ne_nil (built : build options data = .ok r) : allUnits r.arrays ≠ [] := by
  obtain ⟨-, needed, rfl⟩ := build_iff.mp built
  have kept : NalType.vps ∈ keptTypes options := kept_of_required options (by decide)
  have some := needed .vps (by decide)
  intro none
  have lost := unitsOf_arraysOf kept (Stream.units data)
  rw [show allUnits (arraysOf options (Stream.units data)) = [] from none] at lost
  exact some lost.symm

/-- A record has a unit, so its stream begins with a start code. -/
theorem startsWithStartCode_restream {code : List UInt8} (h : code ∈ Stream.startCodes)
    (built : build options data = .ok r) : startsWithStartCode (r.restream code) = true := by
  obtain ⟨unit, rest, all⟩ := List.exists_cons_of_ne_nil (allUnits_ne_nil built)
  rw [restream, all, List.map_cons, Stream.delimited_cons]
  exact Stream.startsWithStartCode_append h _

/-- A stream with the same units of each kept type has the same record. -/
theorem build_of_same {other : List UInt8}
    (same : ∀ type ∈ keptTypes options,
      unitsOf type (Stream.units other) = unitsOf type (Stream.units data))
    (built : build options data = .ok r) : build options other = .ok r := by
  obtain ⟨acceptable, needed, rfl⟩ := build_iff.mp built
  refine build_iff.mpr ⟨?_, ?_, ofUnits_congr same⟩
  · intro type kept
    rw [same type kept]
    exact acceptable type kept
  · intro type mem
    rw [same type (kept_of_required options mem)]
    exact needed type mem

theorem build_restream {code : List UInt8} (h : code ∈ Stream.startCodes)
    (built : build options data = .ok r) : build options (r.restream code) = .ok r := by
  refine build_of_same (fun type kept => ?_) built
  rw [units_restream h built, ← (build_iff.mp built).2.2]
  exact unitsOf_arraysOf kept _

/-- What is read of the bytes of a built record, which has the same arrays. -/
theorem demux_of_built {bytes : List UInt8} (built : build options data = .ok r)
    (written : r.toBytes = .ok bytes) : demux bytes = (.ok r.reduced, bytes.length) := by
  have bits := (toBytes_build built written).2
  rw [← items_reduced] at bits
  have read := demux_append (fits_reduced built written) bits []
  rwa [List.append_nil] at read

end

theorem writeThrough_unbounded (bytes : List UInt8) :
    writeThrough bytes (.unbounded .plain) = (.ok (), .holding .plain bytes) := by
  have written := Sink.write_holding .plain [] bytes
  rw [show Sink.holding .plain [] = .unbounded .plain from rfl] at written
  rw [writeThrough, written]
  rfl

/-- The bytes that a stream is converted to are those of a record, and the units of its arrays,
behind start codes of either length, are a stream that is converted to the same bytes. -/
theorem convert_restream {options : Options} {data : List UInt8} {sink : Sink}
    (stream : startsWithStartCode data = true)
    (done : convert options data (.unbounded .plain) = (.ok (), sink)) :
    ∃ r, demux sink.bytes = (.ok r, sink.bytes.length)
      ∧ ∀ code ∈ Stream.startCodes, startsWithStartCode (r.restream code) = true
        ∧ ∀ other, convert options (r.restream code) other = convert options data other := by
  rcases convert_cases options data (.unbounded .plain) with
    ⟨notStream, -⟩ | ⟨e, same⟩ | ⟨r, bytes, built, written, same⟩
  · rw [stream] at notStream
    exact absurd notStream (by decide)
  · rw [same] at done
    exact absurd done (by simp)
  · rw [same, writeThrough_unbounded] at done
    obtain ⟨-, rfl⟩ := Prod.mk.inj done
    rw [Sink.bytes_holding_plain]
    refine ⟨r.reduced, demux_of_built built written, fun code mem => ?_⟩
    -- the number of sub-layers is all that was reduced, so the stream is that of the record
    have again := startsWithStartCode_restream mem built
    refine ⟨again, fun other => ?_⟩
    rw [convert_of_toBytes stream built written]
    exact convert_of_toBytes again (build_restream mem built) written other

/-- A stream with all kept types out of order, and its bytes made from the arrays again. -/
theorem convert_restream_mixed :
    ∃ sink r, convert { complete := true, includeSei := true } mixedStream (.unbounded .plain)
        = (.ok (), sink)
      ∧ (demux sink.bytes).1 = .ok r ∧ r.arrays.length = 5
      ∧ convert { complete := true, includeSei := true } (r.restream startCode) (.unbounded .plain)
          = (.ok (), sink) := by
  have stream : startsWithStartCode mixedStream = true := by decide
  have built : build { complete := true, includeSei := true } mixedStream = .ok mixedRecord :=
    toOption_ok (by decide +kernel)
  have writable : mixedRecord.toBytes.toOption.isSome := by decide +kernel
  obtain ⟨bytes, found⟩ := Option.isSome_iff_exists.mp writable
  have written := toOption_ok found
  have done := convert_of_toBytes stream built written (.unbounded .plain)
  rw [writeThrough_unbounded] at done
  obtain ⟨r, read, again⟩ := convert_restream stream done
  refine ⟨_, r, done, congrArg Prod.fst read, ?_, ?_⟩
  · have same := demux_of_built built written
    rw [← Sink.bytes_holding_plain bytes, read] at same
    obtain rfl := Except.ok.inj (congrArg Prod.fst same)
    rfl
  · rw [(again startCode (by decide)).2, done]

end Record

end Hevc
