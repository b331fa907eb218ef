import Hevc.Proofs.NalUnit
import Hevc.Proofs.Record.Arrays
import Hevc.Proofs.Record.Merge
import Mathlib.Data.List.Find

/-!
# Records built from streams

Building takes the units of a stream one by one. What a unit says is merged, and the unit itself
is kept in an array; neither touches the other part of the record.

* `offence?` — what a unit is at fault for, so that it ends the building
* `absorb_eq`, `foldlM_absorb_eq` — what one unit does to a record, and all units of a stream
* `build_eq` — building reports the first unit at fault, or else a type that is missing
* `build_iff` — a stream has a record exactly if all units of kept types can be taken and none of
  the needed types is missing; the record is the merge of the parameter sets, with the arrays of
  all kept units
-/

namespace Hevc

/-- The parameter set that a unit of a stream is read as. -/
def parameterSet? (nal : List UInt8) : Option ParameterSet :=
  match nalTypeOf? nal with
  | some .vps => (Vps.read nal).result.toOption.map (.vps ·.payload)
  | some .sps => (Sps.read nal).result.toOption.map (.sps ·.payload)
  | some .pps => (Pps.read nal).result.toOption.map (.pps ·.payload)
  | _ => none

/-- The type of the units that a parameter set is read of. -/
def ParameterSet.type : ParameterSet → NalType
  | .vps _ => .vps
  | .sps _ => .sps
  | .pps _ => .pps

theorem type_of_parameterSet? {nal : List UInt8} {set : ParameterSet}
    (h : parameterSet? nal = some set) : nalTypeOf? nal = some set.type := by
  unfold parameterSet? at h
  split at h
  · next announced =>
    obtain ⟨unit, -, rfl⟩ := Option.map_eq_some_iff.mp h
    exact announced
  · next announced =>
    obtain ⟨unit, -, rfl⟩ := Option.map_eq_some_iff.mp h
    exact announced
  · next announced =>
    obtain ⟨unit, -, rfl⟩ := Option.map_eq_some_iff.mp h
    exact announced
  · exact absurd h (by simp)

theorem parsed_of_parameterSet? {nal : List UInt8} {set : ParameterSet}
    (h : parameterSet? nal = some set) : set.Parsed := by
  unfold parameterSet? at h
  split at h
  · obtain ⟨unit, read, rfl⟩ := Option.map_eq_some_iff.mp h
    exact ⟨nal, unit.header, toOption_ok read⟩
  · obtain ⟨unit, read, rfl⟩ := Option.map_eq_some_iff.mp h
    exact ⟨nal, unit.header, toOption_ok read⟩
  · obtain ⟨unit, read, rfl⟩ := Option.map_eq_some_iff.mp h
    exact ⟨nal, unit.header, toOption_ok read⟩
  · exact absurd h (by simp)

namespace Record

/-! ## The two parts of a record -/

/-- A record without its arrays. -/
def withoutArrays (r : Record) : Record := { r with arrays := [] }

theorem withoutArrays_merge (set : ParameterSet) (r : Record) :
    (set.merge r).withoutArrays = set.merge r.withoutArrays := by
  cases set with
  | vps set => rfl
  | pps set => rfl
  | sps set =>
    show (mergeSps set r).withoutArrays = mergeSps set r.withoutArrays
    rw [mergeSps, mergeSps]
    split <;> rfl

theorem arrays_merge (set : ParameterSet) (r : Record) : (set.merge r).arrays = r.arrays := by
  cases set with
  | vps set => rfl
  | pps set => rfl
  | sps set =>
    show (mergeSps set r).arrays = r.arrays
    rw [mergeSps]
    split <;> rfl

theorem withoutArrays_finalize (r : Record) :
    r.finalize.withoutArrays = r.withoutArrays.finalize := by
  rw [finalize_eq, finalize_eq]
  rfl

theorem arrays_finalize (r : Record) : r.finalize.arrays = r.arrays := by
  rw [finalize_eq]

theorem withoutArrays_push (type : NalType) (unit : List UInt8) (complete : Bool) (r : Record) :
    (r.push type unit complete).2.withoutArrays = r.withoutArrays := by
  rw [push]
  split
  · rfl
  · split <;> rfl

/-- The record after a unit was merged, if it is a parameter set. -/
def mergeUnit (nal : List UInt8) (r : Record) : Record := (parameterSet? nal).elim r (·.merge r)

theorem withoutArrays_mergeUnit (nal : List UInt8) (r : Record) :
    (mergeUnit nal r).withoutArrays = mergeUnit nal r.withoutArrays := by
  rw [mergeUnit, mergeUnit]
  cases parameterSet? nal with
  | none => rfl
  | some set => exact withoutArrays_merge set r

theorem arrays_mergeUnit (nal : List UInt8) (r : Record) : (mergeUnit nal r).arrays = r.arrays := by
  rw [mergeUnit]
  cases parameterSet? nal with
  | none => rfl
  | some set => exact arrays_merge set r

/-! ## One unit -/

/-- A unit that a record can take: it can be read, if it is a parameter set, and a record can
carry it. -/
structure Acceptable (type : NalType) (nal : List UInt8) : Prop where
  readable : type.isParameterSet → (parameterSet? nal).isSome
  size : nal.length ≤ maxUnitSize

/-- The record after a unit was taken. -/
def taking (options : Options) (r : Record) (nal : List UInt8) : Record :=
  match nalTypeOf? nal with
  | none => r
  | some type =>
    if type ∈ keptTypes options then ((mergeUnit nal r).push type nal options.complete).2 else r

/-- The report that reading something led to, if it could not be read. -/
def failure? {α : Type} : Except Error α → Option Error
  | .ok _ => none
  | .error e => some e

/-- Why a parameter set cannot be read. -/
def unreadable? (nal : List UInt8) : Option Error :=
  match nalTypeOf? nal with
  | some .vps => failure? (Vps.read nal).result
  | some .sps => failure? (Sps.read nal).result
  | some .pps => failure? (Pps.read nal).result
  | _ => none

/-- Why a unit that is to be kept cannot be carried. -/
def oversized? (options : Options) (nal : List UInt8) : Option Error :=
  match nalTypeOf? nal with
  | none => none
  | some type =>
    if type ∈ keptTypes options ∧ maxUnitSize < nal.length then
      some (.invalidData (.unitTooLarge type nal.length))
    else none

/-- What a unit is at fault for. -/
def offence? (options : Options) (nal : List UInt8) : Option Error :=
  (unreadable? nal).or (oversized? options nal)

theorem failure?_eq_some {α : Type} {result : Except Error α} {e : Error} :
    failure? result = some e ↔ result = .error e := by
  cases result <;> simp [failure?]

theorem failure?_eq_none {α : Type} {result : Except Error α} :
    failure? result = none ↔ ∃ value, result = .ok value := by
  cases result <;> simp [failure?]

/-- A unit that can be read, if it is a parameter set. -/
structure Readable (nal : List UInt8) : Prop where
  vps : nalTypeOf? nal = some .vps → ∃ unit, (Vps.read nal).result = .ok unit
  sps : nalTypeOf? nal = some .sps → ∃ unit, (Sps.read nal).result = .ok unit
  pps : nalTypeOf? nal = some .pps → ∃ unit, (Pps.read nal).result = .ok unit

theorem unreadable?_eq_none {nal : List UInt8} : unreadable? nal = none ↔ Readable nal := by
  unfold unreadable?
  constructor
  · intro none
    refine ⟨fun announced => ?_, fun announced => ?_, fun announced => ?_⟩
    all_goals
      rw [announced] at none
      exact failure?_eq_none.mp none
  · intro readable
    split
    · next announced => exact failure?_eq_none.mpr (readable.vps announced)
    · next announced => exact failure?_eq_none.mpr (readable.sps announced)
    · next announced => exact failure?_eq_none.mpr (readable.pps announced)
    · rfl

theorem oversized?_eq_none {options : Options} {nal : List UInt8} :
    oversized? options nal = none
      ↔ ∀ type, nalTypeOf? nal = some type → type ∈ keptTypes options →
        nal.length ≤ maxUnitSize := by
  unfold oversized?
  cases nalTypeOf? nal with
  | none => simp
  | some type =>
    simp only [Option.some.injEq, forall_eq', ite_eq_right_iff, reduceCtorEq, imp_false, not_and,
      Nat.not_lt]

theorem offence?_eq_none {options : Options} {nal : List UInt8} :
    offence? options nal = none
      ↔ Readable nal ∧ ∀ type, nalTypeOf? nal = some type → type ∈ keptTypes options →
        nal.length ≤ maxUnitSize := by
  rw [offence?, Option.or_eq_none_iff, unreadable?_eq_none, oversized?_eq_none]

section

variable {options : Options} {type : NalType} {nal : List UInt8}

theorem merge?_of_not_kept (other : type ∉ keptTypes options) (r : Record) :
    merge? options type nal r = none := by
  rw [mem_keptTypes] at other
  cases type with
  | vps | sps | pps => exact absurd ⟨by decide, fun sei => absurd sei (by decide)⟩ other
  | prefixSei | suffixSei =>
    have without : options.includeSei = false :=
      Bool.eq_false_iff.mpr fun some => other ⟨by decide, fun _ => some⟩
    simp [merge?, without]
  | _ => rfl

theorem merge?_of_unreadable (announced : nalTypeOf? nal = some type) {e : Error}
    (failed : unreadable? nal = some e) (r : Record) :
    merge? options type nal r = some (.error e) := by
  rw [unreadable?, announced] at failed
  cases type with
  | vps | sps | pps =>
    have error := failure?_eq_some.mp failed
    rw [merge?, mergeReading, error]
    rfl
  | _ => exact absurd failed (by simp)

/-- A unit of a kept type is merged if it can be read. -/
theorem merge?_of_readable (announced : nalTypeOf? nal = some type)
    (kept : type ∈ keptTypes options) (readable : Readable nal) (r : Record) :
    merge? options type nal r = some (.ok (mergeUnit nal r)) := by
  obtain ⟨carried, sei⟩ := mem_keptTypes.mp kept
  cases type with
  | vps =>
    obtain ⟨unit, read⟩ := readable.vps announced
    rw [merge?, mergeReading, mergeUnit, parameterSet?, announced, read]
    rfl
  | sps =>
    obtain ⟨unit, read⟩ := readable.sps announced
    rw [merge?, mergeReading, mergeUnit, parameterSet?, announced, read]
    rfl
  | pps =>
    obtain ⟨unit, read⟩ := readable.pps announced
    rw [merge?, mergeReading, mergeUnit, parameterSet?, announced, read]
    rfl
  | prefixSei | suffixSei =>
    -- nothing is read of these, so nothing can be wrong with them
    have unmerged : mergeUnit nal r = r := by
      rw [mergeUnit, parameterSet?, announced]
      rfl
    rw [unmerged]
    simp [merge?, sei rfl, NalType.isSei]
  | _ => exact absurd carried (by simp [NalType.carried])

theorem parameterSet?_of_readable (announced : nalTypeOf? nal = some type) (h : Readable nal)
    (set : type.isParameterSet) : (parameterSet? nal).isSome := by
  rw [parameterSet?, announced]
  cases type with
  | vps =>
    obtain ⟨unit, read⟩ := h.vps announced
    simp [read, Except.toOption]
  | sps =>
    obtain ⟨unit, read⟩ := h.sps announced
    simp [read, Except.toOption]
  | pps =>
    obtain ⟨unit, read⟩ := h.pps announced
    simp [read, Except.toOption]
  | _ => exact absurd set (by simp [NalType.isParameterSet])

theorem readable_of_parameterSet?
    (h : ∀ type ∈ required, nalTypeOf? nal = some type → (parameterSet? nal).isSome) :
    Readable nal := by
  refine ⟨fun announced => ?_, fun announced => ?_, fun announced => ?_⟩
  all_goals
    have some := h _ (by decide) announced
    rw [parameterSet?, announced] at some
    obtain ⟨unit, read⟩ := Option.isSome_iff_exists.mp (Option.isSome_map.symm.trans some)
    exact ⟨unit, toOption_ok read⟩

end

/-- A unit is taken unless it is at fault for something, and that is reported. -/
theorem absorb_eq (options : Options) (r : Record) (nal : List UInt8) :
    absorb options r nal
      = match offence? options nal with
        | some e => .error e
        | none => .ok (taking options r nal) := by
  cases announced : nalTypeOf? nal with
  | none => simp [absorb, taking, offence?, unreadable?, oversized?, announced]
  | some type =>
    cases failed : unreadable? nal with
    | some e =>
      simp [absorb, announced, merge?_of_unreadable announced failed r, offence?, failed]
    | none =>
      by_cases kept : type ∈ keptTypes options
      · have readable := unreadable?_eq_none.mp failed
        have merged := merge?_of_readable announced kept readable r
        by_cases large : maxUnitSize < nal.length
        · simp [absorb, announced, merged, keep, offence?, failed, oversized?, kept, large]
        · simp [absorb, announced, merged, keep, offence?, failed, oversized?, kept, large, taking]
      · simp [absorb, announced, merge?_of_not_kept kept r, offence?, failed, oversized?, kept,
          taking]

/-! ## All units -/

/-- The first unit at fault ends the building. -/
theorem foldlM_absorb_eq (options : Options) (units : List (List UInt8)) (r : Record) :
    units.foldlM (absorb options) r
      = match units.findSome? (offence? options) with
        | some e => .error e
        | none => .ok (units.foldl (taking options) r) := by
  induction units generalizing r with
  | nil => rfl
  | cons nal rest ih =>
    rw [List.foldlM_cons, List.findSome?_cons, absorb_eq, List.foldl_cons]
    cases offence? options nal with
    | some e => rfl
    | none => exact ih _

/-- What a record needs is kept in any case. -/
theorem kept_of_required (options : Options) {type : NalType} (h : type ∈ required) :
    type ∈ keptTypes options := by
  have all : ∀ type ∈ required, type ∈ NalType.carried ∧ ¬type.isSei := by decide
  obtain ⟨carried, other⟩ := all type h
  exact mem_keptTypes.mpr ⟨carried, fun sei => absurd sei other⟩

theorem type_mem_required (set : ParameterSet) : set.type ∈ required := by
  cases set <;> simp [ParameterSet.type, required]

/-- What a unit says is merged, whatever the arrays are. -/
theorem withoutArrays_taking (options : Options) (r : Record) (nal : List UInt8) :
    (taking options r nal).withoutArrays = mergeUnit nal r.withoutArrays := by
  have unread : parameterSet? nal = none → mergeUnit nal r.withoutArrays = r.withoutArrays := by
    intro none
    rw [mergeUnit, none]
    rfl
  rw [taking]
  cases announced : nalTypeOf? nal with
  | none =>
    refine (unread ?_).symm
    rw [parameterSet?, announced]
  | some type =>
    by_cases kept : type ∈ keptTypes options
    · simp only [if_pos kept]
      rw [withoutArrays_push, withoutArrays_mergeUnit]
    · simp only [if_neg kept]
      refine (unread (Option.eq_none_iff_forall_ne_some.mpr fun set read => ?_)).symm
      obtain rfl := Option.some.inj (announced.symm.trans (type_of_parameterSet? read))
      exact kept (kept_of_required options (type_mem_required set))

/-- A unit is kept, whatever the rest of the record is. -/
theorem arrays_taking {options : Options} {units : List (List UInt8)} {r : Record}
    (h : r.arrays = arraysOf options units) (nal : List UInt8) :
    (taking options r nal).arrays = arraysOf options (units ++ [nal]) := by
  rw [taking]
  cases announced : nalTypeOf? nal with
  | none => exact h.trans (arraysOf_append_other (by simp [announced])).symm
  | some type =>
    by_cases kept : type ∈ keptTypes options
    · simp only [if_pos kept]
      exact arrays_push announced kept ((arrays_mergeUnit nal r).trans h)
    · simp only [if_neg kept]
      refine h.trans (arraysOf_append_other ?_).symm
      rintro other same
      rwa [← Option.some.inj (announced.symm.trans same)]

/-- The parameter sets of a stream. -/
def parameterSets (data : List UInt8) : List ParameterSet :=
  (Stream.units data).filterMap parameterSet?

/-- The record that all units are taken into. -/
theorem foldl_taking (options : Options) (units : List (List UInt8)) :
    (units.foldl (taking options) empty).withoutArrays = mergeAll (units.filterMap parameterSet?)
      ∧ (units.foldl (taking options) empty).arrays = arraysOf options units := by
  induction units using List.reverseRecOn with
  | nil => exact ⟨rfl, (arraysOf_nil options).symm⟩
  | append_singleton units nal ih =>
    obtain ⟨fields, arrays⟩ := ih
    rw [List.foldl_append, List.foldl_cons, List.foldl_nil]
    refine ⟨?_, arrays_taking arrays nal⟩
    rw [withoutArrays_taking, fields, mergeUnit, List.filterMap_append, mergeAll, mergeAll,
      List.foldl_append]
    cases read : parameterSet? nal with
    | none => rw [List.filterMap_cons_none read]; rfl
    | some set => rw [List.filterMap_cons_some read]; rfl

/-- The record that the units of a stream make. -/
def ofUnits (options : Options) (units : List (List UInt8)) : Record :=
  { (mergeAll (units.filterMap parameterSet?)).finalize with arrays := arraysOf options units }

theorem withoutArrays_ofUnits (options : Options) (units : List (List UInt8)) :
    (ofUnits options units).withoutArrays
      = (mergeAll (units.filterMap parameterSet?)).finalize := by
  rw [ofUnits, withoutArrays, mergeAll_eq, finalize_eq]
  rfl

/-- Making the record final leaves the arrays as they are. -/
theorem finalize_taking (options : Options) (units : List (List UInt8)) :
    (units.foldl (taking options) empty).finalize = ofUnits options units := by
  obtain ⟨fields, arrays⟩ := foldl_taking options units
  have final := withoutArrays_finalize (units.foldl (taking options) empty)
  rw [fields] at final
  rw [ofUnits, ← final, ← arrays, ← arrays_finalize]
  rfl

/-- The first type that a record needs and a stream does not have. -/
def absent? (data : List UInt8) : Option NalType :=
  required.find? fun type => unitsOf type (Stream.units data) = []

theorem missing?_eq (options : Options) (data : List UInt8) :
    ((Stream.units data).foldl (taking options) empty).missing? = absent? data := by
  rw [missing?, (foldl_taking options _).2, absent?]
  refine List.find?_congr fun type mem => ?_
  have some : (arraysOf options (Stream.units data)).any (·.type = type)
      ↔ unitsOf type (Stream.units data) ≠ [] := any_arraysOf (kept_of_required options mem)
  rw [Bool.eq_iff_iff, Bool.not_eq_true', ← Bool.not_eq_true, some, not_not, decide_eq_true_iff]

theorem absent?_eq_none {data : List UInt8} :
    absent? data = none ↔ ∀ type ∈ required, unitsOf type (Stream.units data) ≠ [] := by
  rw [absent?, List.find?_eq_none]
  exact forall₂_congr fun type _ => by rw [decide_eq_true_iff]

/-- What building a record comes to. -/
theorem build_eq (options : Options) (data : List UInt8) :
    build options data
      = match (Stream.units data).findSome? (offence? options), absent? data with
        | some e, _ => .error e
        | none, some type => .error (.invalidData (.missing type))
        | none, none => .ok (ofUnits options (Stream.units data)) := by
  rw [build, foldlM_absorb_eq]
  cases (Stream.units data).findSome? (offence? options) with
  | some e => rfl
  | none =>
    simp only [bind, Except.bind, missing?_eq, finalize_taking]
    cases absent? data <;> rfl

/-- The units of a stream are not at fault if those of the kept types are acceptable. -/
theorem acceptable_iff {options : Options} {units : List (List UInt8)} :
    (∀ nal ∈ units, offence? options nal = none)
      ↔ ∀ type ∈ keptTypes options, ∀ nal ∈ unitsOf type units, Acceptable type nal := by
  constructor
  · intro none type kept nal mem
    obtain ⟨member, announced⟩ := mem_unitsOf.mp mem
    obtain ⟨readable, small⟩ := offence?_eq_none.mp (none nal member)
    exact ⟨parameterSet?_of_readable announced readable, small type announced kept⟩
  · intro acceptable nal member
    have sets : ∀ type ∈ required, type.isParameterSet := by decide
    have each : ∀ type ∈ keptTypes options, nalTypeOf? nal = some type → Acceptable type nal :=
      fun type kept announced => acceptable type kept nal (mem_unitsOf.mpr ⟨member, announced⟩)
    refine offence?_eq_none.mpr ⟨readable_of_parameterSet? fun type mem announced => ?_,
      fun type announced kept => (each type kept announced).size⟩
    exact (each type (kept_of_required options mem) announced).readable (sets type mem)

/-- A stream has a record exactly if all units of kept types are acceptable and there is a unit of
each needed type. -/
theorem build_iff {options : Options} {data : List UInt8} {r : Record} :
    build options data = .ok r
      ↔ (∀ type ∈ keptTypes options, ∀ nal ∈ unitsOf type (Stream.units data), Acceptable type nal)
        ∧ (∀ type ∈ required, unitsOf type (Stream.units data) ≠ [])
        ∧ ofUnits options (Stream.units data) = r := by
  rw [build_eq, ← acceptable_iff, ← List.findSome?_eq_none_iff, ← absent?_eq_none]
  cases (Stream.units data).findSome? (offence? options) with
  | some e => simp
  | none => cases absent? data <;> simp

end Record

end Hevc
