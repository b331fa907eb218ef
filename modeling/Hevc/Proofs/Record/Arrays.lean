import Hevc.Record.Build
import Mathlib.Data.List.Basic

/-!
# The arrays that units are kept in

Units of all types come mixed, and each goes into the array of its type, which is made at its place
when the first unit of the type comes. The arrays that result are those that `arraysOf` makes of
all units at once: the types in their order, each with its own units in the order of the stream.

* `insertArray_filterMap`, `appendUnit_filterMap` — one array more, or one unit more, among arrays
  that are listed by their types
* `arrays_push` — one unit more in the closed form
* `mem_arraysOf` — which arrays there are
-/

namespace Hevc.Record

/-! ## Closed form -/

/-- The types of which units are kept. -/
def keptTypes (options : Options) : List NalType :=
  NalType.carried.filter fun type => !type.isSei || options.includeSei

/-- The units of one type. -/
def unitsOf (type : NalType) (units : List (List UInt8)) : List (List UInt8) :=
  units.filter (nalTypeOf? · = some type)

/-- The array of one type, if it has units. -/
def arrayOf? (complete : Bool) (units : List (List UInt8)) (type : NalType) : Option NalArray :=
  if unitsOf type units = [] then none
  else some { complete, type, units := (unitsOf type units).toArray }

/-- The arrays of the types that have units. -/
def arraysOf (options : Options) (units : List (List UInt8)) : List NalArray :=
  (keptTypes options).filterMap (arrayOf? options.complete units)

theorem mem_keptTypes {options : Options} {type : NalType} :
    type ∈ keptTypes options ↔ type ∈ NalType.carried ∧ (type.isSei → options.includeSei) := by
  rw [keptTypes, List.mem_filter]
  cases type.isSei <;> simp

theorem mem_unitsOf {type : NalType} {units : List (List UInt8)} {nal : List UInt8} :
    nal ∈ unitsOf type units ↔ nal ∈ units ∧ nalTypeOf? nal = some type := by
  rw [unitsOf, List.mem_filter, decide_eq_true_iff]

theorem unitsOf_ne_nil {type : NalType} {units : List (List UInt8)} :
    unitsOf type units ≠ [] ↔ ∃ nal ∈ units, nalTypeOf? nal = some type := by
  rw [Ne, List.eq_nil_iff_forall_not_mem]
  simp [mem_unitsOf]

theorem type_of_arrayOf? {complete : Bool} {units : List (List UInt8)} {type : NalType}
    {a : NalArray} (h : arrayOf? complete units type = some a) : a.type = type := by
  rw [arrayOf?] at h
  split at h
  · exact absurd h (by simp)
  · rw [← Option.some.inj h]

theorem arraysOf_nil (options : Options) : arraysOf options [] = [] :=
  List.filterMap_eq_nil_iff.mpr fun _ _ => if_pos rfl

/-- An array is there for each kept type that has units, and holds these units. -/
theorem mem_arraysOf {options : Options} {units : List (List UInt8)} {a : NalArray} :
    a ∈ arraysOf options units
      ↔ a.type ∈ keptTypes options ∧ unitsOf a.type units ≠ []
        ∧ a = { complete := options.complete, type := a.type
                units := (unitsOf a.type units).toArray } := by
  rw [arraysOf, List.mem_filterMap]
  constructor
  · rintro ⟨type, kept, found⟩
    obtain rfl := type_of_arrayOf? found
    rw [arrayOf?] at found
    split at found
    · exact absurd found (by simp)
    · next some => exact ⟨kept, some, (Option.some.inj found).symm⟩
  · rintro ⟨kept, some, same⟩
    refine ⟨a.type, kept, ?_⟩
    rw [arrayOf?, if_neg some, ← same]

theorem any_arraysOf {options : Options} {units : List (List UInt8)} {type : NalType}
    (kept : type ∈ keptTypes options) :
    (arraysOf options units).any (·.type = type) ↔ unitsOf type units ≠ [] := by
  rw [List.any_eq_true]
  constructor
  · rintro ⟨a, mem, same⟩
    obtain rfl := of_decide_eq_true same
    exact (mem_arraysOf.mp mem).2.1
  · intro some
    exact ⟨{ complete := options.complete, type, units := (unitsOf type units).toArray },
      mem_arraysOf.mpr ⟨kept, some, rfl⟩, decide_eq_true rfl⟩

/-- The arrays stand in the order of their types, with one array for each. -/
theorem types_arraysOf (options : Options) (units : List (List UInt8)) :
    ((arraysOf options units).map (·.type)).Sublist NalType.carried := by
  have types : (arraysOf options units).map (·.type)
      = (keptTypes options).filter fun type => unitsOf type units ≠ [] := by
    rw [arraysOf, List.map_filterMap, ← List.filterMap_eq_filter]
    refine List.filterMap_congr fun type _ => ?_
    by_cases none : unitsOf type units = [] <;> simp [arrayOf?, none, Option.guard]
  rw [types]
  exact List.filter_sublist.trans List.filter_sublist

/-! ## One unit more -/

/-- The place of a type among those that a record carries. -/
def place (type : NalType) : Nat := NalType.carried.idxOf type

theorem rank?_of_mem {type : NalType} (h : type ∈ NalType.carried) :
    type.rank? = some (place type) := by
  have all : ∀ t ∈ NalType.carried, t.rank? = some (place t) := by decide
  exact all type h

theorem isBehind_iff {rank : Nat} {a : NalArray} (h : a.type ∈ NalType.carried) :
    isBehind rank a ↔ rank < place a.type := by
  rw [isBehind, rank?_of_mem h]
  simp

theorem keptTypes_pairwise (options : Options) :
    (keptTypes options).Pairwise (place · < place ·) :=
  List.Pairwise.filter _ (by decide)

section

variable {f g : NalType → Option NalArray} {type : NalType}
  (others : ∀ t, t ≠ type → g t = f t) {types : List NalType}
include others

theorem filterMap_others (absent : type ∉ types) : types.filterMap g = types.filterMap f := by
  refine List.filterMap_congr fun s mem => others s ?_
  rintro rfl
  exact absent mem

variable (names : ∀ t, ∀ a ∈ f t, a.type = t) (sorted : types.Pairwise (place · < place ·))
  (mem : type ∈ types)
include names sorted mem

/-- A new array gets in between the arrays of the types before its own and those after it. -/
theorem insertArray_filterMap (carried : ∀ t ∈ types, t ∈ NalType.carried) {new : NalArray}
    (none : f type = none) (here : g type = some new) :
    insertArray (place type) new (types.filterMap f) = types.filterMap g := by
  induction types with
  | nil => exact absurd mem List.not_mem_nil
  | cons t types ih =>
    obtain ⟨first, sorted⟩ := List.pairwise_cons.mp sorted
    obtain ⟨known, carried⟩ := List.forall_mem_cons.mp carried
    by_cases ht : t = type
    · subst ht
      have rest := filterMap_others others fun mem => Nat.lt_irrefl _ (first t mem)
      rw [List.filterMap_cons_none none, List.filterMap_cons_some here, rest]
      cases behind : types.filterMap f with
      | nil => rfl
      | cons a arrays =>
        obtain ⟨s, inside, found⟩ := List.mem_filterMap.mp (behind ▸ List.mem_cons_self)
        obtain rfl := names s a found
        rw [insertArray, if_pos ((isBehind_iff (carried _ inside)).mpr (first _ inside))]
    · have later : type ∈ types := (List.mem_cons.mp mem).resolve_left (Ne.symm ht)
      have ih := ih sorted later carried
      cases hf : f t with
      | none => rw [List.filterMap_cons_none hf, List.filterMap_cons_none (others t ht ▸ hf), ih]
      | some a =>
        obtain rfl := names t a hf
        rw [List.filterMap_cons_some hf, List.filterMap_cons_some (others _ ht ▸ hf), insertArray,
          if_neg, ih]
        rw [isBehind_iff known]
        exact Nat.lt_asymm (first type later)

/-- A unit goes into the array of its type, and all others stay. -/
theorem appendUnit_filterMap {unit : List UInt8} {a : NalArray} (found : f type = some a)
    (here : g type = some { a with units := a.units.push unit }) :
    appendUnit type unit (types.filterMap f) = types.filterMap g := by
  induction types with
  | nil => exact absurd mem List.not_mem_nil
  | cons t types ih =>
    obtain ⟨first, sorted⟩ := List.pairwise_cons.mp sorted
    by_cases ht : t = type
    · subst ht
      have rest := filterMap_others others fun mem => Nat.lt_irrefl _ (first t mem)
      rw [List.filterMap_cons_some found, List.filterMap_cons_some here, rest, appendUnit,
        if_pos (names t a found)]
    · have ih := ih sorted ((List.mem_cons.mp mem).resolve_left (Ne.symm ht))
      cases hf : f t with
      | none => rw [List.filterMap_cons_none hf, List.filterMap_cons_none (others t ht ▸ hf), ih]
      | some b =>
        rw [List.filterMap_cons_some hf, List.filterMap_cons_some (others _ ht ▸ hf), appendUnit,
          if_neg (names t b hf ▸ ht), ih]

end

/-- A unit that is pushed to a record. -/
structure Pushed where
  type : NalType
  unit : List UInt8
  /-- The flag that a new array would take. -/
  complete : Bool
deriving DecidableEq, Repr

/-- What one push makes of the array of a type. -/
def Pushed.into (p : Pushed) (type : NalType) (a? : Option NalArray) : Option NalArray :=
  if p.type = type then
    match a? with
    | none => some { complete := p.complete, type, units := #[p.unit] }
    | some a => some { a with units := a.units.push p.unit }
  else a?

theorem Pushed.into_of_ne {p : Pushed} {type : NalType} (h : p.type ≠ type)
    (a? : Option NalArray) : p.into type a? = a? := if_neg h

theorem Pushed.into_none (p : Pushed) :
    p.into p.type none = some { complete := p.complete, type := p.type, units := #[p.unit] } :=
  if_pos rfl

theorem Pushed.into_some (p : Pushed) (a : NalArray) :
    p.into p.type (some a) = some { a with units := a.units.push p.unit } := if_pos rfl

theorem into_names {p : Pushed} {f : NalType → Option NalArray}
    (names : ∀ t, ∀ a ∈ f t, a.type = t) : ∀ t, ∀ a ∈ p.into t (f t), a.type = t := by
  intro t a found
  by_cases own : p.type = t
  · subst own
    cases before : f p.type with
    | none =>
      rw [before, Pushed.into_none] at found
      rw [← Option.some.inj found]
    | some b =>
      rw [before, Pushed.into_some] at found
      rw [← Option.some.inj found]
      exact names p.type b before
  · rw [Pushed.into_of_ne own] at found
    exact names t a found

/-- A push of one of the types changes the array of its type alone. -/
theorem push_filterMap {r : Record} {f : NalType → Option NalArray} {types : List NalType}
    {p : Pushed} (names : ∀ t, ∀ a ∈ f t, a.type = t)
    (sorted : types.Pairwise (place · < place ·)) (mem : p.type ∈ types)
    (carried : ∀ t ∈ types, t ∈ NalType.carried) (h : r.arrays = types.filterMap f) :
    (r.push p.type p.unit p.complete).2.arrays = types.filterMap fun t => p.into t (f t) := by
  have others : ∀ t, t ≠ p.type → p.into t (f t) = f t := fun t ht =>
    Pushed.into_of_ne (Ne.symm ht) (f t)
  have there : r.arrays.any (·.type = p.type) ↔ f p.type ≠ none := by
    rw [List.any_eq_true, h]
    constructor
    · rintro ⟨a, inside, same⟩
      obtain ⟨t, -, found⟩ := List.mem_filterMap.mp inside
      rw [← of_decide_eq_true same, names t a found, found]
      exact Option.some_ne_none a
    · intro some
      obtain ⟨a, found⟩ := Option.ne_none_iff_exists'.mp some
      exact ⟨a, List.mem_filterMap.mpr ⟨_, mem, found⟩, decide_eq_true (names _ a found)⟩
  unfold push
  rw [rank?_of_mem (carried _ mem)]
  cases found : f p.type with
  | none =>
    have here := p.into_none
    rw [← found] at here
    simp only [if_neg (mt there.mp (not_not.mpr found))]
    rw [h]
    exact insertArray_filterMap others names sorted mem carried found here
  | some a =>
    have here := p.into_some a
    rw [← found] at here
    simp only [if_pos (there.mpr (by rw [found]; exact Option.some_ne_none a))]
    rw [h]
    exact appendUnit_filterMap others names sorted mem found here

variable {options : Options} {units : List (List UInt8)} {nal : List UInt8} {type : NalType}

theorem unitsOf_append (announced : nalTypeOf? nal = some type) :
    unitsOf type (units ++ [nal]) = unitsOf type units ++ [nal] := by
  rw [unitsOf, List.filter_append, List.filter_singleton, announced]
  simp [unitsOf]

theorem unitsOf_append_other (other : nalTypeOf? nal ≠ some type) :
    unitsOf type (units ++ [nal]) = unitsOf type units := by
  rw [unitsOf, List.filter_append, List.filter_singleton]
  simp [unitsOf, other]

theorem arrayOf?_append_other {complete : Bool} (other : nalTypeOf? nal ≠ some type) :
    arrayOf? complete (units ++ [nal]) type = arrayOf? complete units type := by
  rw [arrayOf?, arrayOf?, unitsOf_append_other other]

theorem arrayOf?_append {complete : Bool} (announced : nalTypeOf? nal = some type) :
    arrayOf? complete (units ++ [nal]) type
      = some { complete, type, units := (unitsOf type units ++ [nal]).toArray } := by
  rw [arrayOf?, unitsOf_append announced, if_neg (List.append_ne_nil_of_right_ne_nil _ (by simp))]

/-- A unit of a type that is not kept changes no array. -/
theorem arraysOf_append_other (other : ∀ type ∈ nalTypeOf? nal, type ∉ keptTypes options) :
    arraysOf options (units ++ [nal]) = arraysOf options units :=
  List.filterMap_congr fun type kept => arrayOf?_append_other fun same => other type same kept

/-- A unit of a kept type gets into the arrays of the units before it. -/
theorem arrays_push {r : Record} (announced : nalTypeOf? nal = some type)
    (kept : type ∈ keptTypes options) (h : r.arrays = arraysOf options units) :
    (r.push type nal options.complete).2.arrays = arraysOf options (units ++ [nal]) := by
  have pushed := push_filterMap (p := ⟨type, nal, options.complete⟩)
    (fun t a found => type_of_arrayOf? found) (keptTypes_pairwise options) kept
    (fun t mem => (mem_keptTypes.mp mem).1) h
  refine pushed.trans (List.filterMap_congr fun t _ => ?_)
  by_cases own : type = t
  · subst own
    rw [arrayOf?_append announced, arrayOf?]
    split
    · next none =>
      rw [none]
      exact Pushed.into_none ⟨type, nal, options.complete⟩
    · exact (Pushed.into_some ⟨type, nal, options.complete⟩ _).trans (by rw [List.push_toArray])
  · have other : nalTypeOf? nal ≠ some t := fun same =>
      own (Option.some.inj (announced.symm.trans same))
    rw [arrayOf?_append_other other]
    exact Pushed.into_of_ne own _

end Hevc.Record
