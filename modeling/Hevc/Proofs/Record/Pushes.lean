import Hevc.Proofs.Record.Absorb

/-!
# Units pushed one by one

A record keeps its arrays in the order of their types, with one array for each, whichever units are
pushed to it and in whatever order they come. What becomes of the array of a type depends on the
units of that type alone: they are added to it in the order in which they came, and where there was
none, the first of them brings the flag of the new array.

* `arrays_eq_filterMap` — ordered arrays, listed by their types
* `push_into` — one push, in that form
* `ordered_pushAll`, `pushAll_canonical` — any number of pushes
-/

namespace Hevc.Record

/-! ## Pushes -/

/-- Pushes units one after another. Each of them is answered with whether it was taken. -/
def pushAll : List Pushed → Record → List Bool × Record
  | [], r => ([], r)
  | p :: pushes, r =>
    let (taken, r) := r.push p.type p.unit p.complete
    let (answers, r) := r.pushAll pushes
    (taken :: answers, r)

/-- The arrays of a record are of types that it can carry, in the order of these types and with one
array for each at most. -/
structure Ordered (r : Record) : Prop where
  carried : ∀ a ∈ r.arrays, a.type ∈ NalType.carried
  sorted : r.arrays.Pairwise (place ·.type < place ·.type)

/-- The array of a type, if a record has one. -/
def held? (r : Record) (type : NalType) : Option NalArray := r.arrays.find? (·.type = type)

/-- What pushes make of the array of a type: the units of the type get behind those that it has, and
a new array takes the flag of the first of them. -/
def grown (type : NalType) (pushes : List Pushed) (a? : Option NalArray) : Option NalArray :=
  match a?, pushes.filter (·.type = type) with
  | some a, own => some { a with units := a.units ++ (own.map (·.unit)).toArray }
  | none, [] => none
  | none, first :: own =>
    some { complete := first.complete, type, units := ((first :: own).map (·.unit)).toArray }

theorem pushAll_cons (p : Pushed) (pushes : List Pushed) (r : Record) :
    r.pushAll (p :: pushes)
      = ((r.push p.type p.unit p.complete).1
          :: ((r.push p.type p.unit p.complete).2.pushAll pushes).1,
        ((r.push p.type p.unit p.complete).2.pushAll pushes).2) := rfl

theorem ordered_empty : empty.Ordered := ⟨by simp [empty], by simp [empty]⟩

/-! ## Arrays by their types -/

/-- Arrays in the order of certain types are what these types name, one after another. -/
theorem filterMap_find? {types : List NalType} (order : types.Pairwise (place · < place ·))
    {arrays : List NalArray} (sorted : arrays.Pairwise (place ·.type < place ·.type))
    (among : ∀ a ∈ arrays, a.type ∈ types) :
    types.filterMap (fun type => arrays.find? (·.type = type)) = arrays := by
  induction types generalizing arrays with
  | nil =>
    cases arrays with
    | nil => rfl
    | cons a arrays => exact absurd (among a List.mem_cons_self) List.not_mem_nil
  | cons t types ih =>
    obtain ⟨first, order'⟩ := List.pairwise_cons.mp order
    cases arrays with
    | nil => simp
    | cons a arrays =>
      obtain ⟨least, sorted'⟩ := List.pairwise_cons.mp sorted
      by_cases ht : a.type = t
      · -- the first type is that of the first array, and the other types do not name it
        subst ht
        have later : ∀ b ∈ arrays, b.type ∈ types := by
          intro b mem
          rcases List.mem_cons.mp (among b (List.mem_cons_of_mem a mem)) with same | later
          · exact absurd (least b mem) (by rw [same]; exact Nat.lt_irrefl _)
          · exact later
        have others : ∀ type ∈ types, (a :: arrays).find? (·.type = type)
            = arrays.find? (·.type = type) := by
          intro type mem
          refine List.find?_cons_of_neg ?_
          rw [decide_eq_true_iff]
          intro same
          exact absurd (first type mem) (by rw [same]; exact Nat.lt_irrefl _)
        have found : (a :: arrays).find? (·.type = a.type) = some a :=
          List.find?_cons_of_pos (decide_eq_true (rfl : a.type = a.type))
        rw [List.filterMap_cons, found, List.filterMap_congr others, ih order' sorted' later]
      · -- no array is of the first type
        have inside : a.type ∈ types :=
          (List.mem_cons.mp (among a List.mem_cons_self)).resolve_left ht
        have above : ∀ b ∈ a :: arrays, place t < place b.type := by
          rw [List.forall_mem_cons]
          refine ⟨first _ inside, fun b mem => ?_⟩
          exact Nat.lt_trans (first _ inside) (least b mem)
        have absent : (a :: arrays).find? (·.type = t) = none := by
          rw [List.find?_eq_none]
          intro b mem
          rw [decide_eq_true_iff]
          intro same
          exact absurd (above b mem) (by rw [same]; exact Nat.lt_irrefl _)
        rw [List.filterMap_cons, absent]
        refine ih order' sorted fun b mem => ?_
        refine (List.mem_cons.mp (among b mem)).resolve_left fun same => ?_
        exact absurd (above b mem) (by rw [same]; exact Nat.lt_irrefl _)

theorem carried_pairwise : NalType.carried.Pairwise (place · < place ·) := by decide

theorem arrays_eq_filterMap {r : Record} (h : r.Ordered) :
    r.arrays = NalType.carried.filterMap r.held? :=
  (filterMap_find? carried_pairwise h.sorted h.carried).symm

theorem type_of_held? {r : Record} {type : NalType} {a : NalArray} (h : r.held? type = some a) :
    a.type = type := by
  unfold held? at h
  simpa using List.find?_some h

/-- Arrays that are listed by their types are ordered. -/
theorem ordered_of_filterMap {r : Record} {f : NalType → Option NalArray}
    (names : ∀ t, ∀ a ∈ f t, a.type = t) (h : r.arrays = NalType.carried.filterMap f) :
    r.Ordered where
  carried := by
    intro a mem
    rw [h] at mem
    obtain ⟨type, carried, found⟩ := List.mem_filterMap.mp mem
    rwa [names type a found]
  sorted := by
    rw [h]
    refine List.Pairwise.filterMap f ?_ carried_pairwise
    intro t t' before a found a' found'
    rwa [names t a found, names t' a' found']

/-! ## One push -/

theorem rank?_eq_none {type : NalType} (h : type ∉ NalType.carried) : type.rank? = none := by
  unfold NalType.rank?
  rw [List.findIdx?_eq_none_iff]
  intro t mem
  rw [decide_eq_false_iff_not]
  rintro rfl
  exact h mem

theorem push_of_not_carried {type : NalType} (h : type ∉ NalType.carried) (unit : List UInt8)
    (complete : Bool) (r : Record) : r.push type unit complete = (false, r) := by
  unfold push
  rw [rank?_eq_none h]

/-- A push is answered with whether a record can carry units of the type. -/
theorem push_fst (type : NalType) (unit : List UInt8) (complete : Bool) (r : Record) :
    (r.push type unit complete).1 = decide (type ∈ NalType.carried) := by
  by_cases carried : type ∈ NalType.carried
  · rw [decide_eq_true carried]
    unfold push
    rw [rank?_of_mem carried]
    dsimp only
    split <;> rfl
  · rw [push_of_not_carried carried, decide_eq_false carried]

/-- A push changes the array of its type alone. -/
theorem push_into {r : Record} {f : NalType → Option NalArray}
    (names : ∀ t, ∀ a ∈ f t, a.type = t) (h : r.arrays = NalType.carried.filterMap f)
    (p : Pushed) :
    (r.push p.type p.unit p.complete).2.arrays
      = NalType.carried.filterMap fun t => p.into t (f t) := by
  by_cases carried : p.type ∈ NalType.carried
  · exact push_filterMap names carried_pairwise carried (fun _ mem => mem) h
  · rw [push_of_not_carried carried, h]
    refine List.filterMap_congr fun t mem => (Pushed.into_of_ne ?_ (f t)).symm
    rintro rfl
    exact carried mem

/-! ## Pushes in a row -/

/-- The first push, and then the others. -/
theorem grown_cons (type : NalType) (p : Pushed) (pushes : List Pushed) (a? : Option NalArray) :
    grown type (p :: pushes) a? = grown type pushes (p.into type a?) := by
  by_cases own : p.type = type
  · subst own
    have first : (p :: pushes).filter (·.type = p.type) = p :: pushes.filter (·.type = p.type) :=
      List.filter_cons_of_pos (decide_eq_true rfl)
    cases a? with
    | none =>
      rw [Pushed.into_none]
      simp only [grown, first]
      simp
    | some a =>
      rw [Pushed.into_some]
      simp only [grown, first]
      simp
  · have first : (p :: pushes).filter (·.type = type) = pushes.filter (·.type = type) :=
      List.filter_cons_of_neg (by simpa using own)
    rw [Pushed.into_of_ne own]
    simp only [grown, first]

theorem grown_nil (type : NalType) (a? : Option NalArray) : grown type [] a? = a? := by
  cases a? with
  | none => rfl
  | some a => simp [grown]

theorem pushAll_answers (pushes : List Pushed) (r : Record) :
    (r.pushAll pushes).1 = pushes.map fun p => decide (p.type ∈ NalType.carried) := by
  induction pushes generalizing r with
  | nil => rfl
  | cons p pushes ih => exact congrArg₂ List.cons (push_fst p.type p.unit p.complete r) (ih _)

theorem withoutArrays_pushAll (pushes : List Pushed) (r : Record) :
    (r.pushAll pushes).2.withoutArrays = r.withoutArrays := by
  induction pushes generalizing r with
  | nil => rfl
  | cons p pushes ih => exact (ih _).trans (withoutArrays_push p.type p.unit p.complete r)

/-- Pushes that are refused may as well not be made. -/
theorem pushAll_skipped (pushes : List Pushed) (r : Record) :
    (r.pushAll pushes).2 = (r.pushAll (pushes.filter (·.type ∈ NalType.carried))).2 := by
  induction pushes generalizing r with
  | nil => rfl
  | cons p pushes ih =>
    by_cases carried : p.type ∈ NalType.carried
    · rw [List.filter_cons_of_pos (by simpa using carried)]
      exact ih _
    · rw [List.filter_cons_of_neg (by simpa using carried), ← ih, pushAll_cons,
        push_of_not_carried carried]

/-- Each array grows by the pushes of its type. -/
theorem pushAll_filterMap (pushes : List Pushed) {r : Record} {f : NalType → Option NalArray}
    (names : ∀ t, ∀ a ∈ f t, a.type = t) (h : r.arrays = NalType.carried.filterMap f) :
    (∀ t, ∀ a ∈ grown t pushes (f t), a.type = t)
      ∧ (r.pushAll pushes).2.arrays
        = NalType.carried.filterMap fun t => grown t pushes (f t) := by
  induction pushes generalizing r f with
  | nil =>
    simp only [grown_nil]
    exact ⟨names, h⟩
  | cons p pushes ih =>
    simp only [grown_cons]
    exact ih (into_names names) (push_into names h p)

theorem ordered_pushAll {r : Record} (h : r.Ordered) (pushes : List Pushed) :
    (r.pushAll pushes).2.Ordered := by
  obtain ⟨names, arrays⟩ :=
    pushAll_filterMap pushes (fun _ _ found => type_of_held? found) (arrays_eq_filterMap h)
  exact ordered_of_filterMap names arrays

/-- A record that was made by pushes alone is ordered. -/
example (pushes : List Pushed) : (empty.pushAll pushes).2.Ordered :=
  ordered_pushAll ordered_empty pushes

/-- What is promised of pushes to a record that end with the record `r'` and were answered with
`answers`. -/
structure Canonical (r : Record) (pushes : List Pushed) (answers : List Bool) (r' : Record) :
    Prop where
  ordered : r'.Ordered
  /-- Of each type there is the array that the pushes of the type made of the one before. -/
  arrays : r'.arrays = NalType.carried.filterMap fun type => grown type pushes (r.held? type)
  /-- A push is refused if and only if a record cannot carry the type. -/
  answers : answers = pushes.map fun p => decide (p.type ∈ NalType.carried)
  /-- Such pushes change nothing. -/
  skipped : r' = (r.pushAll (pushes.filter (·.type ∈ NalType.carried))).2
  refused : ∀ p : Pushed, p.type ∉ NalType.carried →
    r'.push p.type p.unit p.complete = (false, r')
  /-- No push changes anything but the arrays. -/
  rest : r'.withoutArrays = r.withoutArrays

/-- Pushes in any order keep ordered arrays ordered, and add each unit to the array of its type. -/
theorem pushAll_canonical {r : Record} (h : r.Ordered) (pushes : List Pushed) :
    Canonical r pushes (r.pushAll pushes).1 (r.pushAll pushes).2 where
  ordered := ordered_pushAll h pushes
  arrays := (pushAll_filterMap pushes (fun _ _ found => type_of_held? found)
    (arrays_eq_filterMap h)).2
  answers := pushAll_answers pushes r
  skipped := pushAll_skipped pushes r
  refused := fun p other => push_of_not_carried other p.unit p.complete _
  rest := withoutArrays_pushAll pushes r

/-- A record with the arrays of two types. -/
def partRecord : Record :=
  { empty with
    arrays := [{ complete := true, type := .sps, units := #[[0x42, 1]] },
      { complete := false, type := .prefixSei, units := #[[0x4e, 1]] }] }

/-- Units of all types, an access unit delimiter among them. -/
def mixedPushes : List Pushed :=
  [⟨.pps, [0x44, 1], true⟩, ⟨.suffixSei, [0x50, 1], false⟩, ⟨.accessUnitDelimiter, [0x46, 1], true⟩,
    ⟨.sps, [0x42, 2], false⟩, ⟨.vps, [0x40, 1], false⟩, ⟨.pps, [0x44, 2], false⟩]

theorem pushAll_canonical_mixed :
    partRecord.Ordered
      ∧ (partRecord.pushAll mixedPushes).1 = [true, true, false, true, true, true]
      ∧ (partRecord.pushAll mixedPushes).2.arrays
        = [{ complete := false, type := .vps, units := #[[0x40, 1]] },
          { complete := true, type := .sps, units := #[[0x42, 1], [0x42, 2]] },
          { complete := true, type := .pps, units := #[[0x44, 1], [0x44, 2]] },
          { complete := false, type := .prefixSei, units := #[[0x4e, 1]] },
          { complete := false, type := .suffixSei, units := #[[0x50, 1]] }] := by
  have ordered : partRecord.Ordered := ⟨by decide, by decide⟩
  have canonical := pushAll_canonical ordered mixedPushes
  exact ⟨ordered, canonical.answers.trans (by decide), canonical.arrays.trans (by decide)⟩

end Hevc.Record
