import Hevc.Proofs.Record.RoundTrip

/-!
# The bytes of a record, part by part

A record as it stands in a buffer: 22 bytes of fields, the number of the arrays, and the arrays,
each of them after a byte that has its flag and its type. Reserved bits may have any value.

* `Layout.Complete` — what a complete record is
* `Rejected` — bytes that have something without a meaning in them, before they end
* `record_begins` — bytes begin with a complete record, or they are rejected, or they are the front
  of a complete record
-/

namespace Hevc.Record

/-! ## Fronts -/

/-- What bytes are when they are held against a form: they begin with something complete of the
form, or they are rejected, or they are the front of something complete. -/
inductive Begins {α : Type} (form : α → List UInt8) (complete : α → Prop)
    (rejected : List UInt8 → Fault → Prop) (bytes : List UInt8) : Prop
  | whole (v : α) (rest : List UInt8) (h : complete v) (same : bytes = form v ++ rest)
  | rejected (fault : Fault) (h : rejected bytes fault)
  | front (v : α) (more : List UInt8) (h : complete v) (some : more ≠ [])
    (same : bytes ++ more = form v)

/-- Nothing is rejected. -/
def nothing : List UInt8 → Fault → Prop := fun _ _ => False

/-- Some of the parts that were announced are complete, and the next one is rejected. -/
def RejectedAmong {α : Type} (form : α → List UInt8) (complete : α → Prop)
    (rejected : List UInt8 → Fault → Prop) (count : Nat) (bytes : List UInt8) (fault : Fault) :
    Prop :=
  ∃ (vs : List α) (rest : List UInt8), vs.length < count ∧ (∀ v ∈ vs, complete v)
    ∧ bytes = vs.flatMap form ++ rest ∧ rejected rest fault

namespace Begins

variable {α : Type} {form : α → List UInt8} {complete : α → Prop}
  {rejected : List UInt8 → Fault → Prop}

/-- As many parts as are announced, one after another. A part stands in for those that are not
there. -/
theorem many (each : ∀ bytes, Begins form complete rejected bytes) {standIn : α}
    (fills : complete standIn) (count : Nat) (bytes : List UInt8) :
    Begins (List.flatMap form) (fun vs => vs.length = count ∧ ∀ v ∈ vs, complete v)
      (RejectedAmong form complete rejected count) bytes := by
  induction count generalizing bytes with
  | zero => exact .whole [] bytes ⟨rfl, by simp⟩ rfl
  | succ count ih =>
    rcases each bytes with ⟨v, rest, h, rfl⟩ | ⟨fault, h⟩ | ⟨v, more, h, some, same⟩
    · rcases ih rest with ⟨vs, rest, ⟨rfl, all⟩, rfl⟩ | ⟨fault, vs, rest, few, all, rfl, bad⟩ |
        ⟨vs, more, ⟨rfl, all⟩, some, same⟩
      · refine .whole (v :: vs) rest ⟨rfl, List.forall_mem_cons.mpr ⟨h, all⟩⟩ ?_
        rw [List.flatMap_cons, List.append_assoc]
      · refine .rejected fault ⟨v :: vs, rest, Nat.succ_lt_succ few,
          List.forall_mem_cons.mpr ⟨h, all⟩, ?_, bad⟩
        rw [List.flatMap_cons, List.append_assoc]
      · refine .front (v :: vs) more ⟨rfl, List.forall_mem_cons.mpr ⟨h, all⟩⟩ some ?_
        rw [List.flatMap_cons, List.append_assoc, same]
    · exact .rejected fault ⟨[], bytes, Nat.succ_pos count, by simp, rfl, h⟩
    · refine .front (v :: List.replicate count standIn)
        (more ++ (List.replicate count standIn).flatMap form) ⟨?_, ?_⟩ ?_ ?_
      · rw [List.length_cons, List.length_replicate]
      · refine List.forall_mem_cons.mpr ⟨h, fun other mem => ?_⟩
        rwa [List.eq_of_mem_replicate mem]
      · exact fun none => some (List.append_eq_nil_iff.mp none).1
      · rw [← List.append_assoc, same, List.flatMap_cons]

end Begins

/-! ## Units -/

/-- A unit after its length. -/
def framed (unit : List UInt8) : List UInt8 := word unit.length ++ unit

theorem word_toNat (high low : UInt8) : word (256 * high.toNat + low.toNat) = [high, low] := by
  have top : (256 * high.toNat + low.toNat) / 256 = high.toNat := by
    have := low.toNat_lt
    omega
  have bottom : UInt8.ofNat (256 * high.toNat + low.toNat) = low := by
    rw [← UInt8.toNat_inj, UInt8.toNat_ofNat', Nat.mul_add_mod]
    exact Nat.mod_eq_of_lt low.toNat_lt
  rw [word, top, bottom, UInt8.ofNat_toNat]

theorem word_begins (bytes : List UInt8) : Begins word (· < 2 ^ 16) nothing bytes := by
  rcases bytes with - | ⟨high, - | ⟨low, rest⟩⟩
  · exact .front 0 (word 0) (by decide) (by decide) rfl
  · have bound := high.toNat_lt
    refine .front (256 * high.toNat + (0 : UInt8).toNat) [0] ?_ (by decide) (word_toNat high 0).symm
    rw [UInt8.toNat_zero]
    omega
  · have bound := high.toNat_lt
    have bound' := low.toNat_lt
    refine .whole (256 * high.toNat + low.toNat) rest (by omega) ?_
    rw [word_toNat]
    rfl

theorem unit_begins (bytes : List UInt8) :
    Begins framed (fun unit => unit.length < 2 ^ 16) nothing bytes := by
  rcases word_begins bytes with ⟨n, rest, small, rfl⟩ | ⟨fault, h⟩ | ⟨n, more, small, some, same⟩
  · by_cases room : n ≤ rest.length
    · have size : (rest.take n).length = n := List.length_take_of_le room
      refine .whole (rest.take n) (rest.drop n) (by omega) ?_
      rw [framed, size, List.append_assoc, List.take_append_drop]
    · -- zeros stand in for the bytes of the unit that are not there
      have size : (rest ++ List.replicate (n - rest.length) 0).length = n := by
        rw [List.length_append, List.length_replicate]
        omega
      refine .front (rest ++ List.replicate (n - rest.length) 0)
        (List.replicate (n - rest.length) 0) (by omega) ?_ ?_
      · rw [Ne, List.replicate_eq_nil_iff]
        omega
      · rw [framed, size, List.append_assoc]
  · exact absurd h id
  · refine .front (List.replicate n 0) (more ++ List.replicate n 0) ?_ ?_ ?_
    · rwa [List.length_replicate]
    · exact fun none => some (List.append_eq_nil_iff.mp none).1
    · rw [framed, List.length_replicate, ← same, List.append_assoc]

/-! ## Arrays -/

/-- The bytes of an array, part by part. -/
structure ArrayLayout where
  /-- The flag, a reserved bit, and six bits of the type. -/
  header : UInt8
  units : List (List UInt8)

namespace ArrayLayout

def bytes (a : ArrayLayout) : List UInt8 :=
  a.header :: (word a.units.length ++ a.units.flatMap framed)

/-- The type that the header names. -/
def type (a : ArrayLayout) : NalType := .ofCode a.header.toNat

/-- An array of a type that a record carries, with numbers that 16 bits hold. -/
structure Complete (a : ArrayLayout) : Prop where
  type : a.type ∈ NalType.carried
  count : a.units.length < 2 ^ 16
  units : ∀ unit ∈ a.units, unit.length < 2 ^ 16

end ArrayLayout

/-- The header of an array names a type that a record does not carry. -/
inductive RejectedArray : List UInt8 → Fault → Prop
  | type {header : UInt8} {rest : List UInt8} (h : .ofCode header.toNat ∉ NalType.carried) :
    RejectedArray (header :: rest) (.notCarried (.ofCode header.toNat))

/-- An array of no video parameter sets. -/
def emptyArray : ArrayLayout := { header := 32, units := [] }

theorem complete_emptyArray : emptyArray.Complete := ⟨by decide, by decide, by simp [emptyArray]⟩

theorem array_begins (bytes : List UInt8) :
    Begins ArrayLayout.bytes ArrayLayout.Complete RejectedArray bytes := by
  rcases bytes with - | ⟨header, rest⟩
  · exact .front emptyArray emptyArray.bytes complete_emptyArray (by decide) rfl
  by_cases type : NalType.ofCode header.toNat ∈ NalType.carried
  · have units := Begins.many unit_begins (show ([] : List UInt8).length < 2 ^ 16 by decide)
    rcases word_begins rest with ⟨n, rest, small, rfl⟩ | ⟨fault, h⟩ | ⟨n, more, small, some, same⟩
    · rcases units n rest with ⟨us, rest, ⟨rfl, all⟩, rfl⟩ | ⟨fault, us, rest, -, -, -, h⟩ |
        ⟨us, more, ⟨rfl, all⟩, some, same⟩
      · refine .whole ⟨header, us⟩ rest ⟨type, small, all⟩ ?_
        rw [ArrayLayout.bytes, List.cons_append, List.append_assoc]
      · exact absurd h id
      · refine .front ⟨header, us⟩ more ⟨type, small, all⟩ some ?_
        rw [ArrayLayout.bytes, List.cons_append, List.append_assoc, same]
    · exact absurd h id
    · -- units without bytes stand in for those that are announced
      refine .front ⟨header, List.replicate n []⟩ (more ++ (List.replicate n []).flatMap framed)
        ⟨type, ?_, ?_⟩ ?_ ?_
      · rwa [List.length_replicate]
      · intro unit mem
        rw [List.eq_of_mem_replicate mem]
        decide
      · exact fun none => some (List.append_eq_nil_iff.mp none).1
      · rw [ArrayLayout.bytes, List.length_replicate, ← same, List.cons_append, List.append_assoc]
  · exact .rejected _ (.type type)

/-! ## Records -/

/-- Some bits of bytes, from a place on. -/
def bitsAt (bytes : List UInt8) (place width : Nat) : List Bool :=
  ((Bits.ofBytes bytes).drop place).take width

/-- The number that some bits of bytes write, from a place on. -/
def numberAt (bytes : List UInt8) (place width : Nat) : Nat := Bits.toNat (bitsAt bytes place width)

/-- The number of bytes in front of the number of arrays. -/
def fieldSize : Nat := 22

/-- Fields of the known version, with a frame rate code and a size of length fields that have a
meaning. -/
structure FieldsComplete (fields : List UInt8) : Prop where
  length : fields.length = fieldSize
  version : numberAt fields 0 8 = version
  frameRate : numberAt fields 168 2 ≠ 3
  lengthSize : numberAt fields 174 2 ≠ 2

/-- The bytes of a record, part by part. -/
structure Layout where
  fields : List UInt8
  arrays : List ArrayLayout

namespace Layout

def bytes (l : Layout) : List UInt8 :=
  l.fields ++ UInt8.ofNat l.arrays.length :: l.arrays.flatMap ArrayLayout.bytes

/-- A complete record: its fields, and as many complete arrays as it counts. -/
structure Complete (l : Layout) : Prop where
  fields : FieldsComplete l.fields
  count : l.arrays.length ≤ maxArrays
  arrays : ∀ a ∈ l.arrays, a.Complete

end Layout

/-- Bytes that have something without a meaning in them, before they end. -/
inductive Rejected : List UInt8 → Fault → Prop
  | version {first : UInt8} {rest : List UInt8} (other : first.toNat ≠ version) :
    Rejected (first :: rest) (.recordVersion first.toNat)
  | frameRate {fields rest : List UInt8} (length : fields.length = fieldSize)
    (known : numberAt fields 0 8 = version) (bad : numberAt fields 168 2 = 3) :
    Rejected (fields ++ rest) (.constantFrameRate 3)
  | lengthSize {fields rest : List UInt8} (length : fields.length = fieldSize)
    (known : numberAt fields 0 8 = version) (good : numberAt fields 168 2 ≠ 3)
    (bad : numberAt fields 174 2 = 2) : Rejected (fields ++ rest) .lengthSize
  | arrayType {fields rest : List UInt8} {count : UInt8} {fault : Fault}
    (good : FieldsComplete fields)
    (bad : RejectedAmong ArrayLayout.bytes ArrayLayout.Complete RejectedArray count.toNat rest
      fault) :
    Rejected (fields ++ count :: rest) fault

theorem numberAt_first (first : UInt8) (rest : List UInt8) :
    numberAt (first :: rest) 0 8 = first.toNat := by
  rw [numberAt, bitsAt, Bits.ofBytes_cons, List.drop_zero,
    List.take_left' (Bits.length_ofByte first), Bits.ofByte, Bits.toNat_ofNat first.toNat_lt]

/-- The bytes in front of a place have no part in the numbers behind it. -/
theorem numberAt_append (front rest : List UInt8) (place width : Nat) :
    numberAt (front ++ rest) (8 * front.length + place) width = numberAt rest place width := by
  rw [numberAt, bitsAt, Bits.ofBytes_append, ← Bits.length_ofBytes, List.drop_length_add_append,
    numberAt, bitsAt]

/-- Fields that begin with some bytes, if these are of the known version. -/
def standInFields (bytes : List UInt8) : List UInt8 :=
  bytes ++ (1 :: List.replicate 21 0).drop bytes.length

theorem fieldsComplete_standIn {bytes : List UInt8} (short : bytes.length < fieldSize)
    (known : ∀ first ∈ bytes.head?, first.toNat = version) :
    FieldsComplete (standInFields bytes) := by
  rw [fieldSize] at short
  -- the last byte is always a stand-in
  obtain ⟨front, same, length⟩ :
      ∃ front, standInFields bytes = front ++ [0] ∧ front.length = 21 := by
    refine ⟨bytes ++ (1 :: List.replicate 20 0).drop bytes.length, ?_, ?_⟩
    · rw [standInFields, List.append_assoc, ← List.drop_append_of_le_length (by simp; omega)]
      rfl
    · simp only [List.length_append, List.length_drop, List.length_cons, List.length_replicate]
      omega
  refine ⟨?_, ?_, ?_, ?_⟩
  · rw [same, List.length_append, length]
    rfl
  · rcases bytes with - | ⟨first, rest⟩
    · decide
    · rw [standInFields, List.cons_append, numberAt_first]
      exact known first rfl
  · have last := numberAt_append front [0] 0 2
    rw [length] at last
    rw [same, last]
    decide
  · have last := numberAt_append front [0] 6 2
    rw [length] at last
    rw [same, last]
    decide

theorem arrays_begin (count : UInt8) (rest : List UInt8) :
    Begins (List.flatMap ArrayLayout.bytes)
      (fun arrays => arrays.length = count.toNat ∧ ∀ a ∈ arrays, a.Complete)
      (RejectedAmong ArrayLayout.bytes ArrayLayout.Complete RejectedArray count.toNat) rest :=
  .many array_begins complete_emptyArray count.toNat rest

/-- Behind complete fields, the arrays decide. -/
theorem record_begins_of_fields {fields : List UInt8} (good : FieldsComplete fields)
    (rest : List UInt8) : Begins Layout.bytes Layout.Complete Rejected (fields ++ rest) := by
  rcases rest with - | ⟨count, rest⟩
  · refine .front ⟨fields, []⟩ [0] ⟨good, Nat.zero_le _, by simp⟩ (by decide) ?_
    rw [List.append_nil]
    rfl
  · have few : count.toNat ≤ maxArrays := Nat.le_of_lt_succ count.toNat_lt
    rcases arrays_begin count rest with ⟨arrays, rest, ⟨length, all⟩, rfl⟩ | ⟨fault, bad⟩ |
      ⟨arrays, more, ⟨length, all⟩, some, same⟩
    · refine .whole ⟨fields, arrays⟩ rest ⟨good, length ▸ few, all⟩ ?_
      rw [Layout.bytes, length, UInt8.ofNat_toNat, List.append_assoc, List.cons_append]
    · exact .rejected fault (.arrayType good bad)
    · refine .front ⟨fields, arrays⟩ more ⟨good, length ▸ few, all⟩ some ?_
      rw [Layout.bytes, length, UInt8.ofNat_toNat, List.append_assoc, List.cons_append, same]

/-- Bytes begin with a complete record, or they are rejected, or they are the front of one. -/
theorem record_begins (bytes : List UInt8) :
    Begins Layout.bytes Layout.Complete Rejected bytes := by
  by_cases known : ∀ first ∈ bytes.head?, first.toNat = version
  · by_cases short : bytes.length < fieldSize
    · refine .front ⟨standInFields bytes, []⟩ ((1 :: List.replicate 21 0).drop bytes.length ++ [0])
        ⟨fieldsComplete_standIn short known, Nat.zero_le _, by simp⟩ (by simp) ?_
      rw [← List.append_assoc]
      rfl
    · obtain ⟨fields, rest, rfl, length⟩ :
          ∃ fields rest, bytes = fields ++ rest ∧ fields.length = fieldSize :=
        ⟨bytes.take fieldSize, bytes.drop fieldSize, (List.take_append_drop _ _).symm,
          List.length_take_of_le (Nat.le_of_not_lt short)⟩
      have known : numberAt fields 0 8 = version := by
        rcases fields with - | ⟨first, others⟩
        · exact absurd length (by decide)
        · rw [numberAt_first]
          exact known first rfl
      by_cases rate : numberAt fields 168 2 = 3
      · exact .rejected _ (.frameRate length known rate)
      by_cases size : numberAt fields 174 2 = 2
      · exact .rejected _ (.lengthSize length known rate size)
      exact record_begins_of_fields ⟨length, known, rate, size⟩ rest
  · rcases bytes with - | ⟨first, rest⟩
    · exact absurd nofun known
    · exact .rejected _ (.version fun same => known fun other mem => by
        rwa [← Option.some.inj mem])

end Hevc.Record
