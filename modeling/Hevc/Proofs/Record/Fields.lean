import Hevc.Proofs.Record.Layout

/-!
# The fields of a record, bit by bit

The bits of the fields lie side by side without gaps. `leftFrom` is what a decoder has in front of
it once it stands at one of them, and `masked` is what a writer still has to write there, with the
reserved bits set; a field takes its own bits off the front of both.

* `recordOf` — what is read of fields and arrays
* `eval_fields` — the decoder reads the fields in front of the frame rate code
* `fixedItems_bits` — what is read of fields is written with the reserved bits set
-/

namespace Hevc.Record

open Decoder

/-! ## What the fields say -/

/-- The profile among the fields. -/
def profileAt (fields : List UInt8) : Profile :=
  { space := numberAt fields 8 2
    highTier := numberAt fields 10 1 = 1
    idc := numberAt fields 11 5
    compatibility := numberAt fields 16 32
    constraints := numberAt fields 48 48
    level := numberAt fields 96 8 }

/-- What the fields say in front of the frame rate code. -/
def frontOf (fields : List UInt8) : Record :=
  { empty with
    profile := profileAt fields
    minSpatialSegmentation := numberAt fields 108 12
    parallelism := .ofCode (numberAt fields 126 2)
    chromaFormat := numberAt fields 134 2
    bitDepthLumaMinus8 := numberAt fields 141 3
    bitDepthChromaMinus8 := numberAt fields 149 3
    avgFrameRate := numberAt fields 152 16 }

/-- The frame rate among the fields. The code without a meaning leaves it unknown. -/
def frameRateAt (fields : List UInt8) : ConstantFrameRate :=
  match numberAt fields 168 2 with
  | 1 => .constant
  | 2 => .temporalLayers
  | _ => .unknown

/-- The record that fields and arrays make. -/
def recordOf (fields : List UInt8) (arrays : List NalArray) : Record :=
  { frontOf fields with
    constantFrameRate := frameRateAt fields
    numTemporalLayers := numberAt fields 170 3
    temporalIdNested := numberAt fields 173 1 = 1
    lengthSizeMinusOne := numberAt fields 174 2
    arrays }

/-- The reserved bits among the fields. -/
def reservedBits : List UInt8 :=
  List.replicate 13 0 ++ [0xf0, 0, 0xfc, 0xfc, 0xf8, 0xf8, 0, 0, 0]

/-- The reserved bits, field by field. -/
theorem ofBytes_reservedBits :
    Bits.ofBytes reservedBits
      = List.replicate 8 false ++ (List.replicate 2 false ++ (false :: (List.replicate 5 false
        ++ (List.replicate 32 false ++ (List.replicate 48 false ++ (List.replicate 8 false
        ++ (List.replicate 4 true ++ (List.replicate 12 false
        ++ (List.replicate 6 true ++ (List.replicate 2 false
        ++ (List.replicate 6 true ++ (List.replicate 2 false
        ++ (List.replicate 5 true ++ (List.replicate 3 false
        ++ (List.replicate 5 true ++ (List.replicate 3 false
        ++ (List.replicate 16 false ++ (List.replicate 2 false ++ (List.replicate 3 false
        ++ (false :: (List.replicate 2 false ++ []))))))))))))))))))))) := by
  decide +kernel

/-! ## Bits of the fields -/

/-- The bits of fields from a place on, and what follows the fields. -/
def leftFrom (fields : List UInt8) (place : Nat) (more : List Bool) : List Bool :=
  (Bits.ofBytes fields).drop place ++ more

/-- The bits of fields from a place on, with the bits of a mask set. -/
def masked (fields : List UInt8) (place : Nat) (mask : List Bool) : List Bool :=
  List.zipWith (· || ·) ((Bits.ofBytes fields).drop place) mask

theorem drop_bitsAt (fields : List UInt8) (place width : Nat) :
    (Bits.ofBytes fields).drop place
      = bitsAt fields place width ++ (Bits.ofBytes fields).drop (place + width) := by
  rw [bitsAt, ← List.drop_drop, List.take_append_drop]

section

variable {fields : List UInt8} (length : fields.length = fieldSize)
include length

theorem length_bitsAt {place width : Nat} (inside : place + width ≤ 8 * fieldSize) :
    (bitsAt fields place width).length = width := by
  rw [bitsAt, List.length_take, List.length_drop, Bits.length_ofBytes, length]
  omega

theorem ofNat_numberAt {place width : Nat} (inside : place + width ≤ 8 * fieldSize) :
    Bits.ofNat (numberAt fields place width) width = bitsAt fields place width := by
  have same := Bits.ofNat_toNat (bitsAt fields place width)
  rwa [length_bitsAt length inside] at same

theorem numberAt_lt {place width : Nat} (inside : place + width ≤ 8 * fieldSize) :
    numberAt fields place width < 2 ^ width := by
  have small := Bits.toNat_lt (bitsAt fields place width)
  rwa [length_bitsAt length inside] at small

/-- A single bit is a number that is 1 or 0. -/
theorem bitsAt_one {place : Nat} (inside : place + 1 ≤ 8 * fieldSize) :
    bitsAt fields place 1 = [(numberAt fields place 1 = 1 : Bool)] := by
  obtain ⟨b, same⟩ := List.length_eq_one_iff.mp (length_bitsAt length inside)
  rw [numberAt, same]
  cases b <;> rfl

theorem frameRateAt_code (known : numberAt fields 168 2 ≠ 3) :
    (frameRateAt fields).code = numberAt fields 168 2 := by
  have small : numberAt fields 168 2 < 4 := numberAt_lt length (by decide)
  rw [frameRateAt]
  generalize numberAt fields 168 2 = code at known small ⊢
  obtain rfl | rfl | rfl : code = 0 ∨ code = 1 ∨ code = 2 := by omega
  all_goals rfl

/-! ## Reading fields -/

theorem eval_numberAt (more : List Bool) {place width : Nat}
    (inside : place + width ≤ 8 * fieldSize) :
    (bits width).eval (leftFrom fields place more)
      = (.ok (numberAt fields place width), leftFrom fields (place + width) more) := by
  rw [leftFrom, drop_bitsAt fields place width, List.append_assoc,
    eval_bits_any (length_bitsAt length inside)]
  rfl

theorem eval_flagAt (more : List Bool) {place : Nat} (inside : place + 1 ≤ 8 * fieldSize) :
    flag.eval (leftFrom fields place more)
      = (.ok (numberAt fields place 1 = 1 : Bool), leftFrom fields (place + 1) more) := by
  rw [leftFrom, drop_bitsAt fields place 1, bitsAt_one length inside]
  rfl

theorem eval_version (known : numberAt fields 0 8 = version) (more : List Bool) :
    versionDecoder.eval (leftFrom fields 0 more) = (.ok (), leftFrom fields 8 more) := by
  rw [versionDecoder, eval_bind_ok (eval_numberAt length more (by decide)), if_pos known]
  rfl

theorem eval_profile (more : List Bool) :
    profileDecoder.eval (leftFrom fields 8 more)
      = (.ok (profileAt fields), leftFrom fields 104 more) := by
  rw [profileDecoder, eval_bind_ok (eval_numberAt length more (by decide)),
    eval_bind_ok (eval_flagAt length more (by decide))]
  iterate 4 rw [eval_bind_ok (eval_numberAt length more (by decide))]
  rfl

theorem eval_frameRate (more : List Bool) :
    frameRateDecoder.eval (leftFrom fields 168 more)
      = (if numberAt fields 168 2 = 3 then .error (.constantFrameRate 3)
          else .ok (frameRateAt fields), leftFrom fields 170 more) := by
  have small : numberAt fields 168 2 < 4 := numberAt_lt length (by decide)
  rw [frameRateDecoder, eval_bind_ok (eval_numberAt length more (by decide)), frameRateAt]
  generalize numberAt fields 168 2 = code at small ⊢
  obtain rfl | rfl | rfl | rfl : code = 0 ∨ code = 1 ∨ code = 2 ∨ code = 3 := by omega
  all_goals rfl

theorem eval_lengthSize (more : List Bool) :
    lengthSizeDecoder.eval (leftFrom fields 174 more)
      = (if numberAt fields 174 2 = 2 then .error .lengthSize
          else .ok (numberAt fields 174 2), more) := by
  have last : leftFrom fields 176 more = more := by
    rw [leftFrom, List.drop_eq_nil_of_le (by rw [Bits.length_ofBytes, length]; decide)]
    rfl
  rw [lengthSizeDecoder, eval_bind_ok (eval_numberAt length more (by decide)), last]
  by_cases three : numberAt fields 174 2 = 2
  · rw [if_pos three, if_pos three]
    rfl
  · rw [if_neg three, if_neg three]
    rfl

end

/-- The reading of a record from the number of arrays on. -/
def arraysOnwards (fields : List UInt8) : Decoder Record := do
  let arrayCount ← bits 8
  let arrays ← many arrayCount arrayDecoder
  return recordOf fields arrays

/-- Of fields that have a meaning, the decoder goes on to the arrays; of others, it does not. -/
theorem eval_fields {fields : List UInt8} (length : fields.length = fieldSize)
    (known : numberAt fields 0 8 = version) (more : List Bool) :
    decoder.eval (Bits.ofBytes fields ++ more)
      = if numberAt fields 168 2 = 3 then (.error (.constantFrameRate 3), leftFrom fields 170 more)
        else if numberAt fields 174 2 = 2 then (.error .lengthSize, more)
        else (arraysOnwards fields).eval more := by
  show decoder.eval (leftFrom fields 0 more) = _
  rw [decoder, eval_bind_ok (eval_version length known more),
    eval_bind_ok (eval_profile length more)]
  iterate 11 rw [eval_bind_ok (eval_numberAt length more (by decide))]
  have rate := eval_frameRate length more
  by_cases bad : numberAt fields 168 2 = 3
  · rw [if_pos bad] at rate ⊢
    rw [eval_bind_error rate]
  · rw [if_neg bad] at rate ⊢
    rw [eval_bind_ok rate, eval_bind_ok (eval_numberAt length more (by decide)),
      eval_bind_ok (eval_flagAt length more (by decide))]
    have size := eval_lengthSize length more
    by_cases three : numberAt fields 174 2 = 2
    · rw [if_pos three] at size ⊢
      rw [eval_bind_error size]
    · rw [if_neg three] at size ⊢
      rw [eval_bind_ok size]
      rfl

/-! ## Writing fields -/

section

variable {fields : List UInt8} (length : fields.length = fieldSize)
include length

theorem masked_append {place width : Nat} (inside : place + width ≤ 8 * fieldSize)
    {mask : List Bool} (size : mask.length = width) (more : List Bool) :
    masked fields place (mask ++ more)
      = List.zipWith (· || ·) (bitsAt fields place width) mask
        ++ masked fields (place + width) more := by
  rw [masked, drop_bitsAt fields place width,
    List.zipWith_append (by rw [length_bitsAt length inside, size])]
  rfl

theorem masked_field {place width : Nat} (inside : place + width ≤ 8 * fieldSize)
    (more : List Bool) :
    masked fields place (List.replicate width false ++ more)
      = (field width (numberAt fields place width)).toBits
        ++ masked fields (place + width) more := by
  have same : List.zipWith (· || ·) (bitsAt fields place width) (List.replicate width false)
      = bitsAt fields place width := by
    have size := length_bitsAt length inside
    exact List.ext_getElem (by simp [size]) (by simp)
  rw [masked_append length inside List.length_replicate, same, ← ofNat_numberAt length inside,
    field, Nat.one_shiftLeft, Nat.mod_eq_of_lt (numberAt_lt length inside)]
  rfl

theorem masked_flag {place : Nat} (inside : place + 1 ≤ 8 * fieldSize) (more : List Bool) :
    masked fields place (false :: more)
      = (Item.flag (numberAt fields place 1 = 1)).toBits ++ masked fields (place + 1) more := by
  have step := masked_append length inside (show [false].length = 1 from rfl) more
  rw [bitsAt_one length inside] at step
  rw [Item.toBits_flag]
  simpa using step

theorem masked_ones {place width : Nat} (inside : place + width ≤ 8 * fieldSize)
    (more : List Bool) :
    masked fields place (List.replicate width true ++ more)
      = (ones width).toBits ++ masked fields (place + width) more := by
  have same : List.zipWith (· || ·) (bitsAt fields place width) (List.replicate width true)
      = Bits.ofNat (2 ^ width - 1) width := by
    have size := length_bitsAt length inside
    rw [Bits.ofNat_ones (Nat.le_refl width)]
    exact List.ext_getElem (by simp [size]) (by simp)
  rw [masked_append length inside List.length_replicate, same, ones, Nat.one_shiftLeft]
  rfl

end

/-- What is read of fields is written with the reserved bits set. -/
theorem fixedItems_bits {fields : List UInt8} (good : FieldsComplete fields)
    (arrays : List NalArray) :
    Item.allBits (recordOf fields arrays).fixedItems
      = Bits.ofBytes (List.zipWith (· ||| ·) fields reservedBits) := by
  have length := good.length
  have parallelism : (recordOf fields arrays).parallelism.code = numberAt fields 126 2 := by
    show (Parallelism.ofCode _).code = _
    rw [Parallelism.code_ofCode]
    exact Nat.mod_eq_of_lt (numberAt_lt length (by decide))
  have rate : (recordOf fields arrays).constantFrameRate.code = numberAt fields 168 2 :=
    frameRateAt_code length good.frameRate
  rw [fixedItems, parallelism, rate, ← good.version, Bits.ofBytes_or, ofBytes_reservedBits]
  show _ = masked fields 0 _
  -- one step for each field, in the order of the fields
  iterate 2 rw [masked_field length (by decide)]
  rw [masked_flag length (by decide)]
  iterate 4 rw [masked_field length (by decide)]
  iterate 5 rw [masked_ones length (by decide), masked_field length (by decide)]
  iterate 3 rw [masked_field length (by decide)]
  rw [masked_flag length (by decide), masked_field length (by decide)]
  simp only [Item.allBits_cons, Item.allBits_nil, masked, List.zipWith_nil_right, recordOf, frontOf,
    profileAt, Nat.reduceAdd]

theorem recordOf_fits {fields : List UInt8} (good : FieldsComplete fields) {arrays : List NalArray}
    (count : arrays.length ≤ maxArrays) (each : ∀ a ∈ arrays, a.Fits) :
    (recordOf fields arrays).Fits where
  profile :=
    { space := numberAt_lt good.length (by decide)
      idc := numberAt_lt good.length (by decide)
      compatibility := numberAt_lt good.length (by decide)
      constraints := numberAt_lt good.length (by decide)
      level := numberAt_lt good.length (by decide) }
  minSpatialSegmentation := numberAt_lt good.length (by decide)
  chromaFormat := numberAt_lt good.length (by decide)
  bitDepthLumaMinus8 := numberAt_lt good.length (by decide)
  bitDepthChromaMinus8 := numberAt_lt good.length (by decide)
  avgFrameRate := numberAt_lt good.length (by decide)
  numTemporalLayers := numberAt_lt good.length (by decide)
  lengthSizeMinusOne := by
    have small : numberAt fields 174 2 < 2 ^ 2 := numberAt_lt good.length (by decide)
    have two := good.lengthSize
    simp only [recordOf, List.mem_cons, List.not_mem_nil, or_false]
    omega
  arrays := count
  array := each

end Hevc.Record
