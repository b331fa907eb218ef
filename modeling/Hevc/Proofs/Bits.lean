import Mathlib.Algebra.Group.Nat.Defs

/-!
# Bit strings

What a run of bytes says, as a list of bits. Readers and writers are compared through this view:
a number is the list of its low bits, the most significant first, and a byte is a number of eight.

* `toNat_ofNat`, `ofNat_toNat` — numbers below `2 ^ count` and lists of `count` bits correspond
* `ofByte_toByte` — eight bits are the bits of one byte
* `length_ofBytes` — bytes in a row have eight bits each
-/

namespace Hevc.Bits

/-! ## Numbers -/

/-- The low `count` bits of a number, the most significant first. -/
def ofNat (value : Nat) : Nat → List Bool
  | 0 => []
  | count + 1 => value.testBit count :: ofNat value count

/-- The number that bits write after the digits of `high`. -/
def toNatFrom (high : Nat) : List Bool → Nat
  | [] => high
  | b :: rest => toNatFrom (2 * high + b.toNat) rest

/-- The number that bits write. -/
def toNat (bits : List Bool) : Nat := toNatFrom 0 bits

@[simp] theorem length_ofNat (value count : Nat) : (ofNat value count).length = count := by
  induction count with
  | zero => rfl
  | succ count ih => rw [ofNat, List.length_cons, ih]

/-- Reading the low bits of a number after `high` puts them behind the digits of `high`. -/
theorem toNatFrom_ofNat (high value count : Nat) :
    toNatFrom high (ofNat value count) = high * 2 ^ count + value % 2 ^ count := by
  -- generalised over the digits in front, since the first bit goes there
  induction count generalizing high with
  | zero => simp only [ofNat, toNatFrom, Nat.pow_zero, Nat.mul_one, Nat.mod_one, Nat.add_zero]
  | succ count ih =>
    have split : value % 2 ^ (count + 1)
        = value % 2 ^ count + 2 ^ count * (value / 2 ^ count % 2) := Nat.mod_pow_succ
    rw [ofNat, toNatFrom, ih, Nat.toNat_testBit, split, Nat.pow_succ, Nat.add_mul,
      Nat.mul_comm (2 ^ count) (value / 2 ^ count % 2), Nat.mul_comm 2 high, Nat.mul_assoc,
      Nat.mul_comm 2 (2 ^ count)]
    omega

theorem toNat_ofNat {value count : Nat} (h : value < 2 ^ count) :
    toNat (ofNat value count) = value := by
  rw [toNat, toNatFrom_ofNat, Nat.zero_mul, Nat.zero_add, Nat.mod_eq_of_lt h]

/-- The low bits of a number do not depend on what is above them. -/
theorem ofNat_add_mul (value high count : Nat) :
    ofNat (value + high * 2 ^ count) count = ofNat value count := by
  induction count generalizing high with
  | zero => rfl
  | succ count ih =>
    have top : (value + high * 2 ^ (count + 1)).testBit count = value.testBit count := by
      rw [Nat.testBit_eq_decide_div_mod_eq, Nat.testBit_eq_decide_div_mod_eq, Nat.pow_succ',
        ← Nat.mul_assoc, Nat.add_mul_div_right _ _ (Nat.two_pow_pos count),
        Nat.add_mul_mod_self_right]
    rw [ofNat, ofNat, top, Nat.pow_succ', ← Nat.mul_assoc, ih]

theorem toNatFrom_eq (high : Nat) (bits : List Bool) :
    toNatFrom high bits = high * 2 ^ bits.length + toNat bits := by
  induction bits generalizing high with
  | nil => simp only [toNatFrom, toNat, List.length_nil, Nat.pow_zero, Nat.mul_one, Nat.add_zero]
  | cons b rest ih =>
    have head : toNat (b :: rest) = b.toNat * 2 ^ rest.length + toNat rest := by
      rw [toNat, toNatFrom, ih, Nat.mul_zero, Nat.zero_add]
    rw [toNatFrom, ih, head, List.length_cons, Nat.pow_succ, Nat.add_mul, Nat.mul_comm 2 high,
      Nat.mul_assoc, Nat.mul_comm 2 (2 ^ rest.length), Nat.add_assoc]

theorem toNat_cons (b : Bool) (rest : List Bool) :
    toNat (b :: rest) = b.toNat * 2 ^ rest.length + toNat rest := by
  rw [toNat, toNatFrom, toNatFrom_eq, Nat.mul_zero, Nat.zero_add]

theorem toNat_append_singleton (bits : List Bool) (b : Bool) :
    toNat (bits ++ [b]) = 2 * toNat bits + b.toNat := by
  induction bits with
  | nil => simp only [List.nil_append, toNat, toNatFrom, Nat.mul_zero, Nat.zero_add]
  | cons c rest ih =>
    rw [List.cons_append, toNat_cons, toNat_cons, ih, List.length_append, List.length_singleton,
      Nat.pow_succ, Nat.mul_add, ← Nat.mul_assoc]
    rw [Nat.mul_comm (c.toNat * 2 ^ rest.length) 2, Nat.add_assoc]

theorem toNat_lt (bits : List Bool) : toNat bits < 2 ^ bits.length := by
  induction bits with
  | nil => decide
  | cons b rest ih =>
    have digit : b.toNat ≤ 1 := Bool.toNat_le b
    have room : b.toNat * 2 ^ rest.length ≤ 1 * 2 ^ rest.length := Nat.mul_le_mul_right _ digit
    rw [toNat_cons, List.length_cons, Nat.pow_succ]
    omega

theorem ofNat_toNat (bits : List Bool) : ofNat (toNat bits) bits.length = bits := by
  induction bits with
  | nil => rfl
  | cons b rest ih =>
    -- the first bit stands above the rest, and the rest does not see it
    have below := toNat_lt rest
    have top : (toNat (b :: rest)).testBit rest.length = b := by
      rw [toNat_cons, Nat.testBit_eq_decide_div_mod_eq, Nat.add_comm,
        Nat.add_mul_div_right _ _ (Nat.two_pow_pos _), Nat.div_eq_of_lt below, Nat.zero_add]
      cases b <;> rfl
    have low : ofNat (toNat (b :: rest)) rest.length = rest := by
      rw [toNat_cons, Nat.add_comm, ofNat_add_mul, ih]
    rw [List.length_cons, ofNat, top, low]

/-- The bits above the low ones, and the low ones. -/
theorem ofNat_add (value high low : Nat) :
    ofNat value (high + low) = ofNat (value / 2 ^ low) high ++ ofNat value low := by
  induction high with
  | zero => rw [Nat.zero_add]; rfl
  | succ high ih =>
    rw [Nat.succ_add, ofNat, ih, ofNat, Nat.testBit_div_two_pow, List.cons_append]

theorem ofNat_mod (value count : Nat) : ofNat (value % 2 ^ count) count = ofNat value count := by
  have split := ofNat_add_mul (value % 2 ^ count) (value / 2 ^ count) count
  rwa [Nat.mod_add_div', eq_comm] at split

/-- Two numbers side by side. -/
theorem ofNat_join (high low width count : Nat) :
    ofNat (high * 2 ^ count + low % 2 ^ count) (width + count)
      = ofNat high width ++ ofNat low count := by
  have below : low % 2 ^ count < 2 ^ count := Nat.mod_lt low (Nat.two_pow_pos count)
  rw [ofNat_add, Nat.add_comm, ofNat_add_mul, ofNat_mod,
    Nat.add_mul_div_right _ _ (Nat.two_pow_pos count), Nat.div_eq_of_lt below, Nat.zero_add]

theorem ofNat_zero (count : Nat) : ofNat 0 count = List.replicate count false := by
  induction count with
  | zero => rfl
  | succ count ih => rw [ofNat, ih, Nat.zero_testBit, List.replicate_succ]

theorem ofNat_ones {width count : Nat} (h : count ≤ width) :
    ofNat (2 ^ width - 1) count = List.replicate count true := by
  induction count with
  | zero => rfl
  | succ count ih =>
    rw [ofNat, ih (Nat.le_of_succ_le h), Nat.testBit_two_pow_sub_one, List.replicate_succ]
    exact congrArg (· :: _) (decide_eq_true h)

theorem ofNat_or (x y count : Nat) :
    ofNat (x ||| y) count = List.zipWith (· || ·) (ofNat x count) (ofNat y count) := by
  induction count with
  | zero => rfl
  | succ count ih =>
    rw [ofNat, ih, Nat.testBit_or]
    rfl

/-! ## Bytes -/

/-- The bits of a byte. -/
def ofByte (b : UInt8) : List Bool := ofNat b.toNat 8

/-- The byte of eight bits. -/
def toByte (bits : List Bool) : UInt8 := UInt8.ofNat (toNat bits)

/-- The bits of bytes in a row. -/
def ofBytes (bytes : List UInt8) : List Bool := bytes.flatMap ofByte

@[simp] theorem length_ofByte (b : UInt8) : (ofByte b).length = 8 := length_ofNat _ _

@[simp] theorem ofBytes_nil : ofBytes [] = [] := rfl

@[simp] theorem ofBytes_cons (b : UInt8) (rest : List UInt8) :
    ofBytes (b :: rest) = ofByte b ++ ofBytes rest := List.flatMap_cons

@[simp] theorem ofBytes_append (xs ys : List UInt8) :
    ofBytes (xs ++ ys) = ofBytes xs ++ ofBytes ys := List.flatMap_append

@[simp] theorem length_ofBytes (bytes : List UInt8) :
    (ofBytes bytes).length = 8 * bytes.length := by
  induction bytes with
  | nil => rfl
  | cons b rest ih =>
    rw [ofBytes_cons, List.length_append, length_ofByte, ih, List.length_cons]
    omega

theorem ofByte_toByte {bits : List Bool} (h : bits.length = 8) : ofByte (toByte bits) = bits := by
  have below : toNat bits < 256 := by
    have := toNat_lt bits
    rwa [h] at this
  rw [ofByte, toByte, UInt8.toNat_ofNat', Nat.mod_eq_of_lt below, ← h, ofNat_toNat]

theorem toByte_ofByte (b : UInt8) : toByte (ofByte b) = b := by
  rw [toByte, ofByte, toNat_ofNat b.toNat_lt, UInt8.ofNat_toNat]

theorem ofByte_ofNat (n : Nat) : ofByte (UInt8.ofNat n) = ofNat n 8 := by
  rw [ofByte, UInt8.toNat_ofNat']
  exact ofNat_mod n 8

/-- Bytes that are joined bit by bit. -/
theorem ofBytes_or (xs ys : List UInt8) :
    ofBytes (List.zipWith (· ||| ·) xs ys) = List.zipWith (· || ·) (ofBytes xs) (ofBytes ys) := by
  induction xs generalizing ys with
  | nil => rfl
  | cons x xs ih =>
    cases ys with
    | nil => rw [List.zipWith_nil_right, ofBytes_nil, List.zipWith_nil_right]
    | cons y ys =>
      have lengths : (ofByte x).length = (ofByte y).length := by
        rw [length_ofByte, length_ofByte]
      rw [List.zipWith_cons_cons, ofBytes_cons, ofBytes_cons, ofBytes_cons, ih,
        List.zipWith_append lengths, ofByte, UInt8.toNat_or, ofNat_or]
      rfl

/-- The bits of bytes tell the bytes. -/
theorem ofBytes_inj {xs ys : List UInt8} (h : ofBytes xs = ofBytes ys) : xs = ys := by
  induction xs generalizing ys with
  | nil =>
    rw [ofBytes_nil] at h
    have none := congrArg List.length h
    rw [List.length_nil, length_ofBytes] at none
    exact (List.eq_nil_of_length_eq_zero (by omega)).symm
  | cons x xs ih =>
    cases ys with
    | nil =>
      have none := congrArg List.length h
      rw [ofBytes_nil, List.length_nil, length_ofBytes, List.length_cons] at none
      omega
    | cons y ys =>
      obtain ⟨first, others⟩ := List.append_inj h (by rw [length_ofByte, length_ofByte])
      rw [← toByte_ofByte x, first, toByte_ofByte, ih others]

/-- Bytes whose bits begin with those of other bytes begin with these bytes. -/
theorem ofBytes_eq_append {xs ys : List UInt8} {rest : List Bool}
    (h : ofBytes xs = ofBytes ys ++ rest) :
    xs.take ys.length = ys ∧ ofBytes (xs.drop ys.length) = rest := by
  have lengths := congrArg List.length h
  rw [List.length_append, length_ofBytes, length_ofBytes] at lengths
  rw [← List.take_append_drop ys.length xs, ofBytes_append] at h
  obtain ⟨front, behind⟩ := List.append_inj h (by
    rw [length_ofBytes, length_ofBytes, List.length_take, Nat.min_eq_left (by omega)])
  exact ⟨ofBytes_inj front, behind⟩

/-- Eight bits for each of so many bytes are the bits of bytes. -/
theorem exists_ofBytes {count : Nat} {bits : List Bool} (h : bits.length = 8 * count) :
    ∃ bytes, bytes.length = count ∧ ofBytes bytes = bits := by
  induction count generalizing bits with
  | zero => exact ⟨[], rfl, (List.eq_nil_of_length_eq_zero h).symm⟩
  | succ count ih =>
    have first : (bits.take 8).length = 8 := List.length_take_of_le (by omega)
    have behind : (bits.drop 8).length = 8 * count := by
      rw [List.length_drop]
      omega
    obtain ⟨bytes, lengths, others⟩ := ih behind
    refine ⟨toByte (bits.take 8) :: bytes, congrArg (· + 1) lengths, ?_⟩
    rw [ofBytes_cons, ofByte_toByte first, others, List.take_append_drop]

end Hevc.Bits
