import Hevc.ExpGolomb
import Hevc.Proofs.Decoder
import Hevc.Proofs.Packer
import Hevc.Proofs.Word
import Hevc.Written.NalUnit

/-!
# Reading what was written

`d.Reads items value` says that the items have a written form and that the decoder takes exactly
their bits, whatever comes after them, and ends with the value. A syntax structure reads its own
written form; the statement for a structure is put together from those for its parts, in the order
of both.

* `Reads.bind`, `Reads.cons`, `Reads.step` — one part after another
* `Leads.bind`, `Leads.reads` — written parts, and whatever is left to read behind them
* `reads_bits`, `reads_ue`, `reads_se`, `reads_octets` — the parts that all others are made of
* `Reads.inRange` — a code that is held against a range
* `reads_many`, `reads_forEach`, `reads_optional`, `reads_codedOr` — repeated and optional parts
* `Reads.eval_truncated` — bits cut off anywhere inside a written form are refused
-/

namespace Hevc.Decoder

variable {α β γ : Type}

/-- A decoder takes the bits of items for a value, and leaves whatever comes after them. -/
structure Reads (d : Decoder α) (items : List Item) (value : α) : Prop where
  writable : ∀ item ∈ items, item.Writable
  eval : ∀ rest, d.eval (Item.allBits items ++ rest) = (.ok value, rest)

/-! ## Sequences -/

theorem reads_pure (value : α) : (pure value : Decoder α).Reads [] value :=
  ⟨fun _ mem => absurd mem List.not_mem_nil, fun _ => rfl⟩

theorem Reads.bind {d : Decoder α} {f : α → Decoder β} {xs ys : List Item} {a : α} {b : β}
    (first : d.Reads xs a) (second : (f a).Reads ys b) : (d >>= f).Reads (xs ++ ys) b := by
  refine ⟨fun item mem => ?_, fun rest => ?_⟩
  · rcases List.mem_append.mp mem with h | h
    · exact first.writable item h
    · exact second.writable item h
  · rw [Item.allBits_append, List.append_assoc, eval_bind, first.eval]
    exact second.eval rest

/-- A part that is a single item. -/
theorem Reads.cons {d : Decoder α} {f : α → Decoder β} {x : Item} {ys : List Item} {a : α} {b : β}
    (first : d.Reads [x] a) (second : (f a).Reads ys b) : (d >>= f).Reads (x :: ys) b :=
  first.bind second

/-- A part that takes no bits. -/
theorem Reads.step {d : Decoder α} {f : α → Decoder β} {ys : List Item} {a : α} {b : β}
    (first : d.Reads [] a) (second : (f a).Reads ys b) : (d >>= f).Reads ys b :=
  first.bind second

/-- A part after which no bits are taken. -/
theorem Reads.then {d : Decoder α} {f : α → Decoder β} {xs : List Item} {a : α} {b : β}
    (first : d.Reads xs a) (second : (f a).Reads [] b) : (d >>= f).Reads xs b := by
  have all := first.bind second
  rwa [List.append_nil] at all

/-- The last part. -/
theorem Reads.map {d : Decoder α} {f : α → β} {xs : List Item} {a : α} (first : d.Reads xs a) :
    (d >>= fun value => pure (f value)).Reads xs (f a) := first.then (reads_pure (f a))

theorem reads_checked {value : Option α} {a : α} (h : value = some a) :
    (checked value).Reads [] a := by
  rw [h]
  exact reads_pure a

theorem eval_require (element : Element) (low high value : Int) (bits : List Bool) :
    (require element low high value).eval bits
      = (if low ≤ value ∧ value ≤ high then .ok ()
        else .error (.outOfRange element low high value), bits) := by
  rw [require]
  split <;> rfl

theorem reads_require {element : Element} {low high value : Int}
    (h : low ≤ value ∧ value ≤ high) : (require element low high value).Reads [] () := by
  rw [require, if_pos h]
  exact reads_pure ()

/-- A single item. -/
theorem Reads.single {d : Decoder α} {item : Item} {value : α} (writable : item.Writable)
    (eval : ∀ rest, d.eval (item.toBits ++ rest) = (.ok value, rest)) : d.Reads [item] value := by
  refine ⟨fun other mem => ?_, fun rest => ?_⟩
  · rwa [List.mem_singleton.mp mem]
  · rw [Item.allBits_singleton]
    exact eval rest

/-- Only the bits of items count. -/
theorem Reads.of_allBits {d : Decoder α} {xs ys : List Item} {value : α} (h : d.Reads xs value)
    (writable : ∀ item ∈ ys, item.Writable) (same : Item.allBits ys = Item.allBits xs) :
    d.Reads ys value :=
  ⟨writable, fun rest => by rw [same, h.eval]⟩

/-! ## What is left to do -/

/-- A decoder takes the bits of items, and what it still has to do then is another decoder. -/
structure Leads (d : Decoder α) (items : List Item) (next : Decoder α) : Prop where
  writable : ∀ item ∈ items, item.Writable
  eval : ∀ rest, d.eval (Item.allBits items ++ rest) = next.eval rest

theorem Leads.refl (d : Decoder α) : d.Leads [] d :=
  ⟨fun _ mem => absurd mem List.not_mem_nil, fun _ => rfl⟩

theorem Leads.trans {d e e' : Decoder α} {xs ys : List Item} (first : d.Leads xs e)
    (second : e.Leads ys e') : d.Leads (xs ++ ys) e' := by
  refine ⟨fun item mem => ?_, fun rest => ?_⟩
  · rcases List.mem_append.mp mem with h | h
    · exact first.writable item h
    · exact second.writable item h
  · rw [Item.allBits_append, List.append_assoc, first.eval, second.eval]

theorem Leads.bind {d : Decoder α} {f : α → Decoder β} {e : Decoder β} {xs ys : List Item} {a : α}
    (first : d.Reads xs a) (second : (f a).Leads ys e) : (d >>= f).Leads (xs ++ ys) e := by
  have behind : (d >>= f).Leads xs (f a) :=
    ⟨first.writable, fun rest => eval_bind_ok (first.eval rest) f⟩
  exact behind.trans second

/-- A part that is a single item. -/
theorem Leads.cons {d : Decoder α} {f : α → Decoder β} {e : Decoder β} {x : Item} {ys : List Item}
    {a : α} (first : d.Reads [x] a) (second : (f a).Leads ys e) : (d >>= f).Leads (x :: ys) e :=
  .bind first second

/-- A part that takes no bits. -/
theorem Leads.step {d : Decoder α} {f : α → Decoder β} {e : Decoder β} {ys : List Item} {a : α}
    (first : d.Reads [] a) (second : (f a).Leads ys e) : (d >>= f).Leads ys e :=
  .bind first second

theorem Leads.reads {d e : Decoder α} {xs ys : List Item} {a : α} (first : d.Leads xs e)
    (last : e.Reads ys a) : d.Reads (xs ++ ys) a := by
  have none_left : e.Leads ys (pure a) := ⟨last.writable, last.eval⟩
  have all := first.trans none_left
  exact ⟨all.writable, all.eval⟩

/-! ## Flags and numbers -/

theorem reads_flag (b : Bool) : flag.Reads [.flag b] b := by
  refine .single (Item.writable_flag b) fun rest => ?_
  rw [Item.toBits_flag]
  rfl

theorem eval_bitsFrom (high : Nat) (digits rest : List Bool) :
    (bitsFrom high digits.length).eval (digits ++ rest)
      = (.ok (Bits.toNatFrom high digits), rest) := by
  induction digits generalizing high with
  | nil => rfl
  | cons b digits ih => exact ih (2 * high + b.toNat)

/-- A number is read of any bits. -/
theorem eval_bits_any {digits : List Bool} {count : Nat} (length : digits.length = count)
    (rest : List Bool) :
    (bits count).eval (digits ++ rest) = (.ok (Bits.toNat digits), rest) := by
  rw [bits, ← length]
  exact eval_bitsFrom 0 digits rest

theorem eval_bits {value count : Nat} (h : value < 2 ^ count) (rest : List Bool) :
    (bits count).eval (Bits.ofNat value count ++ rest) = (.ok value, rest) := by
  rw [eval_bits_any (Bits.length_ofNat value count), Bits.toNat_ofNat h]

theorem eval_ofByte (b : UInt8) (rest : List Bool) :
    (bits 8).eval (Bits.ofByte b ++ rest) = (.ok b.toNat, rest) := eval_bits b.toNat_lt rest

theorem reads_bits {value count : Nat} (h : value < 2 ^ count) (width : count ≤ 64) :
    (bits count).Reads [.bits value count] value :=
  .single ⟨h, width⟩ (eval_bits h)

theorem reads_ignore {value count : Nat} (h : value < 2 ^ count) (width : count ≤ 64) :
    (ignore count).Reads [.bits value count] () := by
  refine .single ⟨h, width⟩ fun rest => ?_
  have size : (Bits.ofNat value count).length = count := Bits.length_ofNat value count
  rw [Item.toBits, ignore, Decoder.eval, if_pos (by rw [List.length_append]; omega),
    List.drop_left' size]
  rfl

theorem reads_octet (b : UInt8) : octet.Reads [.bytes [b]] b := by
  refine .single trivial fun rest => ?_
  have byte : (Item.bytes [b]).toBits = Bits.ofByte b := List.append_nil _
  rw [byte, octet, eval_andThen, eval_ofByte]
  show (Except.ok (UInt8.ofNat b.toNat), rest) = _
  rw [UInt8.ofNat_toNat]

/-! ## Exp-Golomb codes -/

/-- The greatest number that an Exp-Golomb code is read of. -/
def maxCode : Nat := 2 ^ 32 - 2

theorem eval_leadingZeros {zeros count left : Nat} (h : count ≤ left) (rest : List Bool) :
    (leadingZeros zeros left).eval (List.replicate count false ++ true :: rest)
      = (.ok (zeros + count), rest) := by
  induction count generalizing zeros left with
  | zero => cases left <;> rfl
  | succ count ih =>
    cases left with
    | zero => exact absurd h (by omega)
    | succ left =>
      have room : count ≤ left := by omega
      have zerosAfter : zeros + (count + 1) = zeros + 1 + count := by omega
      rw [zerosAfter]
      exact ih room

/-- A code is a run of zeros, the one that ends it, and the digits after the first. -/
theorem codeBits_eq (value : Nat) :
    Item.codeBits value
      = List.replicate (value + 1).log2 false
        ++ true :: Bits.ofNat (value + 1 - 2 ^ (value + 1).log2) (value + 1).log2 := by
  have low : 2 ^ (value + 1).log2 ≤ value + 1 := Nat.log2_self_le (Nat.succ_ne_zero value)
  have high : value + 1 < 2 ^ ((value + 1).log2 + 1) := Nat.lt_log2_self
  rw [Item.codeBits, Bits.ofNat_zero]
  generalize (value + 1).log2 = zeros at low high ⊢
  rw [Nat.pow_succ] at high
  -- the first digit is 1, and the others write what is above the power of two
  obtain ⟨suffix, hs⟩ : ∃ suffix, suffix = value + 1 - 2 ^ zeros := ⟨_, rfl⟩
  have split : value + 1 = suffix + 1 * 2 ^ zeros := by omega
  have first : (suffix + 1 * 2 ^ zeros).testBit zeros = true := by
    rw [Nat.testBit_eq_decide_div_mod_eq, Nat.add_mul_div_right _ _ (Nat.two_pow_pos zeros),
      Nat.div_eq_of_lt (by omega)]
    rfl
  rw [← hs, split, Bits.ofNat, first, Bits.ofNat_add_mul]

theorem eval_ue {value : Nat} (h : value ≤ maxCode) (rest : List Bool) :
    ue.eval (Item.codeBits value ++ rest) = (.ok value, rest) := by
  have few : (value + 1).log2 < 32 :=
    (Nat.log2_lt (Nat.succ_ne_zero value)).mpr (by rw [maxCode] at h; omega)
  have low : 2 ^ (value + 1).log2 ≤ value + 1 := Nat.log2_self_le (Nat.succ_ne_zero value)
  have high : value + 1 < 2 ^ ((value + 1).log2 + 1) := Nat.lt_log2_self
  rw [codeBits_eq]
  generalize (value + 1).log2 = zeros at few low high ⊢
  rw [Nat.pow_succ] at high
  -- with fewer than 32 zeros, nothing leaves the machine word
  have power : Word.oneShl? 64 zeros = some (2 ^ zeros) := Word.oneShl?_of_lt (by omega)
  have code : Word.unsigned? 64 (2 ^ zeros + (value + 1 - 2 ^ zeros)) = some (value + 1) := by
    rw [Nat.add_sub_cancel' low]
    exact Word.unsigned?_of_lt (by rw [maxCode] at h; omega)
  have less : Word.sub? (value + 1) 1 = some value := Word.sub?_of_le (by omega)
  rw [List.append_assoc, List.cons_append, ue, eval_bind,
    eval_leadingZeros (show zeros ≤ maxLeadingZeros by rw [maxLeadingZeros]; omega), Nat.zero_add]
  simp only [eval_bind, eval_bits (show value + 1 - 2 ^ zeros < 2 ^ zeros by omega), power, code,
    less, checked, Decoder.eval]

theorem reads_ue {value : Nat} (h : value ≤ maxCode) : ue.Reads [.ue value] value := by
  refine .single ?_ (eval_ue h)
  show value + 1 < 2 ^ 64
  rw [maxCode] at h
  omega

/-- A code that is held against a range. -/
theorem Reads.inRange {element : Element} {low high : Int} {f : Nat → Decoder β} {value : Nat}
    {ys : List Item} {b : β} (range : low ≤ value ∧ value ≤ high) (small : high ≤ maxCode)
    (second : (f value).Reads ys b) :
    (ue >>= fun n => require element low high n >>= fun _ => f n).Reads (.ue value :: ys) b :=
  (reads_ue (by omega)).cons ((reads_require range).step second)

theorem signedAt_placeOf (n : Int) : signedAt (Packer.placeOf n) = n := by
  rw [signedAt, Packer.placeOf]
  by_cases h : n ≤ 0
  · rw [if_pos h, if_pos (by omega)]
    omega
  · rw [if_neg h, if_neg (by omega)]
    omega

theorem reads_se {n : Int} (h : n.natAbs < 2 ^ 31) : se.Reads [.se n] n := by
  have place : Packer.placeOf n ≤ maxCode := by
    rw [Packer.placeOf, maxCode]
    split <;> omega
  have fits : Word.signed? 63 n = some n := Word.signed?_of_natAbs_lt (by omega)
  have number : ue.Reads [.se n] (Packer.placeOf n) :=
    .single ((reads_ue place).writable (.ue _) (List.mem_singleton.mpr rfl)) (eval_ue place)
  refine number.then (reads_checked ?_)
  rw [signedAt_placeOf, fits]

/-! ## Repeated parts -/

theorem reads_manyFrom {d : Decoder β} {items : α → List Item} {as : α → β} {xs : List α}
    (got : List β) (h : ∀ x ∈ xs, d.Reads (items x) (as x)) :
    (manyFrom d got xs.length).Reads (xs.flatMap items) (got.reverse ++ xs.map as) := by
  induction xs generalizing got with
  | nil =>
    rw [List.map_nil, List.append_nil]
    exact reads_pure got.reverse
  | cons x xs ih =>
    have others := ih (as x :: got) fun y mem => h y (List.mem_cons_of_mem _ mem)
    rw [List.reverse_cons, List.append_assoc] at others
    exact (h x List.mem_cons_self).bind others

theorem eval_manyFrom_error {d : Decoder β} {items : α → List Item} {as : α → β} {xs : List α}
    {count : Nat} {rest left : List Bool} {fault : Fault} (got : List β)
    (h : ∀ x ∈ xs, d.Reads (items x) (as x)) (few : xs.length < count)
    (bad : d.eval rest = (.error fault, left)) :
    (manyFrom d got count).eval (Item.allBits (xs.flatMap items) ++ rest)
      = (.error fault, left) := by
  induction xs generalizing got count with
  | nil =>
    cases count with
    | zero => exact absurd few (Nat.lt_irrefl 0)
    | succ count => exact eval_bind_error bad _
  | cons x xs ih =>
    cases count with
    | zero => exact absurd few (Nat.not_lt_zero _)
    | succ count =>
      have first := (h x List.mem_cons_self).eval (Item.allBits (xs.flatMap items) ++ rest)
      rw [List.flatMap_cons, Item.allBits_append, List.append_assoc]
      refine (eval_bind_ok first _).trans ?_
      exact ih (as x :: got) (fun y mem => h y (List.mem_cons_of_mem _ mem))
        (Nat.lt_of_succ_lt_succ few)

/-- The first part that is refused ends the reading of all. -/
theorem eval_many_error {d : Decoder β} {items : α → List Item} {as : α → β} {xs : List α}
    {count : Nat} {rest left : List Bool} {fault : Fault}
    (h : ∀ x ∈ xs, d.Reads (items x) (as x)) (few : xs.length < count)
    (bad : d.eval rest = (.error fault, left)) :
    (many count d).eval (Item.allBits (xs.flatMap items) ++ rest) = (.error fault, left) :=
  eval_manyFrom_error [] h few bad

/-- What is read of each part may be less than what was written. -/
theorem reads_manyAs {d : Decoder β} {items : α → List Item} {as : α → β} {xs : List α}
    (h : ∀ x ∈ xs, d.Reads (items x) (as x)) :
    (many xs.length d).Reads (xs.flatMap items) (xs.map as) :=
  reads_manyFrom [] h

theorem reads_many {d : Decoder α} {items : α → List Item} {xs : List α}
    (h : ∀ x ∈ xs, d.Reads (items x) x) : (many xs.length d).Reads (xs.flatMap items) xs := by
  have all := reads_manyAs (d := d) h
  rwa [List.map_id'] at all

theorem reads_forEachFrom {f : β → Decoder γ} {items : α → List Item} {input : α → β}
    {output : α → γ} {xs : List α} (got : List γ)
    (h : ∀ x ∈ xs, (f (input x)).Reads (items x) (output x)) :
    (forEachFrom f got (xs.map input)).Reads (xs.flatMap items)
      (got.reverse ++ xs.map output) := by
  induction xs generalizing got with
  | nil =>
    rw [List.map_nil, List.map_nil, List.append_nil]
    exact reads_pure got.reverse
  | cons x xs ih =>
    have others := ih (output x :: got) fun y mem => h y (List.mem_cons_of_mem _ mem)
    rw [List.reverse_cons, List.append_assoc] at others
    exact (h x List.mem_cons_self).bind others

/-- Each part of a list is read by what another list says of it. -/
theorem reads_forEach {f : β → Decoder γ} {items : α → List Item} {input : α → β} {output : α → γ}
    {xs : List α} (h : ∀ x ∈ xs, (f (input x)).Reads (items x) (output x)) :
    (forEach (xs.map input) f).Reads (xs.flatMap items) (xs.map output) :=
  reads_forEachFrom [] h

theorem reads_octets (data : List UInt8) : (octets data.length).Reads [.bytes data] data := by
  have each : (octets data.length).Reads (data.flatMap fun b => [.bytes [b]]) data :=
    reads_many fun b _ => reads_octet b
  have same : Item.allBits (data.flatMap fun b => [.bytes [b]]) = Item.allBits [.bytes data] := by
    induction data with
    | nil => rfl
    | cons b rest ih =>
      rw [List.flatMap_cons, Item.allBits_append, ih (reads_many fun c _ => reads_octet c)]
      exact List.append_assoc _ _ _
  refine each.of_allBits (fun item mem => ?_) same.symm
  rw [List.mem_singleton.mp mem]
  trivial

/-! ## Optional parts -/

/-- What is read of a part may be less than what was written. -/
theorem reads_whenAs {d : Decoder β} {items : α → List Item} {as : α → β} {value : Option α}
    (h : ∀ v ∈ value, d.Reads (items v) (as v)) :
    (when value.isSome d).Reads (Item.present items value) (value.map as) := by
  cases value with
  | none => exact reads_pure none
  | some v => exact (h v rfl).map

theorem reads_when {d : Decoder α} {items : α → List Item} {value : Option α}
    (h : ∀ v ∈ value, d.Reads (items v) v) :
    (when value.isSome d).Reads (Item.present items value) value := by
  cases value with
  | none => exact reads_pure none
  | some v => exact (h v rfl).map (f := some)

theorem reads_optionalAs {d : Decoder β} {items : α → List Item} {as : α → β} {value : Option α}
    (h : ∀ v ∈ value, d.Reads (items v) (as v)) :
    (optional d).Reads (Item.optional items value) (value.map as) := by
  cases value with
  | none => exact (reads_flag false).cons (reads_whenAs h)
  | some v => exact (reads_flag true).cons (reads_whenAs h)

theorem reads_optional {d : Decoder α} {items : α → List Item} {value : Option α}
    (h : ∀ v ∈ value, d.Reads (items v) v) :
    (optional d).Reads (Item.optional items value) value := by
  cases value with
  | none => exact (reads_flag false).cons (reads_when h)
  | some v => exact (reads_flag true).cons (reads_when h)

theorem reads_whenFlag {present : Bool} {d : Decoder α} {items : List Item} {value : α}
    (h : present = true → d.Reads items value) :
    (when present d).Reads (if present then items else [])
      (if present then some value else none) := by
  cases present with
  | false => exact reads_pure none
  | true => exact (h rfl).map

theorem reads_codedOr {coded : Bool} {inferred : α} {d : Decoder α} {items : List Item} {value : α}
    (h : coded = true → d.Reads items value) (other : coded = false → value = inferred) :
    (codedOr coded inferred d).Reads (if coded then items else []) value := by
  cases coded with
  | false =>
    rw [other rfl]
    exact reads_pure inferred
  | true => exact h rfl

/-! ## Bits cut off -/

/-- A written form that ends early is refused, wherever it is cut. -/
theorem Reads.eval_truncated {d : Decoder α} {items : List Item} {value : α}
    (h : d.Reads items value) {bits : List Bool} (cut : bits <+: Item.allBits items)
    (short : bits.length < (Item.allBits items).length) :
    ∃ fault, d.eval bits = (.error fault, []) ∧ fault.kind = .unexpectedEof := by
  obtain ⟨more, whole⟩ := cut
  have all := h.eval []
  rw [List.append_nil, ← whole] at all
  refine Decoder.eval_truncated all ?_
  rw [← whole, List.length_append] at short
  rw [List.length_nil]
  omega

end Hevc.Decoder
