import Hevc.Proofs.Record.Fields

/-!
# What reading a record accepts, and what it gives back

Reading takes a complete record and nothing else, and what was read is written as the bytes that
were taken, but with reserved bits of its own.

* `Layout.eval` — the decoder takes a complete record, and `Layout.record` is what it reads
* `Layout.items_bits` — what was read is written with the reserved bits normalised
* `Rejected.eval` — the decoder refuses bytes that are rejected
* `demux_exact` — acceptance, faults and the written form, over all bytes
-/

namespace Hevc.Record

open Decoder

/-! ## Reading arrays -/

theorem reads_word {n : Nat} (h : n < 2 ^ 16) : (bits 16).Reads [.bytes (word n)] n :=
  .single trivial fun rest => by rw [Item.toBits, ofBytes_word, eval_bits h]

/-- Parts that are written as some bytes, one after another. -/
theorem allBits_parts {α : Type} {items : α → List Item} {form : α → List UInt8} {vs : List α}
    (h : ∀ v ∈ vs, Item.allBits (items v) = Bits.ofBytes (form v)) :
    Item.allBits (vs.flatMap items) = Bits.ofBytes (vs.flatMap form) := by
  induction vs with
  | nil => rfl
  | cons v vs ih =>
    rw [List.flatMap_cons, List.flatMap_cons, Item.allBits_append, Bits.ofBytes_append,
      h v List.mem_cons_self, ih fun u mem => h u (List.mem_cons_of_mem v mem)]

theorem allBits_bytes {α : Type} (form : α → List UInt8) (vs : List α) :
    Item.allBits (vs.flatMap fun v => [.bytes (form v)]) = Bits.ofBytes (vs.flatMap form) :=
  allBits_parts fun _ _ => List.append_nil _

theorem unitItems_bits {type : NalType} {unit : List UInt8} (h : unit.length < 2 ^ 16) :
    Item.allBits (unitItems type unit) = Bits.ofBytes (framed unit) := by
  rw [unitItems, count16_of_lt h, framed, Bits.ofBytes_append, ofBytes_word]
  simp [Item.toBits]

theorem framed_reads {unit : List UInt8} (h : unit.length < 2 ^ 16) :
    unitDecoder.Reads [.bytes (framed unit)] unit := by
  refine ((reads_word h).cons (reads_octets unit)).of_allBits (by simp [Item.Writable]) ?_
  simp [Item.toBits, framed]

namespace ArrayLayout

/-- What is read of an array. -/
def array (a : ArrayLayout) : NalArray :=
  { complete := a.header.toNat.testBit 7, type := a.type, units := a.units.toArray }

/-- The header takes a byte, whose reserved bit may be set. -/
theorem eval_header (header : UInt8) (rest : List Bool) :
    arrayHeader.eval (Bits.ofByte header ++ rest)
      = (if .ofCode header.toNat ∈ NalType.carried
          then .ok (header.toNat.testBit 7, .ofCode header.toNat)
          else .error (.notCarried (.ofCode header.toNat)), rest) := by
  have code := eval_bits_any (Bits.length_ofNat header.toNat 6) rest
  rw [Bits.toNat, Bits.toNatFrom_ofNat, Nat.zero_mul, Nat.zero_add] at code
  show (bits 6 >>= _).eval (Bits.ofNat header.toNat 6 ++ rest) = _
  rw [eval_bind_ok code, show header.toNat % 2 ^ 6 = header.toNat % 64 from rfl, NalType.ofCode_mod]
  by_cases carried : NalType.ofCode header.toNat ∈ NalType.carried
  · rw [if_pos carried, if_pos carried]
    rfl
  · rw [if_neg carried, if_neg carried]
    rfl

theorem reads {a : ArrayLayout} (h : a.Complete) :
    arrayDecoder.Reads [.bytes a.bytes] a.array := by
  have header : arrayHeader.Reads [.bytes [a.header]] (a.header.toNat.testBit 7, a.type) := by
    refine .single trivial fun rest => ?_
    rw [Item.toBits, Bits.ofBytes_cons, Bits.ofBytes_nil, List.append_nil, eval_header]
    exact congrArg (·, rest) (if_pos h.type)
  have units := (reads_many fun unit mem => framed_reads (h.units unit mem)).map (f := fun us =>
    (⟨a.header.toNat.testBit 7, a.type, us.toArray⟩ : NalArray))
  refine (header.cons ((reads_word h.count).cons units)).of_allBits (by simp [Item.Writable]) ?_
  rw [Item.allBits_cons, Item.allBits_cons, Item.allBits_cons, allBits_bytes]
  simp [Item.toBits, bytes]

theorem fits {a : ArrayLayout} (h : a.Complete) : a.array.Fits :=
  ⟨h.type, by simpa [array] using h.count, by simpa [array] using h.units⟩

/-- The same array with its reserved bit cleared. -/
def normalised (a : ArrayLayout) : ArrayLayout := { a with header := a.header &&& 0xbf }

/-- What was read of a header is written with the reserved bit cleared. -/
theorem header_bits (header : UInt8) :
    Bits.ofByte (header &&& 0xbf)
      = header.toNat.testBit 7 :: false :: Bits.ofNat (NalType.ofCode header.toNat).code 6 := by
  rw [NalType.code_ofCode, show header.toNat % 64 = header.toNat % 2 ^ 6 from rfl, Bits.ofNat_mod]
  simp +decide [Bits.ofByte, Bits.ofNat, Nat.testBit_and]

theorem items_bits {a : ArrayLayout} (h : a.Complete) :
    Item.allBits (arrayItems a.array) = Bits.ofBytes a.normalised.bytes := by
  have units : Item.allBits (a.units.flatMap (unitItems a.type))
      = Bits.ofBytes (a.units.flatMap framed) :=
    allBits_parts fun unit mem => unitItems_bits (h.units unit mem)
  have count : a.array.units.size < 2 ^ 16 := h.count
  have small : a.array.type.code < 2 ^ 6 := a.type.code_lt
  have header : Item.allBits [.flag a.array.complete, .bits 0 1, field 6 a.array.type.code]
      = Bits.ofByte (a.header &&& 0xbf) := by
    rw [header_bits, Item.allBits_cons, Item.allBits_cons, Item.allBits_cons, Item.allBits_nil,
      Item.toBits_flag, field, Nat.one_shiftLeft, Nat.mod_eq_of_lt small, List.append_nil]
    rfl
  rw [arrayItems, count16_of_lt count]
  show Item.allBits ([_, _, _] ++ _ :: a.units.flatMap (unitItems a.type)) = _
  rw [Item.allBits_append, header, Item.allBits_cons, units, normalised, bytes, Bits.ofBytes_cons,
    Bits.ofBytes_append, ofBytes_word]
  rfl

end ArrayLayout

/-- A header that names another type is refused. -/
theorem RejectedArray.eval {bytes : List UInt8} {fault : Fault} (h : RejectedArray bytes fault) :
    ∃ left, arrayDecoder.eval (Bits.ofBytes bytes) = (.error fault, left) := by
  cases h with
  | @type header rest other =>
    have refused := ArrayLayout.eval_header header (Bits.ofBytes rest)
    rw [if_neg other] at refused
    rw [Bits.ofBytes_cons]
    exact ⟨_, eval_bind_error refused _⟩

/-! ## Reading records -/

namespace Layout

/-- What is read of a record. -/
def record (l : Layout) : Record := recordOf l.fields (l.arrays.map ArrayLayout.array)

/-- The same record with every reserved bit as it is written: a one among the fields, a zero in
the header of an array. -/
def normalised (l : Layout) : Layout :=
  { fields := List.zipWith (· ||| ·) l.fields reservedBits
    arrays := l.arrays.map ArrayLayout.normalised }

theorem eval {l : Layout} (h : l.Complete) (rest : List Bool) :
    decoder.eval (Bits.ofBytes l.bytes ++ rest) = (.ok l.record, rest) := by
  have count : (bits 8).eval (Bits.ofByte (UInt8.ofNat l.arrays.length)
        ++ (Bits.ofBytes (l.arrays.flatMap ArrayLayout.bytes) ++ rest))
      = (.ok l.arrays.length, Bits.ofBytes (l.arrays.flatMap ArrayLayout.bytes) ++ rest) := by
    rw [Bits.ofByte_ofNat]
    exact eval_bits (Nat.lt_succ_of_le h.count) _
  have arrays := (reads_manyAs fun a mem => ArrayLayout.reads (h.arrays a mem)).eval rest
  rw [allBits_bytes] at arrays
  rw [bytes, Bits.ofBytes_append, Bits.ofBytes_cons, List.append_assoc, List.append_assoc,
    eval_fields h.fields.length h.fields.version, if_neg h.fields.frameRate,
    if_neg h.fields.lengthSize, arraysOnwards, eval_bind_ok count, eval_bind_ok arrays]
  rfl

theorem record_fits {l : Layout} (h : l.Complete) : l.record.Fits := by
  refine recordOf_fits h.fields ?_ ?_
  · rw [List.length_map]
    exact h.count
  · intro a mem
    obtain ⟨layout, inside, rfl⟩ := List.mem_map.mp mem
    exact ArrayLayout.fits (h.arrays layout inside)

/-- What is read of a record is written as the record with its reserved bits normalised. -/
theorem items_bits {l : Layout} (h : l.Complete) :
    Item.allBits l.record.items = Bits.ofBytes l.normalised.bytes := by
  have arrays : Item.allBits (l.record.arrays.flatMap arrayItems)
      = Bits.ofBytes (l.normalised.arrays.flatMap ArrayLayout.bytes) := by
    rw [record, recordOf, normalised, List.flatMap_map, List.flatMap_map]
    exact allBits_parts fun a mem => ArrayLayout.items_bits (h.arrays a mem)
  have few : ¬maxArrays < l.record.arrays.length := Nat.not_lt_of_le (record_fits h).arrays
  have count : (Item.bits l.record.arrays.length 8).toBits
      = Bits.ofByte (UInt8.ofNat l.normalised.arrays.length) := by
    rw [Bits.ofByte_ofNat, record, recordOf, normalised, List.length_map, List.length_map]
    rfl
  have fields : Item.allBits l.record.fixedItems = Bits.ofBytes l.normalised.fields :=
    fixedItems_bits h.fields _
  rw [items, if_neg few, Item.allBits_append, Item.allBits_cons, fields, count, bytes,
    Bits.ofBytes_append, Bits.ofBytes_cons, arrays]

theorem length_normalised {l : Layout} (h : l.Complete) :
    l.normalised.bytes.length = l.bytes.length := by
  have fields : (List.zipWith (· ||| ·) l.fields reservedBits).length = l.fields.length := by
    rw [List.length_zipWith, h.fields.length]
    rfl
  have arrays : ((l.arrays.map ArrayLayout.normalised).flatMap ArrayLayout.bytes).length
      = (l.arrays.flatMap ArrayLayout.bytes).length := by
    rw [List.flatMap_map, List.length_flatMap, List.length_flatMap]
    rfl
  rw [bytes, bytes, List.length_append, List.length_append, List.length_cons, List.length_cons,
    normalised, fields, arrays]

/-- What was read of a record is written as the record with its reserved bits normalised, with as
many bytes, and is read again from these. -/
theorem toBytes_record {l : Layout} (h : l.Complete) :
    l.record.toBytes = .ok l.normalised.bytes ∧ l.bytes.length = l.record.size
      ∧ demux l.normalised.bytes = (.ok l.record, l.record.size) := by
  obtain ⟨bytes, done, size, written⟩ := toBytes_of_fits (record_fits h)
  have same : bytes = l.normalised.bytes := Bits.ofBytes_inj (written.trans (items_bits h))
  subst same
  have read := demux_append (record_fits h) written []
  rw [List.append_nil, size] at read
  exact ⟨done, (length_normalised h).symm.trans size, read⟩

/-- A complete record is taken, whatever follows it. -/
theorem demux_bytes {l : Layout} (h : l.Complete) (rest : List UInt8) :
    demux (l.bytes ++ rest) = (.ok l.record, l.bytes.length) := by
  apply demux_of_eval
  rw [Bits.ofBytes_append, eval h]

/-- The front of a complete record is refused, since it ends too early. -/
theorem demux_front {l : Layout} (h : l.Complete) {front more : List UInt8}
    (same : front ++ more = l.bytes) (some : more ≠ []) :
    ∃ fault, (demux front).1 = .error fault ∧ fault.kind = .unexpectedEof := by
  have whole := eval h []
  rw [← same, Bits.ofBytes_append, List.append_nil] at whole
  have missing := List.length_pos_iff.mpr some
  obtain ⟨fault, refused, kind⟩ := Decoder.eval_truncated whole
    (by rw [Bits.length_ofBytes, List.length_nil]; omega)
  refine ⟨fault, ?_, kind⟩
  rw [demux_fst, refused]

end Layout

namespace Rejected

theorem eval {bytes : List UInt8} {fault : Fault} (h : Rejected bytes fault) :
    (decoder.eval (Bits.ofBytes bytes)).1 = .error fault := by
  cases h with
  | @version first rest other =>
    have read : versionDecoder.eval (Bits.ofByte first ++ Bits.ofBytes rest)
        = (.error (.recordVersion first.toNat), Bits.ofBytes rest) := by
      rw [versionDecoder, eval_bind_ok (eval_ofByte first _), if_neg other]
      rfl
    rw [Bits.ofBytes_cons, decoder, eval_bind_error read]
  | frameRate length known bad =>
    rw [Bits.ofBytes_append, eval_fields length known, if_pos bad]
  | lengthSize length known good bad =>
    rw [Bits.ofBytes_append, eval_fields length known, if_neg good, if_pos bad]
  | @arrayType fields rest count fault good bad =>
    obtain ⟨arrays, rest, few, all, rfl, bad⟩ := bad
    obtain ⟨left, refused⟩ := bad.eval
    have refused := eval_many_error (fun a mem => ArrayLayout.reads (all a mem)) few refused
    rw [allBits_bytes] at refused
    rw [Bits.ofBytes_append, Bits.ofBytes_cons, Bits.ofBytes_append,
      eval_fields good.length good.version, if_neg good.frameRate, if_neg good.lengthSize,
      arraysOnwards, eval_bind_ok (eval_ofByte count _), eval_bind_error refused]

theorem kind {bytes : List UInt8} {fault : Fault} (h : Rejected bytes fault) :
    fault.kind = .invalidData := by
  cases h with
  | arrayType good bad =>
    obtain ⟨_, _, _, _, _, bad⟩ := bad
    cases bad
    rfl
  | _ => rfl

end Rejected

/-! ## All bytes -/

theorem Layout.demux_of_prefix {l : Layout} (h : l.Complete) {bytes : List UInt8}
    (front : l.bytes <+: bytes) : demux bytes = (.ok l.record, l.bytes.length) := by
  obtain ⟨rest, rfl⟩ := front
  exact demux_bytes h rest

theorem Rejected.demux {bytes : List UInt8} {fault : Fault} (h : Rejected bytes fault) :
    (demux bytes).1 = .error fault := by
  rw [demux_fst, h.eval]

/-- Only a complete record is read. -/
theorem complete_of_demux {bytes : List UInt8} {r : Record} (ok : (demux bytes).1 = .ok r) :
    ∃ l : Layout, l.Complete ∧ l.bytes <+: bytes := by
  rcases record_begins bytes with ⟨l, rest, complete, same⟩ | ⟨fault, h⟩ |
    ⟨l, more, complete, some, same⟩
  · exact ⟨l, complete, rest, same.symm⟩
  · exact absurd (ok.symm.trans h.demux) (by simp)
  · obtain ⟨fault, refused, -⟩ := l.demux_front complete same some
    exact absurd (ok.symm.trans refused) (by simp)

/-- What is refused is rejected, or it ends too early. -/
theorem rejected_of_demux {bytes : List UInt8} {fault : Fault}
    (error : (demux bytes).1 = .error fault) :
    Rejected bytes fault ∨ fault.kind = .unexpectedEof := by
  rcases record_begins bytes with ⟨l, rest, complete, same⟩ | ⟨cause, h⟩ |
    ⟨l, more, complete, some, same⟩
  · rw [l.demux_of_prefix complete ⟨rest, same.symm⟩] at error
    exact absurd error (by simp)
  · obtain rfl := Except.error.inj (h.demux.symm.trans error)
    exact .inl h
  · obtain ⟨cause, refused, kind⟩ := l.demux_front complete same some
    obtain rfl := Except.error.inj (refused.symm.trans error)
    exact .inr kind

/-- Reading succeeds on the bytes that begin with a complete record. What it gives has the size of
that record, is written as the record with its reserved bits normalised, and is read again from
what was written. It says that the data is invalid where a version, a frame rate code, a size of
length fields or the type of an array has no meaning, and otherwise that the data ends too early. -/
theorem demux_exact (bytes : List UInt8) :
    ((∃ r, (demux bytes).1 = .ok r) ↔ ∃ l : Layout, l.Complete ∧ l.bytes <+: bytes)
      ∧ (∀ r, (demux bytes).1 = .ok r →
          (demux bytes).2 = r.size
            ∧ ∃ l : Layout, l.Complete ∧ l.bytes = bytes.take r.size ∧ l.bytes.length = r.size
              ∧ r = l.record ∧ r.toBytes = .ok l.normalised.bytes
              ∧ demux l.normalised.bytes = (.ok r, r.size))
      ∧ (∀ fault, Rejected bytes fault
          ↔ (demux bytes).1 = .error fault ∧ fault.kind = .invalidData)
      ∧ ∀ fault, (demux bytes).1 = .error fault →
          fault.kind = .invalidData ∨ fault.kind = .unexpectedEof := by
  refine ⟨⟨fun ⟨r, ok⟩ => complete_of_demux ok, ?_⟩, ?_, ?_, ?_⟩
  · rintro ⟨l, complete, front⟩
    exact ⟨l.record, by rw [l.demux_of_prefix complete front]⟩
  · intro r ok
    obtain ⟨l, complete, front⟩ := complete_of_demux ok
    obtain ⟨written, size, again⟩ := l.toBytes_record complete
    rw [l.demux_of_prefix complete front] at ok ⊢
    obtain rfl := Except.ok.inj ok
    exact ⟨size, l, complete, size ▸ List.prefix_iff_eq_take.mp front, size, rfl, written, again⟩
  · intro fault
    constructor
    · intro h
      exact ⟨h.demux, h.kind⟩
    · rintro ⟨error, kind⟩
      rcases rejected_of_demux error with h | ended
      · exact h
      · exact absurd (kind.symm.trans ended) (by decide)
  · intro fault error
    rcases rejected_of_demux error with h | ended
    · exact .inl h.kind
    · exact .inr ended

end Hevc.Record
