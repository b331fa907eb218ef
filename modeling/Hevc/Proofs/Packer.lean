import Hevc.Bits.Packer
import Hevc.Proofs.Bits
import Hevc.Proofs.Word

/-!
# What a packer has written

A packer in front of a sink that takes every byte is seen through the bits that were written: they
are the whole bytes that the sink received and the bits of the byte that is incomplete. `Holds`
says so of a packer, and `Writes` that an operation appends certain bits.

* `writes_item`, `writes_items` — items that have a written form append their bits
* `writeItems_unbounded` — the bytes that a sink receives of items, up to the padding
-/

namespace Hevc

/-! ## Sinks that take every byte -/

namespace Sink

/-- A sink with one more byte of payload. -/
def accept (s : Sink) (b : UInt8) : Sink :=
  if s.coding = .escaped ∧ 2 ≤ s.zeros ∧ needsEscape b then
    { s with
      attempts := s.attempts + 1 + 1
      received := b :: escapeByte :: s.received
      zeros := zeroRun 0 b }
  else
    { s with attempts := s.attempts + 1, received := b :: s.received, zeros := zeroRun s.zeros b }

/-- A sink that took some bytes of payload. -/
def holding (coding : Coding) (payload : List UInt8) : Sink :=
  payload.foldl accept (unbounded coding)

theorem coding_accept (s : Sink) (b : UInt8) : (s.accept b).coding = s.coding := by
  rw [accept]
  split <;> rfl

theorem refuses_accept (s : Sink) (b : UInt8) : (s.accept b).refuses = s.refuses := by
  rw [accept]
  split <;> rfl

theorem offer_of_open {s : Sink} (h : s.refuses = fun _ => false) (b : UInt8) :
    s.offer b = (.ok (), { s with attempts := s.attempts + 1, received := b :: s.received }) := by
  rw [offer, h, if_neg Bool.false_ne_true]

theorem put_of_open {s : Sink} (h : s.refuses = fun _ => false) (b : UInt8) :
    s.put b = (.ok (), s.accept b) := by
  rw [put, accept]
  split
  · rw [offer_of_open h]
    simp only [offerCounted]
    rw [offer_of_open (by exact h)]
  · rw [offerCounted, offer_of_open h]

theorem write_of_open {s : Sink} (h : s.refuses = fun _ => false) (data : List UInt8) :
    s.write data = (.ok (), data.foldl accept s) := by
  induction data generalizing s with
  | nil => rfl
  | cons b rest ih =>
    rw [write, put_of_open h, List.foldl_cons]
    exact ih ((refuses_accept s b).trans h)

theorem refuses_holding (coding : Coding) (payload : List UInt8) :
    (holding coding payload).refuses = fun _ => false :=
  List.foldlRecOn payload accept (motive := fun s => s.refuses = fun _ => false) rfl
    fun s h b _ => (refuses_accept s b).trans h

theorem write_holding (coding : Coding) (xs ys : List UInt8) :
    (holding coding xs).write ys = (.ok (), holding coding (xs ++ ys)) := by
  rw [write_of_open (refuses_holding coding xs), holding, holding, List.foldl_append]

theorem put_holding (coding : Coding) (xs : List UInt8) (b : UInt8) :
    (holding coding xs).put b = (.ok (), holding coding (xs ++ [b])) := by
  rw [put_of_open (refuses_holding coding xs), holding, holding, List.foldl_append]
  rfl

theorem bytes_accept_plain {s : Sink} (h : s.coding = .plain) (b : UInt8) :
    (s.accept b).bytes = s.bytes ++ [b] := by
  rw [accept, if_neg (fun due => absurd (h.symm.trans due.1) (by decide))]
  exact List.reverse_cons

/-- What arrives in a sink that takes everything, after what it had received. -/
theorem bytes_foldl_plain {s : Sink} (h : s.coding = .plain) (data : List UInt8) :
    (data.foldl accept s).bytes = s.bytes ++ data := by
  induction data generalizing s with
  | nil => exact (List.append_nil _).symm
  | cons b rest ih =>
    rw [List.foldl_cons, ih ((coding_accept s b).trans h), bytes_accept_plain h, List.append_assoc]
    rfl

theorem bytes_foldl_escaped {s : Sink} (h : s.coding = .escaped) (data : List UInt8) :
    (data.foldl accept s).bytes = escapeFrom s.zeros s.received data := by
  induction data generalizing s with
  | nil => rfl
  | cons b rest ih =>
    rw [List.foldl_cons, ih ((coding_accept s b).trans h), accept, escapeFrom]
    by_cases due : 2 ≤ s.zeros ∧ needsEscape b
    · rw [if_pos due, if_pos ⟨h, due⟩]
    · rw [if_neg due, if_neg fun all => due all.2]

theorem bytes_holding_plain (payload : List UInt8) : (holding .plain payload).bytes = payload :=
  bytes_foldl_plain (s := unbounded .plain) rfl payload

theorem bytes_holding_escaped (payload : List UInt8) :
    (holding .escaped payload).bytes = escape payload :=
  bytes_foldl_escaped (s := unbounded .escaped) rfl payload

end Sink

/-! ## The bits of items -/

namespace Item

/-- The bits of an Exp-Golomb code: as many zeros as the number and one have digits, less one, and
then these digits. -/
def codeBits (value : Nat) : List Bool :=
  Bits.ofNat 0 (value + 1).log2 ++ Bits.ofNat (value + 1) ((value + 1).log2 + 1)

/-- The bits of an item whose written form does not depend on where it stands. -/
def toBits : Item → List Bool
  | .bits value count => Bits.ofNat value count
  | .bytes data => Bits.ofBytes data
  | .ue value => codeBits value
  | .se value => codeBits (Packer.placeOf value)
  | .align | .refuse _ => []

/-- An item that has a written form, wherever it stands. -/
def Writable : Item → Prop
  | .bits value count => value < 2 ^ count ∧ count ≤ 64
  | .bytes _ => True
  | .ue value => value + 1 < 2 ^ 64
  | .se value => Packer.placeOf value + 1 < 2 ^ 64
  | .align | .refuse _ => False

/-- The bits of items in a row. -/
def allBits (items : List Item) : List Bool := items.flatMap toBits

@[simp] theorem allBits_nil : allBits [] = [] := rfl

@[simp] theorem allBits_cons (item : Item) (items : List Item) :
    allBits (item :: items) = item.toBits ++ allBits items := List.flatMap_cons

theorem allBits_singleton (item : Item) : allBits [item] = item.toBits := List.append_nil _

@[simp] theorem allBits_append (xs ys : List Item) :
    allBits (xs ++ ys) = allBits xs ++ allBits ys := List.flatMap_append

theorem allBits_singleton_append (item : Item) (items : List Item) (rest : List Bool) :
    allBits [item] ++ (allBits items ++ rest) = allBits (item :: items) ++ rest := by
  rw [← List.append_assoc, ← allBits_append]
  rfl

theorem toBits_flag (b : Bool) : (flag b).toBits = [b] := by
  cases b <;> rfl

theorem writable_flag (b : Bool) : (flag b).Writable := by
  cases b <;> exact ⟨by decide, by decide⟩

theorem allBits_flags (bits : List Bool) : allBits (bits.map flag) = bits := by
  induction bits with
  | nil => rfl
  | cons b rest ih => rw [List.map_cons, allBits_cons, toBits_flag, ih, List.singleton_append]

end Item

namespace Packer

/-! ## Packers in front of such sinks -/

/-- The packer that wrote whole bytes and then fewer than eight bits. -/
def after (coding : Coding) (bytes : List UInt8) (tail : List Bool) : Packer :=
  { sink := .holding coding bytes, pending := Bits.toNat tail, pendingLen := tail.length,
    written := 8 * bytes.length + tail.length }

/-- A packer that wrote certain bits, and all of them arrived or are pending. -/
def Holds (coding : Coding) (bits : List Bool) (p : Packer) : Prop :=
  ∃ bytes tail, tail.length < 8 ∧ bits = Bits.ofBytes bytes ++ tail ∧ p = after coding bytes tail

/-- An operation that appends certain bits and succeeds. -/
def Writes (f : Packer → Except Fault Unit × Packer) (added : List Bool) : Prop :=
  ∀ ⦃coding bits p⦄, Holds coding bits p →
    ∃ p', f p = (.ok (), p') ∧ Holds coding (bits ++ added) p'

theorem Holds.room {coding : Coding} {bits : List Bool} {p : Packer} (h : Holds coding bits p) :
    p.pendingLen < 8 := by
  obtain ⟨bytes, tail, short, -, rfl⟩ := h
  exact short

theorem holds_ofSink (coding : Coding) : Holds coding [] (ofSink (.unbounded coding)) :=
  ⟨[], [], by decide, rfl, rfl⟩

theorem settle_after {coding : Coding} {bytes : List UInt8} {tail : List Bool}
    (h : tail.length < 8) :
    (after coding bytes tail).settle = (.ok (), after coding bytes tail) := by
  rw [settle, if_neg (by exact fun full => absurd h (full ▸ Nat.lt_irrefl 8))]

theorem putBit_after {coding : Coding} {bytes : List UInt8} {tail : List Bool} (b : Bool)
    (h : tail.length < 8) :
    (after coding bytes tail).putBit b
      = (.ok (),
          if tail.length = 7 then after coding (bytes ++ [Bits.toByte (tail ++ [b])]) []
          else after coding bytes (tail ++ [b])) := by
  have added : (after coding bytes tail).add b
      = { sink := .holding coding bytes, pending := Bits.toNat (tail ++ [b]),
          pendingLen := tail.length + 1, written := 8 * bytes.length + tail.length + 1 } := by
    rw [Bits.toNat_append_singleton]
    rfl
  rw [putBit, settle_after h]
  simp only [added]
  -- the eighth bit completes a byte, and it goes to the sink at once
  by_cases full : tail.length = 7
  · rw [if_pos full, settle, full]
    simp only [Nat.reduceAdd, if_true]
    rw [show UInt8.ofNat (Bits.toNat (tail ++ [b])) = Bits.toByte (tail ++ [b]) from rfl,
      Sink.put_holding]
    simp only [after, List.length_append, List.length_singleton, List.length_nil, Nat.mul_add,
      Nat.add_zero, Nat.add_assoc]
    rfl
  · rw [if_neg full, settle, if_neg (by simpa using full)]
    simp only [after, List.length_append, List.length_singleton, Nat.add_assoc]

theorem writes_bit (b : Bool) : Writes (putBit b) [b] := by
  rintro coding _ _ ⟨bytes, tail, short, rfl, rfl⟩
  rw [putBit_after b short]
  refine ⟨_, rfl, ?_⟩
  by_cases full : tail.length = 7
  · have whole : (tail ++ [b]).length = 8 := by rw [List.length_append, full]; rfl
    rw [if_pos full]
    refine ⟨_, [], by decide, ?_, rfl⟩
    rw [Bits.ofBytes_append, Bits.ofBytes_cons, Bits.ofByte_toByte whole, Bits.ofBytes_nil,
      List.append_nil, List.append_nil, List.append_assoc]
  · rw [if_neg full]
    refine ⟨bytes, tail ++ [b], ?_, List.append_assoc _ _ _, rfl⟩
    rw [List.length_append, List.length_singleton]
    omega

/-- Operations one after the other. -/
theorem Writes.andThen {f g : Packer → Except Fault Unit × Packer} {xs ys : List Bool}
    (hf : Writes f xs) (hg : Writes g ys) :
    Writes (fun p => match f p with
      | (.ok _, p) => g p
      | (.error fault, p) => (.error fault, p)) (xs ++ ys) := by
  intro coding bits p held
  obtain ⟨p', first, held'⟩ := hf held
  obtain ⟨p'', second, held''⟩ := hg held'
  refine ⟨p'', ?_, ?_⟩
  · simp only [first, second]
  · rwa [← List.append_assoc]

theorem writes_nothing : Writes (fun p => (.ok (), p)) [] := by
  intro coding bits p held
  exact ⟨p, rfl, by rwa [List.append_nil]⟩

theorem writes_putBits (value count : Nat) :
    Writes (putBits value count) (Bits.ofNat value count) := by
  induction count with
  | zero => exact writes_nothing
  | succ count ih => exact (writes_bit (value.testBit count)).andThen ih

theorem writes_writeBits {value count : Nat} (h : value < 2 ^ count) (width : count ≤ 64) :
    Writes (writeBits value count) (Bits.ofNat value count) := by
  intro coding bits p held
  obtain ⟨p', done, held'⟩ := writes_putBits value count held
  have fits : ¬(count < 64 ∧ value >>> count ≠ 0) := by
    rintro ⟨-, tooLarge⟩
    exact tooLarge (by rw [Nat.shiftRight_eq_div_pow, Nat.div_eq_of_lt h])
  have room : ¬(p.pendingLen = 8 ∧ Word.shr? 64 value count = none) :=
    fun full => Nat.ne_of_lt held.room full.1
  refine ⟨p', ?_, held'⟩
  rw [writeBits, Nat.min_eq_left width, if_neg fits, if_neg room, done]

theorem writes_writeOctets (data : List UInt8) :
    Writes (writeOctets data) (Bits.ofBytes data) := by
  induction data with
  | nil => exact writes_nothing
  | cons b rest ih => exact (writes_writeBits b.toNat_lt (by decide)).andThen ih

/-- Bytes go straight to the sink where no bits are pending. -/
theorem writes_writeBytes (data : List UInt8) :
    Writes (writeBytes data) (Bits.ofBytes data) := by
  intro coding bits p held
  by_cases aligned : p.isAligned
  · obtain ⟨bytes, tail, short, rfl, rfl⟩ := held
    have empty : tail = [] := List.eq_nil_of_length_eq_zero (of_decide_eq_true aligned)
    subst empty
    refine ⟨after coding (bytes ++ data) [], ?_, bytes ++ data, [], short, ?_, rfl⟩
    · rw [writeBytes, if_pos aligned, passOn]
      simp only [after, Sink.write_holding, List.length_append, List.length_nil, Nat.mul_add,
        Nat.add_zero]
    · rw [Bits.ofBytes_append, List.append_nil, List.append_nil]
  · obtain ⟨p', done, held'⟩ := writes_writeOctets data held
    exact ⟨p', by rw [writeBytes, if_neg aligned, done], held'⟩

theorem writes_writeUe {value : Nat} (h : value + 1 < 2 ^ 64) :
    Writes (writeUe value) (Item.codeBits value) := by
  have digits : value + 1 < 2 ^ ((value + 1).log2 + 1) := Nat.lt_log2_self
  have short : (value + 1).log2 < 64 := (Nat.log2_lt (Nat.succ_ne_zero value)).mpr h
  have zeros := writes_writeBits (Nat.two_pow_pos (value + 1).log2) (by omega)
  have ones := writes_writeBits digits (by omega)
  intro coding bits p held
  obtain ⟨p', done, held'⟩ := zeros.andThen ones held
  exact ⟨p', by rw [writeUe, Nat.one_shiftLeft, if_neg (Nat.not_le_of_lt h)]; exact done, held'⟩

/-- Where the place of a number fits a word, its code is that of the place. -/
theorem writeSe_of_lt {value : Int} (h : placeOf value < 2 ^ 64) :
    writeSe value = writeUe (placeOf value) := by
  funext p
  rw [writeSe, Word.unsigned?_of_lt h]

/-- An item that has a written form appends its bits. -/
theorem writes_item {item : Item} (h : item.Writable) : Writes (write item) item.toBits := by
  cases item with
  | bits value count => exact writes_writeBits h.1 h.2
  | bytes data => exact writes_writeBytes data
  | ue value => exact writes_writeUe h
  | se value =>
    show Writes (writeSe value) _
    rw [writeSe_of_lt (Nat.lt_of_succ_lt h)]
    exact writes_writeUe h
  | align => exact absurd h id
  | refuse fault => exact absurd h id

theorem writes_items {items : List Item} (h : ∀ item ∈ items, item.Writable) :
    Writes (writeAll items) (Item.allBits items) := by
  induction items with
  | nil => exact writes_nothing
  | cons item rest ih =>
    have first := writes_item (h item List.mem_cons_self)
    exact first.andThen (ih fun other mem => h other (List.mem_cons_of_mem _ mem))

/-- Items can be written in two parts. -/
theorem writeAll_append (xs ys : List Item) (p : Packer) :
    p.writeAll (xs ++ ys)
      = match p.writeAll xs with
        | (.ok _, p) => p.writeAll ys
        | (.error fault, p) => (.error fault, p) := by
  induction xs generalizing p with
  | nil => rfl
  | cons item rest ih =>
    rw [List.cons_append, writeAll, writeAll]
    split
    · exact ih _
    · rfl

/-! ## Finishing -/

/-- Aligning pads the bits with zeros to whole bytes. -/
theorem align_of_holds {coding : Coding} {bits : List Bool} {p : Packer}
    (h : Holds coding bits p) :
    ∃ payload, p.align = (.ok (), after coding payload [])
      ∧ Bits.ofBytes payload = bits ++ List.replicate ((8 - bits.length % 8) % 8) false := by
  obtain ⟨bytes, tail, short, rfl, rfl⟩ := h
  have place : (Bits.ofBytes bytes ++ tail).length % 8 = tail.length := by
    rw [List.length_append, Bits.length_ofBytes]
    omega
  rw [place]
  by_cases aligned : tail.length = 0
  · obtain rfl := List.eq_nil_of_length_eq_zero aligned
    exact ⟨bytes, rfl, by simp⟩
  · have held : Holds coding (Bits.ofBytes bytes ++ tail) (after coding bytes tail) :=
      ⟨bytes, tail, short, rfl, rfl⟩
    obtain ⟨p', done, bytes', tail', short', eq, rfl⟩ :=
      writes_writeBits (Nat.two_pow_pos (8 - tail.length)) (by omega) held
    -- nothing is pending after the padding, as the number of bits is a multiple of eight
    have empty : tail' = [] := by
      have total := congrArg List.length eq
      simp only [List.length_append, Bits.length_ofBytes, Bits.length_ofNat] at total
      exact List.eq_nil_of_length_eq_zero (by omega)
    subst empty
    refine ⟨bytes', ?_, ?_⟩
    · have pending : (after coding bytes tail).pendingLen = tail.length := rfl
      rw [align, isAligned, pending, decide_eq_false aligned, if_neg Bool.false_ne_true, done]
    · rw [List.append_nil, Bits.ofNat_zero] at eq
      rw [← eq, Nat.mod_eq_of_lt (show 8 - tail.length < 8 by omega)]

/-- Finishing pads them too, and hands out the sink. -/
theorem finish_of_holds {coding : Coding} {bits : List Bool} {p : Packer}
    (h : Holds coding bits p) :
    ∃ payload padding, padding < 8 ∧ p.finish = (.ok (), .holding coding payload)
      ∧ Bits.ofBytes payload = bits ++ List.replicate padding false := by
  obtain ⟨payload, aligned, padded⟩ := align_of_holds h
  refine ⟨payload, _, Nat.mod_lt _ (by decide), ?_, padded⟩
  rw [finish, aligned]
  rfl

end Packer

/-- Items that have a written form all arrive in a sink that takes everything, as bytes that carry
their bits and fewer than eight zeros. -/
theorem Sink.writeItems_unbounded {items : List Item} (h : ∀ item ∈ items, item.Writable)
    (coding : Coding) :
    ∃ payload padding, padding < 8
      ∧ (Sink.unbounded coding).writeItems items = (.ok (), .holding coding payload)
      ∧ Bits.ofBytes payload = Item.allBits items ++ List.replicate padding false := by
  obtain ⟨p, written, held⟩ := Packer.writes_items h (Packer.holds_ofSink coding)
  obtain ⟨payload, padding, short, finished, bits⟩ := Packer.finish_of_holds held
  refine ⟨payload, padding, short, ?_, ?_⟩
  · rw [writeItems, written]
    exact finished
  · rw [bits, List.nil_append]

end Hevc
