import Hevc.Proofs.Packer
import Hevc.Proofs.Reads
import Hevc.Proofs.Taking

/-!
# Reading step by step what was written

What a packer writes can be read by the calls that correspond to its own: a bit as a bit, bytes as
bytes, an alignment by an alignment. After each call both have counted the same number of bits and
stand at the same place of a byte.

* `Cursor.Stands`, `Cursor.Reads` — where a cursor stands, and what a call reads there
* `Call.keepsStep` — a call that is accepted is read back
* `lockstep_calls` — a reader keeps step with any sequence of calls
-/

namespace Hevc

/-! ## Reading from a place -/

namespace Cursor

variable {α β : Type}

/-- A cursor that has read some number of bits, with certain bits in front of it that end with a
byte. -/
structure Stands (c : Cursor) (done : Nat) (ahead : List Bool) : Prop where
  inside : c.bitPos < 8
  bits : c.bits = ahead
  consumed : c.consumed = done
  whole : (done + ahead.length) % 8 = 0

/-- A call that reads certain bits as a value, wherever they stand. -/
def Reads (f : Cursor → Except Fault α × Cursor) (digits : List Bool) (value : α) : Prop :=
  ∀ ⦃c done rest⦄, Stands c done (digits ++ rest) →
    ∃ c', f c = (.ok value, c') ∧ c'.Stands (done + digits.length) rest

theorem stands_ofBytes (coding : Coding) (bytes : List UInt8) :
    (ofBytes coding bytes).Stands 0 (Bits.ofBytes (Source.ofBytes coding bytes).payload) where
  inside := show 0 < 8 by decide
  bits := bits_ofBytes coding bytes
  consumed := rfl
  whole := by
    rw [Nat.zero_add, Bits.length_ofBytes]
    omega

theorem Stands.bitPos {c : Cursor} {done : Nat} {ahead : List Bool} (h : c.Stands done ahead) :
    c.bitPos = done % 8 := by
  have left := length_bits_mod c
  have inside := h.inside
  have whole := h.whole
  rw [h.bits] at left
  omega

theorem Reads.map {f : Cursor → Except Fault α × Cursor} {digits : List Bool} {value : α}
    (h : Reads f digits value) (g : α → β) :
    Reads (fun c => ((f c).1.map g, (f c).2)) digits (g value) := by
  intro c done rest stands
  obtain ⟨c', read, stands'⟩ := h stands
  refine ⟨c', ?_, stands'⟩
  show ((f c).1.map g, (f c).2) = _
  rw [read]
  rfl

/-- A decoder that takes certain bits, whatever follows them, reads them from a cursor. -/
theorem reads_run {d : Decoder α} {digits : List Bool} {value : α}
    (h : ∀ rest, d.eval (digits ++ rest) = (.ok value, rest)) : Reads d.run digits value := by
  intro c done rest stands
  obtain ⟨c', ran, inside, left, counted⟩ := Decoder.answers_of_eval h stands.inside stands.bits
  have whole := stands.whole
  rw [List.length_append] at whole
  refine ⟨c', ran, inside, left, ?_, by omega⟩
  rw [counted, stands.consumed]

/-- A call that takes certain bits reads them. -/
theorem Takes.reads {f : Cursor → Except Fault α × Cursor} {digits : List Bool} {value : α}
    (h : Takes f digits value) : Reads f digits value := by
  intro c done rest stands
  obtain ⟨c', read, passes⟩ := h stands.inside stands.bits
  have left : c'.bits = rest := List.append_cancel_left (passes.bits.symm.trans stands.bits)
  have whole := stands.whole
  rw [List.length_append] at whole
  refine ⟨c', read, passes.follows.1, left, ?_, by omega⟩
  rw [passes.consumed, stands.consumed]

/-- Aligning passes over the bits up to the next byte. -/
theorem Stands.align {c : Cursor} {done : Nat} {padding rest : List Bool}
    (h : c.Stands done (padding ++ rest)) (width : padding.length = (8 - done % 8) % 8) :
    c.align.Stands (done + padding.length) rest := by
  have place := h.bitPos
  have inside := h.inside
  have whole := h.whole
  rw [List.length_append] at whole
  by_cases aligned : c.bitPos = 0
  · have none : padding.length = 0 := by omega
    obtain rfl := List.eq_nil_of_length_eq_zero none
    rw [Cursor.align, isAligned, decide_eq_true aligned, if_pos rfl]
    exact h
  · have split := h.bits
    rw [Cursor.bits] at split
    obtain ⟨-, left⟩ := List.append_inj split (by rw [Bits.length_ofNat]; omega)
    rw [Cursor.align, isAligned, decide_eq_false aligned, if_neg Bool.false_ne_true]
    refine ⟨show 0 < 8 by decide, ?_, ?_, by omega⟩
    · rw [bits_of_aligned rfl]
      exact left
    · have consumed := h.consumed
      show c.consumed + (8 - c.bitPos) = _
      omega

end Cursor

/-! ## Calls -/

/-- A call of a packer. -/
inductive Call where
  | bit (b : Bool)
  | bits (value count : Nat)
  | ue (value : Nat)
  | se (value : Int)
  | align
  | bytes (data : List UInt8)
deriving DecidableEq, Repr

namespace Call

/-- What a call writes. -/
def item : Call → Item
  | .bit b => .flag b
  | .bits value count => .bits value count
  | .ue value => .ue value
  | .se value => .se value
  | .align => .align
  | .bytes data => .bytes data

/-- The call that reads what a call wrote. Of the call it knows the kind, the number of bits and the
number of bytes, and not what was written. -/
def readBack (call : Call) (c : Cursor) : Except Fault Call × Cursor :=
  match call with
  | .bit _ =>
    let (result, c) := c.readBit
    (result.map .bit, c)
  | .bits _ count =>
    let (result, c) := c.readBits count
    (result.map (.bits · count), c)
  | .ue _ =>
    let (result, c) := Decoder.ue.run c
    (result.map .ue, c)
  | .se _ =>
    let (result, c) := Decoder.se.run c
    (result.map .se, c)
  | .align => (.ok .align, c.align)
  | .bytes data =>
    let (result, c) := c.readExact data.length
    (result.map .bytes, c)

/-- A call whose value has a code that can be read. -/
def Accepted : Call → Prop
  | .bits value count => value < 2 ^ count ∧ count ≤ 64
  | .ue value => value ≤ 2 ^ 32 - 2
  | .se value => value.natAbs ≤ 2 ^ 31 - 1
  | .bit _ | .align | .bytes _ => True

/-- A call whose value does not fit its number of bits. -/
def Overflows : Call → Prop
  | .bits value count => count < 64 ∧ 2 ^ count ≤ value
  | _ => False

/-- A call that may stand anywhere has a written form, and reads it back. -/
theorem reads_of_accepted {call : Call} (h : call.Accepted) (fixed : call ≠ .align) :
    call.item.Writable ∧ Cursor.Reads call.readBack call.item.toBits call := by
  cases call with
  | bit b =>
    refine ⟨Item.writable_flag b, ?_⟩
    rw [show (Call.bit b).item.toBits = [b] from Item.toBits_flag b]
    exact (Cursor.takes_readBit b).reads.map Call.bit
  | bits value count =>
    refine ⟨h, ?_⟩
    have width : (Bits.ofNat value count).length ≤ 64 := by
      rw [Bits.length_ofNat]
      exact h.2
    have read := (Cursor.takes_readBits width).reads
    rw [Bits.length_ofNat, Bits.toNat_ofNat h.1] at read
    exact read.map (Call.bits · count)
  | ue value =>
    have reads := Decoder.reads_ue h
    exact ⟨reads.writable _ (List.mem_singleton_self _),
      (Cursor.reads_run (Decoder.eval_ue h)).map Call.ue⟩
  | se value =>
    have near : value.natAbs < 2 ^ 31 := by
      have accepted : value.natAbs ≤ 2 ^ 31 - 1 := h
      omega
    have reads := Decoder.reads_se near
    refine ⟨reads.writable _ (List.mem_singleton_self _), Cursor.Reads.map ?_ Call.se⟩
    refine Cursor.reads_run fun rest => ?_
    have taken := reads.eval rest
    rwa [Item.allBits_singleton] at taken
  | align => exact absurd rfl fixed
  | bytes data => exact ⟨trivial, (Cursor.takes_readExact data).reads.map Call.bytes⟩

/-- A call is read back where it was written. -/
theorem keepsStep {call : Call} (h : call.Accepted) {coding : Coding} {bits : List Bool}
    {p : Packer} (held : p.Holds coding bits) :
    ∃ p' digits, p.write call.item = (.ok (), p') ∧ p'.Holds coding (bits ++ digits)
      ∧ ∀ c rest, Cursor.Stands c bits.length (digits ++ rest) →
          ∃ c', call.readBack c = (.ok call, c') ∧ c'.Stands (bits ++ digits).length rest := by
  by_cases fixed : call = .align
  · subst fixed
    obtain ⟨payload, aligned, padded⟩ := Packer.align_of_holds held
    refine ⟨_, List.replicate ((8 - bits.length % 8) % 8) false, aligned,
      ⟨payload, [], by decide, by rw [padded, List.append_nil], rfl⟩, fun c rest stands => ?_⟩
    refine ⟨c.align, rfl, ?_⟩
    rw [List.length_append]
    exact stands.align (List.length_replicate ..)
  · obtain ⟨writable, reads⟩ := reads_of_accepted h fixed
    obtain ⟨p', written, held'⟩ := Packer.writes_item writable held
    refine ⟨p', _, written, held', fun c rest stands => ?_⟩
    rw [List.length_append]
    exact reads stands

/-- A call that overflows is refused, and leaves the packer as it is. -/
theorem refused_of_overflows {call : Call} (h : call.Overflows) (p : Packer) :
    p.write call.item = (.error .bitsTooLarge, p) := by
  cases call with
  | bits value count =>
    obtain ⟨narrow, large⟩ := h
    have above : value >>> count ≠ 0 := by
      rw [Nat.shiftRight_eq_div_pow]
      exact Nat.div_ne_zero_iff.mpr ⟨Nat.ne_of_gt (Nat.two_pow_pos count), large⟩
    show p.writeBits value count = _
    rw [Packer.writeBits, Nat.min_eq_left (Nat.le_of_lt narrow), if_pos ⟨narrow, above⟩]
  | _ => exact absurd h id

end Call

/-- A reader repeats what a packer does, call by call, and both count the same and stand at the
same place of a byte. Calls that overflow change nothing, and are not repeated. -/
inductive Lockstep : Packer → Cursor → List Call → Packer → Cursor → Prop where
  | done (p : Packer) (c : Cursor) : Lockstep p c [] p c
  | accepted {p p₁ p₂ : Packer} {c c₁ c₂ : Cursor} {call : Call} {rest : List Call}
      (accepted : call.Accepted) (written : p.write call.item = (.ok (), p₁))
      (read : call.readBack c = (.ok call, c₁)) (count : c₁.consumed = p₁.written)
      (place : c₁.bitPos = p₁.pendingLen) (others : Lockstep p₁ c₁ rest p₂ c₂) :
      Lockstep p c (call :: rest) p₂ c₂
  | rejected {p p₂ : Packer} {c c₂ : Cursor} {call : Call} {rest : List Call}
      (overflows : call.Overflows) (refused : p.write call.item = (.error .bitsTooLarge, p))
      (others : Lockstep p c rest p₂ c₂) : Lockstep p c (call :: rest) p₂ c₂

theorem Packer.place_of_holds {coding : Coding} {bits : List Bool} {p : Packer}
    (h : p.Holds coding bits) : p.written = bits.length ∧ p.pendingLen = bits.length % 8 := by
  obtain ⟨bytes, tail, short, rfl, rfl⟩ := h
  have total : (Bits.ofBytes bytes ++ tail).length = 8 * bytes.length + tail.length := by
    rw [List.length_append, Bits.length_ofBytes]
  refine ⟨total.symm, ?_⟩
  rw [total]
  show tail.length = _
  omega

/-- From where the writing goes on, the reading does. -/
theorem lockstep_of_holds {calls : List Call}
    (h : ∀ call ∈ calls, call.Accepted ∨ call.Overflows) {coding : Coding} {bits : List Bool}
    {p : Packer} (held : p.Holds coding bits) :
    ∃ p' digits, p'.Holds coding (bits ++ digits)
      ∧ ∀ c rest, Cursor.Stands c bits.length (digits ++ rest) →
          ∃ c', Lockstep p c calls p' c' ∧ c'.Stands (bits ++ digits).length rest := by
  induction calls generalizing bits p with
  | nil =>
    refine ⟨p, [], by rwa [List.append_nil], fun c rest stands => ⟨c, .done p c, ?_⟩⟩
    rwa [List.append_nil]
  | cons call calls ih =>
    obtain ⟨first, others⟩ := List.forall_mem_cons.mp h
    rcases first with accepted | overflows
    · obtain ⟨p₁, digits₁, written, held₁, back⟩ := Call.keepsStep accepted held
      obtain ⟨p₂, digits₂, held₂, rest₂⟩ := ih others held₁
      refine ⟨p₂, digits₁ ++ digits₂, by rwa [← List.append_assoc], fun c rest stands => ?_⟩
      rw [List.append_assoc] at stands
      obtain ⟨c₁, read, stands₁⟩ := back c _ stands
      obtain ⟨c₂, steps, stands₂⟩ := rest₂ c₁ rest stands₁
      obtain ⟨count, place⟩ := Packer.place_of_holds held₁
      refine ⟨c₂, .accepted accepted written read ?_ ?_ steps, by rwa [← List.append_assoc]⟩
      · rw [stands₁.consumed, count]
      · rw [stands₁.bitPos, place]
    · obtain ⟨p₂, digits, held₂, rest₂⟩ := ih others held
      refine ⟨p₂, digits, held₂, fun c rest stands => ?_⟩
      obtain ⟨c₂, steps, stands₂⟩ := rest₂ c rest stands
      exact ⟨c₂, .rejected overflows (Call.refused_of_overflows overflows p) steps, stands₂⟩

theorem Sink.payload_holding (coding : Coding) (payload : List UInt8) :
    (Source.ofBytes coding (Sink.holding coding payload).bytes).payload = payload := by
  cases coding with
  | plain => rw [Sink.bytes_holding_plain, Source.payload_plain]
  | escaped => rw [Sink.bytes_holding_escaped, Source.payload_escape]

/-- Zeros are read as zero, and behind the last of them nothing is left. -/
theorem Cursor.Stands.zeros {c : Cursor} {done padding : Nat} (few : padding < 8)
    (h : c.Stands done (List.replicate padding false)) :
    ∃ last, c.readBits padding = (.ok 0, last) ∧ last.readBit.1 = .error .endOfData := by
  have width : (Bits.ofNat 0 padding).length ≤ 64 := by
    rw [Bits.length_ofNat]
    omega
  have reads := (Cursor.takes_readBits width).reads
  rw [Bits.length_ofNat, Bits.toNat_ofNat (Nat.two_pow_pos padding), Bits.ofNat_zero] at reads
  rw [← List.append_nil (List.replicate padding false)] at h
  obtain ⟨last, read, stands⟩ := reads h
  obtain ⟨c', ended, -⟩ := Cursor.readBit_nil stands.inside stands.bits
  exact ⟨last, read, congrArg Prod.fst ended⟩

/-- A reader keeps step with any calls of a packer that are accepted or overflow. What is left for
it are the zeros that finishing puts at the end, fewer than eight of them. -/
theorem lockstep_calls (coding : Coding) {calls : List Call}
    (h : ∀ call ∈ calls, call.Accepted ∨ call.Overflows) :
    ∃ p sink c, p.finish = (.ok (), sink)
      ∧ Lockstep (.ofSink (.unbounded coding)) (.ofBytes coding sink.bytes) calls p c
      ∧ ∃ padding < 8, ∃ last, c.readBits padding = (.ok 0, last)
          ∧ last.readBit.1 = .error .endOfData := by
  obtain ⟨p, digits, held, follows⟩ := lockstep_of_holds h (Packer.holds_ofSink coding)
  rw [List.nil_append] at held
  obtain ⟨payload, padding, few, finished, padded⟩ := Packer.finish_of_holds held
  have stands := Cursor.stands_ofBytes coding (Sink.holding coding payload).bytes
  rw [Sink.payload_holding, padded] at stands
  obtain ⟨c, steps, left⟩ := follows _ _ stands
  exact ⟨p, _, c, finished, steps, padding, few, left.zeros few⟩

/-- Calls at all places of a byte, with zeros to be escaped and one number that is too large. -/
def mixedCalls : List Call :=
  [.bit true, .bits 5 3, .bits 9 3, .bytes [0, 0, 1], .ue 7, .se (-3), .align, .bytes [0, 0, 3],
    .bits (2 ^ 64 - 1) 64, .ue (2 ^ 32 - 2), .bits 0 0]

theorem lockstep_calls_mixed :
    (∀ call ∈ mixedCalls, call.Accepted ∨ call.Overflows)
      ∧ ∃ p sink c, p.finish = (.ok (), sink)
          ∧ Lockstep (.ofSink (.unbounded .escaped)) (.ofBytes .escaped sink.bytes) mixedCalls
              p c := by
  have either : ∀ call ∈ mixedCalls, call.Accepted ∨ call.Overflows := by
    simp [mixedCalls, Call.Accepted, Call.Overflows]
  obtain ⟨p, sink, c, finished, steps, -⟩ := lockstep_calls .escaped either
  exact ⟨either, p, sink, c, finished, steps⟩

end Hevc
