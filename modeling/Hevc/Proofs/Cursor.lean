import Hevc.Bits.Cursor
import Hevc.Proofs.Bits
import Hevc.Proofs.Source

/-!
# What a cursor still reads

A cursor is seen through the bits in front of it: those left of the current byte, then those of
the payload of its source. Reading takes bits from the front of that list, whatever way they are
taken: one by one, over a byte boundary, or as whole bytes.

* `readBit_cons`, `readBit_nil` — a bit is the head of the list, and none is read at its end
* `skip_of_le`, `skip_of_lt` — passing over bits drops them; too few bits are a fault
* `within_readBit`, `within_skip` — no more bits are counted than were asked for
* `consumed_readBit`, `consumed_skip` — what was taken is counted to the bit
-/

namespace Hevc.Cursor

/-- The bits in front of a cursor. -/
def bits (c : Cursor) : List Bool :=
  Bits.ofNat c.current.toNat ((8 - c.bitPos) % 8) ++ Bits.ofBytes c.source.payload

theorem bits_of_aligned {c : Cursor} (h : c.bitPos = 0) :
    c.bits = Bits.ofBytes c.source.payload := by
  rw [bits, h]
  rfl

theorem bits_ofBytes (coding : Coding) (bytes : List UInt8) :
    (ofBytes coding bytes).bits = Bits.ofBytes (Source.ofBytes coding bytes).payload :=
  bits_of_aligned rfl

theorem length_bits (c : Cursor) :
    c.bits.length = (8 - c.bitPos) % 8 + 8 * c.source.payload.length := by
  rw [bits, List.length_append, Bits.length_ofNat, Bits.length_ofBytes]

/-- The bits left of the current byte are what the bits are over a whole number of bytes. -/
theorem length_bits_mod (c : Cursor) : c.bits.length % 8 = (8 - c.bitPos) % 8 := by
  rw [length_bits]
  omega

/-- The source after a cursor went on is the source before it, some bytes further. -/
def Follows (c' c : Cursor) : Prop :=
  c'.bitPos < 8 ∧ ∃ count ≤ c.source.payload.length, c'.source = c.source.advance count

theorem Follows.refl {c : Cursor} (h : c.bitPos < 8) : c.Follows c :=
  ⟨h, 0, Nat.zero_le _, rfl⟩

theorem Follows.trans {c c' c'' : Cursor} (h : c''.Follows c') (h' : c'.Follows c) :
    c''.Follows c := by
  obtain ⟨pos, m, hm, hs⟩ := h
  obtain ⟨-, n, hn, hs'⟩ := h'
  rw [hs', Source.payload_advance, List.length_drop] at hm
  exact ⟨pos, n + m, by omega, by rw [hs, hs', Source.advance_add]⟩

/-- Where the source stands follows from how many bits are left. -/
theorem Follows.source_eq {c c' : Cursor} (h : c'.Follows c) :
    c'.source = c.source.advance (c.source.payload.length - c'.bits.length / 8) := by
  obtain ⟨-, count, room, moved⟩ := h
  rw [length_bits, moved, Source.payload_advance, List.length_drop]
  congr 1
  omega

/-! ## Single bits -/

theorem readBit_of_next_none {c : Cursor} {s : Source} (h : c.bitPos = 0)
    (hn : c.source.next = (none, s)) : c.readBit = (.error .endOfData, { c with source := s }) := by
  rw [readBit, isAligned, decide_eq_true h, if_pos rfl, hn]

theorem readBit_of_next_some {c : Cursor} {b : UInt8} {s : Source} (h : c.bitPos = 0)
    (hn : c.source.next = (some b, s)) :
    c.readBit
      = (.ok (b.toNat.testBit 7),
          { source := s, bitPos := 1, current := b, consumed := c.consumed + 1 }) := by
  rw [readBit, isAligned, decide_eq_true h, if_pos rfl, hn]

theorem readBit_of_not_aligned {c : Cursor} (h : c.bitPos ≠ 0) :
    c.readBit
      = (.ok (c.current.toNat.testBit (7 - c.bitPos)),
          { c with bitPos := (c.bitPos + 1) % 8, consumed := c.consumed + 1 }) := by
  rw [readBit, isAligned, decide_eq_false h, if_neg Bool.false_ne_true]

theorem readBit_nil {c : Cursor} (h : c.bitPos < 8) (hb : c.bits = []) :
    ∃ c', c.readBit = (.error .endOfData, c') ∧ c'.bits = [] := by
  have none_left : c.bits.length = 0 := by rw [hb]; rfl
  rw [length_bits] at none_left
  have aligned : c.bitPos = 0 := by omega
  have empty : c.source.payload = [] := List.eq_nil_of_length_eq_zero (by omega)
  have head := Source.next_fst c.source
  have tail := Source.payload_next c.source
  rw [empty] at head tail
  refine ⟨_, readBit_of_next_none aligned (Prod.ext head rfl), ?_⟩
  rw [bits_of_aligned (by exact aligned), tail, List.tail_nil, Bits.ofBytes_nil]

theorem readBit_cons {c : Cursor} {b : Bool} {rest : List Bool} (h : c.bitPos < 8)
    (hb : c.bits = b :: rest) :
    ∃ c', c.readBit = (.ok b, c') ∧ c'.bits = rest ∧ c'.Follows c := by
  -- at a byte boundary the bit is the first of a new byte, elsewhere one of the current byte
  by_cases aligned : c.bitPos = 0
  · rw [bits_of_aligned aligned] at hb
    have head := Source.next_fst c.source
    have tail := Source.payload_next c.source
    cases hp : c.source.payload with
    | nil => rw [hp] at hb; exact absurd hb (by simp)
    | cons byte left =>
      rw [hp] at hb head tail
      obtain ⟨first, others⟩ := List.cons.inj (hb : byte.toNat.testBit 7 :: _ = b :: rest)
      refine ⟨_, first ▸ readBit_of_next_some aligned (Prod.ext head rfl), ?_,
        (show 1 < 8 by decide), 1, ?_, rfl⟩
      · rw [bits, tail, List.tail_cons]
        exact others
      · rw [hp, List.length_cons]
        omega
  · obtain ⟨left, hl⟩ : ∃ left, (8 - c.bitPos) % 8 = left + 1 := ⟨7 - c.bitPos, by omega⟩
    rw [bits, hl, Bits.ofNat, List.cons_append, show left = 7 - c.bitPos by omega] at hb
    obtain ⟨first, others⟩ := List.cons.inj hb
    refine ⟨{ c with bitPos := (c.bitPos + 1) % 8, consumed := c.consumed + 1 }, ?_, ?_,
      (show (c.bitPos + 1) % 8 < 8 by omega), 0, Nat.zero_le _, rfl⟩
    · rw [readBit_of_not_aligned aligned, first]
    · rw [← others]
      show Bits.ofNat c.current.toNat ((8 - (c.bitPos + 1) % 8) % 8) ++ _ = _
      rw [show (8 - (c.bitPos + 1) % 8) % 8 = 7 - c.bitPos by omega]

/-! ## Passing over bits -/

theorem dropBits_of_le {count : Nat} {c : Cursor} (h : c.bitPos < 8)
    (hc : count ≤ c.bits.length) :
    ∃ c', c.dropBits count = (.ok (), c') ∧ c'.bits = c.bits.drop count ∧ c'.Follows c := by
  induction count generalizing c with
  | zero => exact ⟨c, rfl, rfl, .refl h⟩
  | succ count ih =>
    cases hb : c.bits with
    | nil => rw [hb] at hc; exact absurd hc (by simp)
    | cons b rest =>
      obtain ⟨c', hr, hb', follows⟩ := readBit_cons h hb
      rw [hb, List.length_cons] at hc
      obtain ⟨c'', hd, hb'', follows'⟩ := ih follows.1 (by rw [hb']; omega)
      refine ⟨c'', ?_, ?_, follows'.trans follows⟩
      · rw [dropBits, hr]
        exact hd
      · rw [hb'', hb', List.drop_succ_cons]

theorem dropBits_of_lt {count : Nat} {c : Cursor} (h : c.bitPos < 8)
    (hc : c.bits.length < count) :
    ∃ c', c.dropBits count = (.error .endOfData, c') ∧ c'.bits = [] := by
  induction count generalizing c with
  | zero => exact absurd hc (by omega)
  | succ count ih =>
    cases hb : c.bits with
    | nil =>
      obtain ⟨c', hr, hb'⟩ := readBit_nil h hb
      exact ⟨c', by rw [dropBits, hr], hb'⟩
    | cons b rest =>
      obtain ⟨c', hr, hb', follows⟩ := readBit_cons h hb
      rw [hb, List.length_cons] at hc
      obtain ⟨c'', hd, hb''⟩ := ih follows.1 (by rw [hb']; omega)
      exact ⟨c'', by rw [dropBits, hr]; exact hd, hb''⟩

theorem dropBytes_of_le {count : Nat} {c : Cursor} (h : c.bitPos < 8)
    (ha : count = 0 ∨ c.bitPos = 0) (hc : 8 * count ≤ c.bits.length) :
    ∃ c', c.dropBytes count = (.ok (), c') ∧ c'.bits = c.bits.drop (8 * count)
      ∧ c'.Follows c := by
  have room : count ≤ c.source.payload.length := by
    rw [length_bits] at hc
    omega
  have got : (c.source.read count).1.length = count := by
    rw [Source.read_fst, List.length_take]
    omega
  refine ⟨{ c with source := c.source.advance count, consumed := c.consumed + 8 * count }, ?_, ?_,
    h, count, room, rfl⟩
  · rw [dropBytes]
    simp only [got, Nat.lt_irrefl, if_false, Source.read_snd room]
  -- no bytes are read in the middle of a byte unless there are none to read
  · obtain rfl | aligned := ha
    · rfl
    · rw [bits_of_aligned aligned, bits_of_aligned (by exact aligned), Source.payload_advance]
      have whole : (Bits.ofBytes (c.source.payload.take count)).length = 8 * count := by
        rw [Bits.length_ofBytes, List.length_take]
        omega
      calc Bits.ofBytes (c.source.payload.drop count)
          = (Bits.ofBytes (c.source.payload.take count)
              ++ Bits.ofBytes (c.source.payload.drop count)).drop (8 * count) := by
            rw [← whole, List.drop_left]
        _ = (Bits.ofBytes c.source.payload).drop (8 * count) := by
            rw [← Bits.ofBytes_append, List.take_append_drop]

theorem dropBytes_of_lt {count : Nat} {c : Cursor} (ha : c.bitPos = 0)
    (hc : c.bits.length < 8 * count) :
    ∃ c', c.dropBytes count = (.error .endOfSkip, c') ∧ c'.bits = [] := by
  have short : (c.source.read count).1.length < count := by
    rw [bits_of_aligned ha, Bits.length_ofBytes] at hc
    rw [Source.read_fst, List.length_take]
    omega
  refine ⟨{ c with source := (c.source.read count).2 }, ?_, ?_⟩
  · rw [dropBytes]
    simp only [short, if_true]
  · rw [Source.read_fst, List.length_take] at short
    rw [bits_of_aligned (by exact ha), Source.payload_read, List.drop_eq_nil_of_le (by omega),
      Bits.ofBytes_nil]

/-- The fault of passing over more bits than there are: too few whole bytes are told from too few
bits in front of them or behind. -/
def skipFault (count left : Nat) : Fault :=
  if left - left % 8 < 8 * ((count - left % 8) / 8) then .endOfSkip else .endOfData

/-- How many bits a skip takes one by one before it comes to whole bytes. -/
theorem skip_lead (count : Nat) (c : Cursor) (h : c.bitPos < 8) :
    (if c.isAligned then 0 else min count (8 - c.bitPos)) = min count (c.bits.length % 8) := by
  rw [length_bits_mod, isAligned]
  by_cases aligned : c.bitPos = 0
  · simp only [aligned, decide_true, if_true]
    omega
  · simp only [aligned, decide_false, Bool.false_eq_true, if_false]
    omega

theorem skip_of_le {count : Nat} {c : Cursor} (h : c.bitPos < 8) (hc : count ≤ c.bits.length) :
    ∃ c', c.skip count = (.ok (), c') ∧ c'.bits = c.bits.drop count ∧ c'.Follows c := by
  -- bits up to a byte boundary, then whole bytes, then the bits that are left
  rw [skip, skip_lead count c h]
  generalize hl : min count (c.bits.length % 8) = lead
  obtain ⟨c₁, first, left₁, follows₁⟩ := dropBits_of_le h (show lead ≤ c.bits.length by omega)
  have aligned : (count - lead) / 8 = 0 ∨ c₁.bitPos = 0 := by
    have := length_bits_mod c₁
    rw [left₁, List.length_drop] at this
    have := follows₁.1
    omega
  obtain ⟨c₂, second, left₂, follows₂⟩ := dropBytes_of_le follows₁.1 aligned
    (by rw [left₁, List.length_drop]; omega)
  have some : (count - lead) % 8 ≤ c₂.bits.length := by
    rw [left₂, left₁, List.length_drop, List.length_drop]
    omega
  obtain ⟨c₃, third, left₃, follows₃⟩ := dropBits_of_le follows₂.1 some
  refine ⟨c₃, ?_, ?_, (follows₃.trans follows₂).trans follows₁⟩
  · simp only [first, second, third]
  · rw [left₃, left₂, left₁, List.drop_drop, List.drop_drop]
    congr 1
    omega

theorem skip_of_lt {count : Nat} {c : Cursor} (h : c.bitPos < 8) (hc : c.bits.length < count) :
    ∃ c', c.skip count = (.error (skipFault count c.bits.length), c') ∧ c'.bits = [] := by
  -- the bits up to a byte boundary are there, so the fault arises behind it
  rw [skip, skip_lead count c h]
  rw [show min count (c.bits.length % 8) = c.bits.length % 8 by omega]
  obtain ⟨c₁, first, left₁, follows₁⟩ :=
    dropBits_of_le h (Nat.mod_le c.bits.length 8)
  have aligned : c₁.bitPos = 0 := by
    have := length_bits_mod c₁
    rw [left₁, List.length_drop] at this
    have := follows₁.1
    omega
  have rest : c₁.bits.length = c.bits.length - c.bits.length % 8 := by
    rw [left₁, List.length_drop]
  rw [skipFault]
  by_cases short : c₁.bits.length < 8 * ((count - c.bits.length % 8) / 8)
  · obtain ⟨c₂, second, left₂⟩ := dropBytes_of_lt aligned short
    refine ⟨c₂, ?_, left₂⟩
    simp only [first, second, if_pos (rest ▸ short)]
  · obtain ⟨c₂, second, left₂, follows₂⟩ :=
      dropBytes_of_le follows₁.1 (.inr aligned) (Nat.le_of_not_lt short)
    have few : c₂.bits.length < (count - c.bits.length % 8) % 8 := by
      rw [left₂, List.length_drop]
      omega
    obtain ⟨c₃, third, left₃⟩ := dropBits_of_lt follows₂.1 few
    refine ⟨c₃, ?_, left₃⟩
    simp only [first, second, third, if_neg (rest ▸ short)]

/-! ## Counting -/

/-- A cursor stands inside a byte, and counted at most `count` bits more than another. -/
def Within (c : Cursor) (count : Nat) (c' : Cursor) : Prop :=
  c'.bitPos < 8 ∧ c'.consumed ≤ c.consumed + count

theorem Within.refl {c : Cursor} {count : Nat} (h : c.bitPos < 8) : c.Within count c :=
  ⟨h, Nat.le_add_right _ _⟩

theorem Within.le {c c' : Cursor} {m n : Nat} (h : c.Within m c') (more : m ≤ n) :
    c.Within n c' := ⟨h.1, by have := h.2; omega⟩

theorem Within.trans {c c' c'' : Cursor} {m n : Nat} (h : c.Within m c') (h' : c'.Within n c'') :
    c.Within (m + n) c'' := ⟨h'.1, by have := h.2; have := h'.2; omega⟩

theorem within_readBit {c : Cursor} (h : c.bitPos < 8) : c.Within 1 c.readBit.2 := by
  unfold readBit
  split
  · split
    · exact ⟨show 1 < 8 by decide, Nat.le_refl _⟩
    · exact .refl h
  · exact ⟨Nat.mod_lt _ (by decide), Nat.le_refl _⟩

theorem within_dropBits {c : Cursor} (h : c.bitPos < 8) (count : Nat) :
    c.Within count (c.dropBits count).2 := by
  induction count generalizing c with
  | zero => exact .refl h
  | succ count ih =>
    have first := within_readBit h
    rw [dropBits]
    split
    · next b c' hr =>
      rw [hr] at first
      exact (first.trans (ih first.1)).le (by omega)
    · next fault c' hr =>
      rw [hr] at first
      exact first.le (by omega)

theorem within_dropBytes {c : Cursor} (h : c.bitPos < 8) (count : Nat) :
    c.Within (8 * count) (c.dropBytes count).2 := by
  unfold dropBytes
  dsimp only
  split
  · exact .refl h
  · exact ⟨h, Nat.le_refl _⟩

theorem within_skip {c : Cursor} (h : c.bitPos < 8) (count : Nat) :
    c.Within count (c.skip count).2 := by
  unfold skip
  dsimp only
  generalize hl : (if c.isAligned then 0 else min count (8 - c.bitPos)) = lead
  have few : lead ≤ count := by
    rw [← hl]
    split <;> omega
  -- each of the three parts counts what it passes over, and the next one begins inside a byte
  have first := within_dropBits h lead
  split
  · next fault c₁ h₁ =>
    rw [h₁] at first
    exact first.le few
  · next c₁ h₁ =>
    rw [h₁] at first
    have second := within_dropBytes first.1 ((count - lead) / 8)
    split
    · next fault c₂ h₂ =>
      rw [h₂] at second
      exact (first.trans second).le (by omega)
    · next c₂ h₂ =>
      rw [h₂] at second
      have third := within_dropBits second.1 ((count - lead) % 8)
      exact ((first.trans second).trans third).le (by omega)

/-- A read that succeeds counts just what it took. -/
theorem consumed_readBit {c c' : Cursor} {b : Bool} (h : c.readBit = (.ok b, c')) :
    c'.consumed = c.consumed + 1 := by
  unfold readBit at h
  split at h
  · split at h
    · obtain ⟨-, rfl⟩ := Prod.mk.inj h
      rfl
    · exact absurd h (by simp)
  · obtain ⟨-, rfl⟩ := Prod.mk.inj h
    rfl

theorem consumed_dropBits {count : Nat} {c c' : Cursor} (h : c.dropBits count = (.ok (), c')) :
    c'.consumed = c.consumed + count := by
  induction count generalizing c with
  | zero =>
    obtain ⟨-, rfl⟩ := Prod.mk.inj h
    rfl
  | succ count ih =>
    rw [dropBits] at h
    split at h
    · next taken =>
      rw [ih h, consumed_readBit taken]
      omega
    · exact absurd h (by simp)

theorem consumed_dropBytes {count : Nat} {c c' : Cursor} (h : c.dropBytes count = (.ok (), c')) :
    c'.consumed = c.consumed + 8 * count := by
  unfold dropBytes at h
  dsimp only at h
  split at h
  · exact absurd h (by simp)
  · obtain ⟨-, rfl⟩ := Prod.mk.inj h
    rfl

theorem consumed_skip {count : Nat} {c c' : Cursor} (h : c.skip count = (.ok (), c')) :
    c'.consumed = c.consumed + count := by
  unfold skip at h
  dsimp only at h
  generalize hl : (if c.isAligned then 0 else min count (8 - c.bitPos)) = lead at h
  have few : lead ≤ count := by
    rw [← hl]
    split <;> omega
  split at h
  · exact absurd h (by simp)
  · next first =>
    split at h
    · exact absurd h (by simp)
    · next second =>
      rw [consumed_dropBits h, consumed_dropBytes second, consumed_dropBits first]
      omega

end Hevc.Cursor
