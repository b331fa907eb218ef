import Hevc.Bits.Decoder
import Hevc.Proofs.Cursor

/-!
# Bits that a call takes

A call of a cursor is described by the bits that it takes off the front and by the value that it
makes of them. Where two calls take the same bits, in whatever way, they leave cursors that no later
call can tell apart: the sources are at the same byte, and as many bits were counted.

* `chain` — calls one after the other, and the calls of a cursor as such
* `Takes.chain`, `takes_repeated` — what calls one after the other take
* `takes_readBits`, `takes_skip`, `takes_readExact` — what the calls of a cursor take
* `Passes.same` — what is left behind the same bits
-/

namespace Hevc.Cursor

variable {α β : Type}

/-- A cursor has passed certain bits, and counted them, on the way to where another one is. -/
structure Passes (c : Cursor) (digits : List Bool) (c' : Cursor) : Prop where
  bits : c.bits = digits ++ c'.bits
  follows : c'.Follows c
  consumed : c'.consumed = c.consumed + digits.length

theorem Passes.refl {c : Cursor} (inside : c.bitPos < 8) : c.Passes [] c := ⟨rfl, .refl inside, rfl⟩

theorem Passes.trans {c c' c'' : Cursor} {xs ys : List Bool} (h : c.Passes xs c')
    (h' : c'.Passes ys c'') : c.Passes (xs ++ ys) c'' where
  bits := by rw [h.bits, h'.bits, List.append_assoc]
  follows := h'.follows.trans h.follows
  consumed := by
    rw [h'.consumed, h.consumed, List.length_append]
    omega

/-- Cursors that show the same place, the same count and the same bits. -/
structure Same (c c' : Cursor) : Prop where
  source : c.source = c'.source
  bitPos : c.bitPos = c'.bitPos
  consumed : c.consumed = c'.consumed
  bits : c.bits = c'.bits

/-- In whatever way the same bits were passed, what is left is the same. -/
theorem Passes.same {c c' c'' : Cursor} {digits : List Bool} (h : c.Passes digits c')
    (h' : c.Passes digits c'') : c'.Same c'' := by
  have left : c'.bits = c''.bits := List.append_cancel_left (h.bits.symm.trans h'.bits)
  have place := length_bits_mod c'
  have place' := length_bits_mod c''
  have inside := h.follows.1
  have inside' := h'.follows.1
  refine ⟨?_, ?_, h.consumed.trans h'.consumed.symm, left⟩
  · rw [h.follows.source_eq, h'.follows.source_eq, left]
  · rw [left] at place
    omega

/-! ## Calls -/

/-- A call, and another that its value chooses. -/
def chain (f : Cursor → Except Fault α × Cursor) (g : α → Cursor → Except Fault β × Cursor)
    (c : Cursor) : Except Fault β × Cursor :=
  match f c with
  | (.ok v, c) => g v c
  | (.error fault, c) => (.error fault, c)

theorem chain_of_ok {f : Cursor → Except Fault α × Cursor}
    {g : α → Cursor → Except Fault β × Cursor} {c c' : Cursor} {v : α} (h : f c = (.ok v, c')) :
    chain f g c = g v c' := by
  rw [chain, h]

theorem chain_of_error {f : Cursor → Except Fault α × Cursor}
    {g : α → Cursor → Except Fault β × Cursor} {c c' : Cursor} {fault : Fault}
    (h : f c = (.error fault, c')) : chain f g c = (.error fault, c') := by
  rw [chain, h]

theorem map_eq_chain (f : Cursor → Except Fault α × Cursor) (g : α → β) :
    (fun c => ((f c).1.map g, (f c).2)) = chain f fun v c => (.ok (g v), c) := by
  funext c
  unfold chain
  rcases f c with ⟨_ | _, c'⟩ <;> rfl

theorem readBitsFrom_succ (high count : Nat) :
    readBitsFrom high (count + 1)
      = chain readBit fun b => readBitsFrom (2 * high + b.toNat) count := by
  funext c
  rw [readBitsFrom, chain]
  rcases c.readBit with ⟨_ | _, c'⟩ <;> rfl

theorem dropBits_succ (count : Nat) :
    dropBits (count + 1) = chain readBit fun _ => dropBits count := by
  funext c
  rw [dropBits, chain]
  rcases c.readBit with ⟨_ | _, c'⟩ <;> rfl

theorem readOctetsFrom_succ (got : List UInt8) (count : Nat) :
    readOctetsFrom got (count + 1)
      = chain (readBitsFrom 0 8) fun v => readOctetsFrom (UInt8.ofNat v :: got) count := by
  funext c
  have octet : c.readBits 8 = c.readBitsFrom 0 8 := rfl
  rw [readOctetsFrom, chain, octet]
  rcases c.readBitsFrom 0 8 with ⟨_ | _, c'⟩ <;> rfl

theorem readExact_eq_chain (count : Nat) :
    readExact count = chain (read count) fun got c =>
      (if got.length < count then .error .endOfData else .ok got, c) := by
  funext c
  rw [readExact, chain]
  rcases c.read count with ⟨_ | _, c'⟩ <;> rfl

/-- Passing over `count` bits, of which `lead` are passed over one by one before the whole bytes. -/
def skipFrom (lead count : Nat) : Cursor → Except Fault Unit × Cursor :=
  chain (dropBits lead) fun _ =>
    chain (dropBytes ((count - lead) / 8)) fun _ => dropBits ((count - lead) % 8)

theorem skip_eq_skipFrom (count : Nat) (c : Cursor) :
    c.skip count = skipFrom (if c.isAligned then 0 else min count (8 - c.bitPos)) count c := by
  unfold skip skipFrom
  dsimp only
  generalize (if c.isAligned then 0 else min count (8 - c.bitPos)) = lead
  cases found : c.dropBits lead with
  | mk first c₁ =>
    cases first with
    | error fault => rw [chain_of_error found]
    | ok v =>
      rw [chain_of_ok found, chain]
      dsimp only
      rcases c₁.dropBytes ((count - lead) / 8) with ⟨_ | _, c₂⟩ <;> rfl

theorem run_bit (next : Bool → Decoder α) :
    (Decoder.bit next).run = chain readBit fun b => (next b).run := by
  funext c
  rw [Decoder.run, chain]
  rcases c.readBit with ⟨_ | _, c'⟩ <;> rfl

theorem run_skip (count : Nat) (next : Decoder α) :
    (Decoder.skip count next).run = chain (skip count) fun _ => next.run := by
  funext c
  rw [Decoder.run, chain]
  rcases c.skip count with ⟨_ | _, c'⟩ <;> rfl

/-! ## Bits that calls take -/

/-- A call that takes certain bits as a value, wherever they stand. -/
def Takes (f : Cursor → Except Fault α × Cursor) (digits : List Bool) (value : α) : Prop :=
  ∀ ⦃c rest⦄, c.bitPos < 8 → c.bits = digits ++ rest →
    ∃ c', f c = (.ok value, c') ∧ c.Passes digits c'

theorem takes_nothing (value : α) : Takes (fun c => (.ok value, c)) [] value :=
  fun c _ inside _ => ⟨c, rfl, .refl inside⟩

theorem Takes.chain {f : Cursor → Except Fault α × Cursor}
    {g : α → Cursor → Except Fault β × Cursor} {xs ys : List Bool} {v : α} {w : β}
    (hf : Takes f xs v) (hg : Takes (g v) ys w) : Takes (chain f g) (xs ++ ys) w := by
  intro c rest inside front
  rw [List.append_assoc] at front
  obtain ⟨c₁, first, passes₁⟩ := hf inside front
  have front₁ : c₁.bits = ys ++ rest := List.append_cancel_left (passes₁.bits.symm.trans front)
  obtain ⟨c₂, second, passes₂⟩ := hg passes₁.follows.1 front₁
  exact ⟨c₂, (chain_of_ok first).trans second, passes₁.trans passes₂⟩

/-- A call that makes something else of what it takes. -/
theorem Takes.map {f : Cursor → Except Fault α × Cursor} {digits : List Bool} {v : α}
    (h : Takes f digits v) (g : α → β) :
    Takes (Cursor.chain f fun v c => (.ok (g v), c)) digits (g v) := by
  have both := h.chain (takes_nothing (g v)) (g := fun v c => (.ok (g v), c))
  rwa [List.append_nil] at both

/-- A call, so many times over, up to the first that fails. -/
def repeated (f : Cursor → Except Fault α × Cursor) : Nat → Cursor → Except Fault (List α) × Cursor
  | 0 => fun c => (.ok [], c)
  | count + 1 => chain f fun first => chain (repeated f count) fun others c =>
      (.ok (first :: others), c)

theorem takes_repeated {f : Cursor → Except Fault α × Cursor} {digits : β → List Bool}
    {value : β → α} (each : ∀ x, Takes f (digits x) (value x)) (xs : List β) :
    Takes (repeated f xs.length) (xs.flatMap digits) (xs.map value) := by
  induction xs with
  | nil => exact takes_nothing []
  | cons x xs ih => exact (each x).chain (ih.map (value x :: ·))

theorem takes_readBit (b : Bool) : Takes readBit [b] b := by
  intro c rest inside front
  obtain ⟨c', taken, left, follows⟩ := readBit_cons inside front
  exact ⟨c', taken, by rw [front, left]; rfl, follows, consumed_readBit taken⟩

theorem takes_readBitsFrom (high : Nat) (digits : List Bool) :
    Takes (readBitsFrom high digits.length) digits (Bits.toNatFrom high digits) := by
  induction digits generalizing high with
  | nil => exact takes_nothing high
  | cons b digits ih =>
    rw [List.length_cons, readBitsFrom_succ]
    exact (takes_readBit b).chain (ih (2 * high + b.toNat))

theorem takes_readBits {digits : List Bool} (width : digits.length ≤ 64) :
    Takes (readBits digits.length) digits (Bits.toNat digits) := by
  intro c rest inside front
  rw [readBits, Nat.min_eq_left width]
  exact takes_readBitsFrom 0 digits inside front

theorem takes_octet (b : UInt8) : Takes (readBits 8) (Bits.ofByte b) b.toNat := by
  have width : (Bits.ofByte b).length ≤ 64 := by
    rw [Bits.length_ofByte]
    decide
  have read := takes_readBits width
  rwa [Bits.length_ofByte, Bits.ofByte, Bits.toNat_ofNat b.toNat_lt] at read

theorem takes_readOctetsFrom (got data : List UInt8) :
    Takes (readOctetsFrom got data.length) (Bits.ofBytes data) (got.reverse ++ data) := by
  induction data generalizing got with
  | nil =>
    rw [List.append_nil]
    exact takes_nothing got.reverse
  | cons b data ih =>
    have others := ih (UInt8.ofNat b.toNat :: got)
    rw [UInt8.ofNat_toNat, List.reverse_cons, List.append_assoc] at others
    rw [List.length_cons, readOctetsFrom_succ]
    exact (takes_octet b).chain (by rwa [UInt8.ofNat_toNat])

/-- An aligned cursor hands bytes straight out of the source. -/
theorem takes_readExact (data : List UInt8) :
    Takes (readExact data.length) (Bits.ofBytes data) data := by
  intro c rest inside front
  by_cases aligned : c.bitPos = 0
  · have whole := front
    rw [bits_of_aligned aligned] at whole
    obtain ⟨got, left⟩ := Bits.ofBytes_eq_append whole
    have room : data.length ≤ c.source.payload.length := by
      rw [← got, List.length_take]
      exact Nat.min_le_right _ _
    refine ⟨{ c with source := c.source.advance data.length,
                     consumed := c.consumed + 8 * data.length }, ?_, ?_, ⟨inside, _, room, rfl⟩, ?_⟩
    · simp only [readExact, read, isAligned, aligned, decide_true, if_true, Source.read_fst, got,
        Nat.lt_irrefl, if_false, Source.read_snd room]
    · rw [front, bits_of_aligned (by exact aligned), Source.payload_advance, left]
    · rw [Bits.length_ofBytes]
  · obtain ⟨c', read, passes⟩ := takes_readOctetsFrom [] data inside front
    refine ⟨c', ?_, passes⟩
    rw [List.reverse_nil, List.nil_append] at read
    simp only [readExact, Cursor.read, isAligned, aligned, decide_false, Bool.false_eq_true,
      if_false, read, Nat.lt_irrefl]

theorem takes_skip (digits : List Bool) : Takes (skip digits.length) digits () := by
  intro c rest inside front
  have room : digits.length ≤ c.bits.length := by
    rw [front, List.length_append]
    exact Nat.le_add_right _ _
  obtain ⟨c', passed, left, follows⟩ := skip_of_le inside room
  rw [front, List.drop_left] at left
  exact ⟨c', passed, by rw [front, left], follows, consumed_skip passed⟩

/-! ## Calls that ask for too much -/

theorem readBitsFrom_of_lt {count : Nat} {c : Cursor} (high : Nat) (inside : c.bitPos < 8)
    (short : c.bits.length < count) : (c.readBitsFrom high count).1 = .error .endOfData := by
  induction count generalizing high c with
  | zero => exact absurd short (Nat.not_lt_zero _)
  | succ count ih =>
    rw [readBitsFrom]
    cases front : c.bits with
    | nil =>
      obtain ⟨c', taken, -⟩ := readBit_nil inside front
      rw [taken]
    | cons b rest =>
      obtain ⟨c', taken, left, follows⟩ := readBit_cons inside front
      rw [taken]
      refine ih _ follows.1 ?_
      rw [front, List.length_cons] at short
      rw [left]
      exact Nat.lt_of_succ_lt_succ short

theorem readOctetsFrom_of_lt {count : Nat} {c : Cursor} (got : List UInt8) (inside : c.bitPos < 8)
    (short : c.bits.length < 8 * count) :
    (c.readOctetsFrom got count).1 = .error .endOfData := by
  induction count generalizing got c with
  | zero => exact absurd short (Nat.not_lt_zero _)
  | succ count ih =>
    rw [readOctetsFrom]
    by_cases enough : 8 ≤ c.bits.length
    · have width : (c.bits.take 8).length = 8 := List.length_take_of_le enough
      have narrow : (c.bits.take 8).length ≤ 64 := by omega
      obtain ⟨c', read, passes⟩ :=
        takes_readBits narrow inside (List.take_append_drop 8 c.bits).symm
      rw [width] at read
      have lengths := congrArg List.length passes.bits
      rw [List.length_append, width] at lengths
      rw [read]
      exact ih _ passes.follows.1 (by omega)
    · have refused := readBitsFrom_of_lt 0 inside (Nat.lt_of_not_le enough)
      rw [readBits]
      cases found : c.readBitsFrom 0 (min 8 64) with
      | mk result c' =>
        obtain rfl : result = .error .endOfData := (congrArg Prod.fst found).symm.trans refused
        rfl

theorem readExact_of_lt {count : Nat} {c : Cursor} (inside : c.bitPos < 8)
    (short : c.bits.length < 8 * count) : (c.readExact count).1 = .error .endOfData := by
  by_cases aligned : c.bitPos = 0
  · have less : (c.source.payload.take count).length < count := by
      rw [bits_of_aligned aligned, Bits.length_ofBytes] at short
      rw [List.length_take]
      omega
    simp only [readExact, read, isAligned, aligned, decide_true, if_true, Source.read_fst, less]
  · have refused := readOctetsFrom_of_lt [] inside short
    rw [readExact, read, isAligned, decide_eq_false aligned, if_neg Bool.false_ne_true]
    cases found : c.readOctetsFrom [] count with
    | mk result c' =>
      obtain rfl : result = .error .endOfData := (congrArg Prod.fst found).symm.trans refused
      rfl

end Hevc.Cursor
