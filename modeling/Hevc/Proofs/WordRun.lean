import Hevc.Proofs.Safe

/-!
# Runs on machine words

A cursor counts without bound, and the arithmetic fault is a fault like others. `run?` is a run
once more, on the words of a machine: each difference, shift and sum of the cursor has to stay
inside its word, and where one does not, or the arithmetic fault is met, there is no run.

* `Cursor.readBit?`, `Cursor.skip?`, `Decoder.run?` — the steps of a cursor and a run on words
* `Cursor.readBit?_eq`, `Cursor.skip?_eq` — a step that has room to count is the plain one
* `Decoder.Safe.run?_eq` — the run of a safe decoder is the plain run
-/

namespace Hevc

namespace Cursor

/-! ## Steps on words -/

/-- The bit of the current byte that a cursor stands in front of, and the cursor behind it. -/
def takeBit? (c : Cursor) : Option (Bool × Cursor) := do
  let place ← Word.sub? 7 c.bitPos
  let front ← Word.shr? 8 c.current.toNat place
  let next ← Word.unsigned? 8 (c.bitPos + 1)
  let consumed ← Word.unsigned? 64 (c.consumed + 1)
  return (front % 2 = 1, { c with bitPos := next % 8, consumed })

/-- `readBit` on words. -/
def readBit? (c : Cursor) : Option (Except Fault Bool × Cursor) :=
  if c.isAligned then
    match c.source.next with
    | (some b, source) => do
      let (bit, c) ← takeBit? { c with source, current := b }
      return (.ok bit, c)
    | (none, source) => some (.error .endOfData, { c with source })
  else do
    let (bit, c) ← takeBit? c
    return (.ok bit, c)

/-- `dropBits` on words. -/
def dropBits? : Nat → Cursor → Option (Except Fault Unit × Cursor)
  | 0, c => some (.ok (), c)
  | count + 1, c => do
    match ← c.readBit? with
    | (.ok _, c) => dropBits? count c
    | (.error fault, c) => some (.error fault, c)

/-- `dropBytes` on words. -/
def dropBytes? (count : Nat) (c : Cursor) : Option (Except Fault Unit × Cursor) :=
  let (got, source) := c.source.read count
  if got.length < count then some (.error .endOfSkip, { c with source })
  else do
    let bits ← Word.unsigned? 64 (8 * count)
    let consumed ← Word.unsigned? 64 (c.consumed + bits)
    return (.ok (), { c with source, consumed })

/-- `skip` on words. -/
def skip? (count : Nat) (c : Cursor) : Option (Except Fault Unit × Cursor) := do
  let lead := if c.isAligned then 0 else min count (8 - c.bitPos)
  match ← c.dropBits? lead with
  | (.error fault, c) => some (.error fault, c)
  | (.ok _, c) =>
    match ← c.dropBytes? ((count - lead) / 8) with
    | (.error fault, c) => some (.error fault, c)
    | (.ok _, c) => c.dropBits? ((count - lead) % 8)

/-! ## Steps that have room -/

theorem takeBit?_eq {c : Cursor} (pos : c.bitPos < 8) (room : c.consumed + 1 < 2 ^ 64) :
    c.takeBit? = some (c.current.toNat.testBit (7 - c.bitPos),
      { c with bitPos := (c.bitPos + 1) % 8, consumed := c.consumed + 1 }) := by
  unfold takeBit?
  rw [Word.sub?_of_le (by omega), Nat.testBit_eq_decide_div_mod_eq]
  simp only [bind, Option.bind, pure, Word.shr?_of_lt (show 7 - c.bitPos < 8 by omega),
    Word.unsigned?_of_lt (show c.bitPos + 1 < 2 ^ 8 by omega), Word.unsigned?_of_lt room]

theorem readBit?_eq {c : Cursor} (pos : c.bitPos < 8) (room : c.consumed + 1 < 2 ^ 64) :
    c.readBit? = some c.readBit := by
  unfold readBit? readBit
  split
  · next aligned =>
    have front : c.bitPos = 0 := by simpa [isAligned] using aligned
    obtain ⟨taken, source⟩ := c.source.next
    cases taken with
    | none => rfl
    | some b =>
      dsimp only
      rw [@takeBit?_eq { c with source, current := b } pos room]
      simp [front]
  · rw [takeBit?_eq pos room]
    rfl

/-- A cursor that has counted up to the greatest word has no room for another bit. -/
example : readBit? { ofBytes .plain [0] with consumed := 2 ^ 64 - 1 } = none := by decide

theorem dropBits?_eq {count : Nat} {c : Cursor} (pos : c.bitPos < 8)
    (room : c.consumed + count < 2 ^ 64) : c.dropBits? count = some (c.dropBits count) := by
  induction count generalizing c with
  | zero => rfl
  | succ count ih =>
    have first := within_readBit pos
    rw [dropBits?, dropBits, readBit?_eq pos (by omega)]
    generalize c.readBit = step at first
    obtain ⟨result, c'⟩ := step
    obtain ⟨pos', counted⟩ : c'.bitPos < 8 ∧ c'.consumed ≤ c.consumed + 1 := first
    cases result with
    | error fault => rfl
    | ok b => exact ih pos' (by omega)

theorem dropBytes?_eq {count : Nat} {c : Cursor} (room : c.consumed + 8 * count < 2 ^ 64) :
    c.dropBytes? count = some (c.dropBytes count) := by
  unfold dropBytes? dropBytes
  dsimp only
  split
  · rfl
  · rw [Word.unsigned?_of_lt (show 8 * count < 2 ^ 64 by omega)]
    simp only [bind, Option.bind, Word.unsigned?_of_lt room]
    rfl

theorem skip?_eq {count : Nat} {c : Cursor} (pos : c.bitPos < 8)
    (room : c.consumed + count < 2 ^ 64) : c.skip? count = some (c.skip count) := by
  unfold skip? skip
  dsimp only
  generalize hl : (if c.isAligned then 0 else min count (8 - c.bitPos)) = lead
  have few : lead ≤ count := by
    rw [← hl]
    split <;> omega
  have first := within_dropBits pos lead
  rw [dropBits?_eq pos (by omega)]
  generalize c.dropBits lead = step at first
  obtain ⟨result, c₁⟩ := step
  obtain ⟨pos₁, count₁⟩ : c₁.bitPos < 8 ∧ c₁.consumed ≤ c.consumed + lead := first
  cases result with
  | error fault => rfl
  | ok _ =>
    have second := within_dropBytes pos₁ ((count - lead) / 8)
    simp only [bind, Option.bind]
    rw [dropBytes?_eq (by omega)]
    generalize c₁.dropBytes ((count - lead) / 8) = step at second
    obtain ⟨result, c₂⟩ := step
    obtain ⟨pos₂, count₂⟩ :
      c₂.bitPos < 8 ∧ c₂.consumed ≤ c₁.consumed + 8 * ((count - lead) / 8) := second
    cases result with
    | error fault => rfl
    | ok _ => exact dropBits?_eq pos₂ (by omega)

end Cursor

namespace Decoder

variable {α : Type} {P : α → Prop} {n : Nat}

/-- A run on words. -/
def run? : Decoder α → Cursor → Option (Except Fault α × Cursor)
  | .done value, c => some (.ok value, c)
  | .fail fault, c => if fault = .arithmetic then none else some (.error fault, c)
  | .bit next, c => do
    match ← c.readBit? with
    | (.ok b, c) => (next b).run? c
    | (.error fault, c) => some (.error fault, c)
  | .skip count next, c => do
    match ← c.skip? count with
    | (.ok _, c) => next.run? c
    | (.error fault, c) => some (.error fault, c)

/-- A safe decoder runs on words, and comes to what it comes to without them, while its cursor has
room to count all that it asks for. -/
theorem Safe.run?_eq {d : Decoder α} (h : d.Safe Fault.OfData P n) {c : Cursor}
    (pos : c.bitPos < 8) (room : c.consumed + n < 2 ^ 64) : d.run? c = some (d.run c) := by
  induction d generalizing n c with
  | done value => rfl
  | fail fault => exact if_neg h.2
  | bit next ih =>
    obtain ⟨some, rest⟩ := h
    have first := Cursor.within_readBit pos
    rw [run?, run, Cursor.readBit?_eq pos (by omega)]
    generalize c.readBit = step at first
    obtain ⟨result, c'⟩ := step
    obtain ⟨pos', counted⟩ : c'.bitPos < 8 ∧ c'.consumed ≤ c.consumed + 1 := first
    cases result with
    | error fault => rfl
    | ok b => exact ih b (rest b) pos' (by omega)
  | skip count next ih =>
    obtain ⟨some, rest⟩ := h
    have first := Cursor.within_skip pos count
    rw [run?, run, Cursor.skip?_eq pos (by omega)]
    generalize c.skip count = step at first
    obtain ⟨result, c'⟩ := step
    obtain ⟨pos', counted⟩ : c'.bitPos < 8 ∧ c'.consumed ≤ c.consumed + count := first
    cases result with
    | error fault => rfl
    | ok _ => exact ih rest pos' (by omega)

end Decoder

end Hevc
