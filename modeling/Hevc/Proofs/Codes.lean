import Hevc.Proofs.Elements
import Hevc.Proofs.Lockstep

/-!
# Exp-Golomb codes

The codes of the numbers are a prefix code, and a canonical one: a number is read of the digits
that are written for it, and of no others. They are written of more numbers than they are read of,
and a code of one of the others is refused at its thirty-second bit.

* `Canonical` — what a writer and a reader of codes agree on
* `canonical_ue`, `canonical_se` — the writers and readers of unsigned and of signed numbers do
* `codes_canonical` — both, with the length of the codes and the number that has none
-/

namespace Hevc

open Packer (placeOf)
open Decoder (maxCode tooManyZeros signedAt)

/-! ## Written codes -/

namespace Item

theorem length_codeBits (value : Nat) :
    (codeBits value).length = 2 * (value + 1).log2 + 1 := by
  rw [codeBits, List.length_append, Bits.length_ofNat, Bits.length_ofNat]
  omega

/-- No code is the front of another. -/
theorem codeBits_prefixFree {m n : Nat} (h : codeBits m <+: codeBits n) : m = n := by
  obtain ⟨more, whole⟩ := h
  have low (k : Nat) : 2 ^ (k + 1).log2 ≤ k + 1 := Nat.log2_self_le (Nat.succ_ne_zero k)
  have high (k : Nat) : k + 1 - 2 ^ (k + 1).log2 < 2 ^ (k + 1).log2 := by
    have above : k + 1 < 2 ^ ((k + 1).log2 + 1) := Nat.lt_log2_self
    rw [Nat.pow_succ] at above
    omega
  rw [Decoder.codeBits_eq, Decoder.codeBits_eq, List.append_assoc, List.cons_append] at whole
  -- both are read by a reader that takes as many zeros as there are
  have read := congrArg
    (Decoder.leadingZeros 0 (max (m + 1).log2 (n + 1).log2)).eval whole
  rw [Decoder.eval_leadingZeros (Nat.le_max_left ..),
    Decoder.eval_leadingZeros (Nat.le_max_right ..)] at read
  simp only [Nat.zero_add, Prod.mk.injEq, Except.ok.injEq] at read
  obtain ⟨zeros, digits⟩ := read
  obtain ⟨digits, -⟩ := List.append_inj' (digits.trans (List.append_nil _).symm) (by
    have lengths := congrArg List.length digits
    simp only [List.length_append, Bits.length_ofNat] at lengths
    rw [List.length_nil]
    omega)
  have value := congrArg Bits.toNat digits
  rw [Bits.toNat_ofNat (high m), Bits.toNat_ofNat (high n)] at value
  have lower := low m
  have lower' := low n
  rw [zeros] at value lower
  omega

/-- The code of a number that is too large begins with too many zeros. -/
theorem codeBits_of_large {value : Nat} (h : maxCode < value) :
    ∃ more, codeBits value = tooManyZeros ++ more := by
  have many : 32 ≤ (value + 1).log2 := by
    rw [maxCode] at h
    exact (Nat.le_log2 (Nat.succ_ne_zero value)).mpr (by omega)
  obtain ⟨others, zeros⟩ := Nat.exists_eq_add_of_le many
  rw [Decoder.codeBits_eq, zeros, ← List.replicate_append_replicate, List.append_assoc]
  exact ⟨_, rfl⟩

end Item

/-! ## Writers and readers -/

/-- A writer and a reader of numbers agree on their codes: the codes are read where they stand,
whatever follows them, and nothing else is; no code is the front of another; and a code that is
written but not read is refused at its thirty-second bit. -/
structure Canonical {α : Type} (write : α → Packer → Except Fault Unit × Packer)
    (read : Decoder α) (code : α → List Bool) (written accepted : α → Prop) : Prop where
  writes : ∀ value, written value → Packer.Writes (write value) (code value)
  reads : ∀ value, accepted value → read.Answers (code value) (.ok value)
  only : ∀ ⦃c c' : Cursor⦄ ⦃value⦄, c.bitPos < 8 → read.run c = (.ok value, c') →
    accepted value ∧ c.bits = code value ++ c'.bits
      ∧ c'.consumed = c.consumed + (code value).length
  prefixFree : ∀ ⦃m n⦄, code m <+: code n → m = n
  refuses : ∀ value, written value → ¬accepted value →
    ∃ front more, code value = front ++ more ∧ front.length = 32
      ∧ read.Answers front (.error .codeTooLong)

namespace Canonical

variable {α : Type} {write : α → Packer → Except Fault Unit × Packer} {read : Decoder α}
  {place : α → Nat} {written accepted : α → Prop}

/-- What was taken for a number is its code, and was counted. -/
theorem only_of_taken
    (reads : ∀ value, accepted value → read.Answers (Item.codeBits (place value)) (.ok value))
    (taken : ∀ ⦃bits left value⦄, read.eval bits = (.ok value, left) →
      accepted value ∧ bits = Item.codeBits (place value) ++ left)
    {c c' : Cursor} {value : α} (inside : c.bitPos < 8) (ran : read.run c = (.ok value, c')) :
    accepted value ∧ c.bits = Item.codeBits (place value) ++ c'.bits
      ∧ c'.consumed = c.consumed + (Item.codeBits (place value)).length := by
  obtain ⟨c₁, ran₁, left, -⟩ := read.run_eq inside
  obtain ⟨result, rfl⟩ := Prod.mk.inj (ran.symm.trans ran₁)
  obtain ⟨small, front⟩ := taken (Prod.ext result.symm left.symm)
  -- the run that reads the code is this one
  obtain ⟨c₂, ran₂, -, -, counted⟩ := reads value small inside front
  obtain ⟨-, rfl⟩ := Prod.mk.inj (ran.symm.trans ran₂)
  exact ⟨small, front, counted⟩

/-- A list of numbers has the codes of their places. -/
theorem of_places (writes : ∀ value, written value → write value = Packer.writeUe (place value))
    (inj : Function.Injective place) (fits : ∀ value, written value → place value + 1 < 2 ^ 64)
    (large : ∀ value, ¬accepted value → maxCode < place value)
    (reads : ∀ value, accepted value →
      ∀ rest, read.eval (Item.codeBits (place value) ++ rest) = (.ok value, rest))
    (taken : ∀ ⦃bits left value⦄, read.eval bits = (.ok value, left) →
      accepted value ∧ bits = Item.codeBits (place value) ++ left)
    (long : ∀ rest, read.eval (tooManyZeros ++ rest) = (.error .codeTooLong, rest)) :
    Canonical write read (fun value => Item.codeBits (place value)) written accepted where
  writes value inside := by
    rw [writes value inside]
    exact Packer.writes_writeUe (fits value inside)
  reads value small := Decoder.answers_of_eval (reads value small)
  only c c' value inside ran :=
    only_of_taken (fun v small => Decoder.answers_of_eval (reads v small)) taken inside ran
  prefixFree m n front := inj (Item.codeBits_prefixFree front)
  refuses value _ other := by
    obtain ⟨more, whole⟩ := Item.codeBits_of_large (large value other)
    exact ⟨tooManyZeros, more, whole, rfl, Decoder.answers_of_eval long⟩

end Canonical

theorem canonical_ue :
    Canonical Packer.writeUe Decoder.ue Item.codeBits (· ≤ 2 ^ 64 - 2) (· ≤ 2 ^ 32 - 2) := by
  refine @Canonical.of_places _ _ _ id _ _ (fun value _ => rfl) Function.injective_id ?_ ?_ ?_ ?_ ?_
  · intro value small
    show value + 1 < 2 ^ 64
    omega
  · intro value large
    exact Nat.lt_of_not_le large
  · intro value small
    exact Decoder.eval_ue small
  · intro bits left value ran
    obtain ⟨small, front⟩ := Decoder.ue_taken ran
    rw [Item.allBits_singleton] at front
    exact ⟨small, front⟩
  · exact Decoder.eval_ue_long

theorem placeOf_injective : Function.Injective placeOf :=
  Function.LeftInverse.injective Decoder.signedAt_placeOf

theorem canonical_se :
    Canonical (fun n => Packer.write (.se n)) Decoder.se (fun n => Item.codeBits (placeOf n))
      (fun n => -2 ^ 63 < n ∧ n < 2 ^ 63) (fun n => n.natAbs ≤ 2 ^ 31 - 1) := by
  have fits : ∀ n : Int, -2 ^ 63 < n ∧ n < 2 ^ 63 → placeOf n + 1 < 2 ^ 64 := by
    intro n inside
    unfold placeOf
    split <;> omega
  refine .of_places ?_ placeOf_injective fits ?_ ?_ ?_ ?_
  · intro n inside
    exact Packer.writeSe_of_lt (Nat.lt_of_succ_lt (fits n inside))
  · intro n large
    unfold placeOf maxCode
    split <;> omega
  · intro n small rest
    have reads := (Decoder.reads_se (show n.natAbs < 2 ^ 31 by omega)).eval rest
    rwa [Item.allBits_singleton] at reads
  · intro bits left n ran
    obtain ⟨small, front⟩ := Decoder.se_taken ran
    rw [Item.allBits_singleton] at front
    exact ⟨by omega, front⟩
  · intro rest
    exact Decoder.eval_bind_error (Decoder.eval_ue_long rest) _

/-- The numbers below `2 ^ 64 - 1` are written as a prefix code of an odd number of bits, and those
below `2 ^ 32 - 1` are read of it. The number that is left has no code. The signed numbers share
these codes, each of which is read as another number. -/
theorem codes_canonical :
    Canonical Packer.writeUe Decoder.ue Item.codeBits (· ≤ 2 ^ 64 - 2) (· ≤ 2 ^ 32 - 2)
      ∧ (∀ value, (Item.codeBits value).length = 2 * (value + 1).log2 + 1)
      ∧ (∀ p, Packer.writeUe (2 ^ 64 - 1) p = (.error .valueTooLarge, p))
      ∧ Canonical (fun n => Packer.write (.se n)) Decoder.se (fun n => Item.codeBits (placeOf n))
          (fun n => -2 ^ 63 < n ∧ n < 2 ^ 63) (fun n => n.natAbs ≤ 2 ^ 31 - 1)
      ∧ (∀ value ≤ 2 ^ 32 - 2,
          Decoder.se.Answers (Item.codeBits value) (.ok (signedAt value)))
      ∧ Function.Injective signedAt
      ∧ Fault.kind .codeTooLong = .invalidData ∧ Fault.kind .valueTooLarge = .invalidInput := by
  have place : Function.LeftInverse placeOf signedAt := Decoder.placeOf_signedAt
  refine ⟨canonical_ue, Item.length_codeBits, fun p => rfl, canonical_se, ?_, place.injective,
    rfl, rfl⟩
  intro value small
  have near : (signedAt value).natAbs < 2 ^ 31 := Decoder.Safe.natAbs_signedAt small
  have answers := canonical_se.reads (signedAt value) (by omega)
  simp only [place value] at answers
  exact answers

/-- Three bits before the end of a byte, with three zeros there and a one after them. -/
def midByte : Cursor :=
  { source := .ofBytes .plain [0x9f], bitPos := 5, current := 0xf8, consumed := 5 }

theorem codes_canonical_midByte :
    8 ≤ 2 ^ 32 - 2 ∧ midByte.bitPos < 8
      ∧ midByte.bits = Item.codeBits 8 ++ [true, true, true, true]
      ∧ ∃ c', Decoder.ue.run midByte = (.ok 8, c') ∧ c'.consumed = 12 := by
  have inside : midByte.bitPos < 8 := by decide
  have front : midByte.bits = Item.codeBits 8 ++ [true, true, true, true] := by decide
  obtain ⟨c', ran, -, -, counted⟩ := codes_canonical.1.reads 8 (by decide) inside front
  exact ⟨by decide, inside, front, c', ran, counted⟩

end Hevc
