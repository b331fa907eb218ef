import Hevc.Proofs.Reads
import Hevc.Proofs.Safe

/-!
# What an element was read from

The converse of `Reads`, for the elements that all syntax structures are made of. A number that was
read stood there in its written form, which is its only one. A number that was not read is cut off
by the end of the bits, or it begins with more zeros than a code may have.

* `code_cases` — what stands in front of a reader of codes
* `flag_taken`, `ue_taken`, `se_taken` — the bits that were taken for a value
* `flag_refused`, `ue_refused`, `se_refused` — the bits that were refused
* `require_taken`, `require_refused`, `checked_taken` — no bits are taken to look at a value
-/

namespace Hevc.Decoder

/-! ## Codes -/

/-- The zeros that a code may not begin with. -/
def tooManyZeros : List Bool := List.replicate (maxLeadingZeros + 1) false

theorem zeros_cases (count : Nat) (bits : List Bool) :
    (∃ zeros ≤ count, ∃ rest, bits = List.replicate zeros false ++ true :: rest)
      ∨ (∃ rest, bits = List.replicate (count + 1) false ++ rest)
      ∨ ∃ zeros ≤ count, bits = List.replicate zeros false := by
  induction count generalizing bits with
  | zero =>
    rcases bits with _ | ⟨_ | _, rest⟩
    · exact .inr (.inr ⟨0, Nat.le_refl 0, rfl⟩)
    · exact .inr (.inl ⟨rest, rfl⟩)
    · exact .inl ⟨0, Nat.le_refl 0, rest, rfl⟩
  | succ count ih =>
    rcases bits with _ | ⟨_ | _, rest⟩
    · exact .inr (.inr ⟨0, Nat.zero_le _, rfl⟩)
    · rcases ih rest with ⟨zeros, few, more, rfl⟩ | ⟨more, rfl⟩ | ⟨zeros, few, rfl⟩
      · exact .inl ⟨zeros + 1, Nat.succ_le_succ few, more, rfl⟩
      · exact .inr (.inl ⟨more, rfl⟩)
      · exact .inr (.inr ⟨zeros + 1, Nat.succ_le_succ few, rfl⟩)
    · exact .inl ⟨0, Nat.zero_le _, rest, rfl⟩

theorem eval_leadingZeros_long (zeros left : Nat) (rest : List Bool) :
    (leadingZeros zeros left).eval (List.replicate (left + 1) false ++ rest)
      = (.error .codeTooLong, rest) := by
  induction left generalizing zeros with
  | zero => rfl
  | succ left ih => exact ih (zeros + 1)

theorem eval_leadingZeros_ended {zeros count left : Nat} (few : count ≤ left) :
    (leadingZeros zeros left).eval (List.replicate count false) = (.error .endOfData, []) := by
  induction count generalizing zeros left with
  | zero => cases left <;> rfl
  | succ count ih =>
    cases left with
    | zero => exact absurd few (Nat.not_succ_le_zero _)
    | succ left => exact ih (Nat.le_of_succ_le_succ few)

theorem eval_bitsFrom_ended (high : Nat) {count : Nat} {digits : List Bool}
    (short : digits.length < count) :
    (bitsFrom high count).eval digits = (.error .endOfData, []) := by
  induction count generalizing high digits with
  | zero => exact absurd short (Nat.not_lt_zero _)
  | succ count ih =>
    cases digits with
    | nil => rfl
    | cons b digits => exact ih _ (Nat.lt_of_succ_lt_succ short)

/-- Zeros, a one and as many digits are the code of one number. -/
theorem codeBits_of_digits (digits : List Bool) :
    List.replicate digits.length false ++ true :: digits
      = Item.codeBits (2 ^ digits.length + Bits.toNat digits - 1) := by
  have small := Bits.toNat_lt digits
  have positive := Nat.two_pow_pos digits.length
  have code : 2 ^ digits.length + Bits.toNat digits - 1 + 1
      = 2 ^ digits.length + Bits.toNat digits := by omega
  have length : (2 ^ digits.length + Bits.toNat digits).log2 = digits.length :=
    (Nat.log2_eq_iff (by omega)).mpr ⟨by omega, by rw [Nat.pow_succ]; omega⟩
  rw [codeBits_eq, code, length, Nat.add_sub_cancel_left, Bits.ofNat_toNat]

/-- In front of a reader of codes stands a code, or too many zeros for one, or the bits end. -/
theorem code_cases (bits : List Bool) :
    (∃ value ≤ maxCode, ∃ rest, bits = Item.codeBits value ++ rest)
      ∨ (∃ rest, bits = tooManyZeros ++ rest)
      ∨ ue.eval bits = (.error .endOfData, []) := by
  rcases zeros_cases maxLeadingZeros bits
    with ⟨zeros, few, rest, rfl⟩ | ⟨rest, rfl⟩ | ⟨zeros, few, rfl⟩
  · by_cases room : zeros ≤ rest.length
    · -- the digits are there, and they are few enough for a code that is read
      have length : (rest.take zeros).length = zeros := by
        rw [List.length_take]
        omega
      have code := codeBits_of_digits (rest.take zeros)
      have small := Bits.toNat_lt (rest.take zeros)
      rw [length] at code small
      have power : 2 ^ zeros ≤ 2 ^ maxLeadingZeros := Nat.pow_le_pow_right (by decide) few
      rw [show (2 : Nat) ^ maxLeadingZeros = 2 ^ 31 from rfl] at power
      refine .inl ⟨2 ^ zeros + Bits.toNat (rest.take zeros) - 1, ?_, rest.drop zeros, ?_⟩
      · rw [maxCode]
        omega
      · rw [← code, List.append_assoc, List.cons_append, List.take_append_drop]
    · refine .inr (.inr ?_)
      rw [ue, eval_bind_ok (eval_leadingZeros few rest), Nat.zero_add]
      exact eval_bind_error (eval_bitsFrom_ended 0 (Nat.lt_of_not_le room)) _
  · exact .inr (.inl ⟨rest, rfl⟩)
  · exact .inr (.inr (eval_bind_error (eval_leadingZeros_ended few) _))

theorem eval_ue_long (rest : List Bool) :
    ue.eval (tooManyZeros ++ rest) = (.error .codeTooLong, rest) :=
  eval_bind_error (eval_leadingZeros_long 0 maxLeadingZeros rest) _

/-! ## Values -/

theorem flag_taken {bits left : List Bool} {b : Bool} (h : flag.eval bits = (.ok b, left)) :
    bits = Item.allBits [.flag b] ++ left := by
  cases bits with
  | nil => exact absurd h (by simp [flag, Decoder.eval])
  | cons first rest =>
    obtain ⟨same, rfl⟩ := Prod.mk.inj (show (Except.ok first, rest) = (.ok b, left) from h)
    rw [← Except.ok.inj same, Item.allBits_singleton, Item.toBits_flag]
    rfl

theorem ue_taken {bits left : List Bool} {value : Nat} (h : ue.eval bits = (.ok value, left)) :
    value ≤ maxCode ∧ bits = Item.allBits [.ue value] ++ left := by
  rcases code_cases bits with ⟨found, small, rest, rfl⟩ | ⟨rest, rfl⟩ | ended
  · rw [eval_ue small] at h
    obtain ⟨same, rfl⟩ := Prod.mk.inj h
    obtain rfl := Except.ok.inj same
    exact ⟨small, by rw [Item.allBits_singleton]; rfl⟩
  · rw [eval_ue_long] at h
    exact absurd h (by simp)
  · rw [ended] at h
    exact absurd h (by simp)

theorem placeOf_signedAt (place : Nat) : Packer.placeOf (signedAt place) = place := by
  rw [signedAt, Packer.placeOf]
  split <;> split <;> omega

theorem se_taken {bits left : List Bool} {n : Int} (h : se.eval bits = (.ok n, left)) :
    n.natAbs < 2 ^ 31 ∧ bits = Item.allBits [.se n] ++ left := by
  obtain ⟨place, rest, number, ends⟩ := eval_bind_ok_cases h
  obtain ⟨small, taken⟩ := ue_taken number
  have near := Safe.natAbs_signedAt small
  rw [Word.signed?_of_natAbs_lt (by omega)] at ends
  obtain ⟨same, rfl⟩ := Prod.mk.inj ends
  obtain rfl := Except.ok.inj same
  refine ⟨near, ?_⟩
  rw [taken, Item.allBits_singleton, Item.allBits_singleton, Item.toBits, Item.toBits,
    placeOf_signedAt]

theorem checked_taken {α : Type} {value : Option α} {v : α} {bits left : List Bool}
    (h : (checked value).eval bits = (.ok v, left)) : value = some v ∧ left = bits := by
  cases value with
  | none => exact absurd h (by simp [checked, Decoder.eval])
  | some found =>
    obtain ⟨same, rfl⟩ := Prod.mk.inj h
    exact ⟨congrArg some (Except.ok.inj same), rfl⟩

theorem require_taken {element : Element} {low high value : Int} {bits left : List Bool}
    (h : (require element low high value).eval bits = (.ok (), left)) :
    (low ≤ value ∧ value ≤ high) ∧ left = bits := by
  rw [eval_require] at h
  split at h
  · next inside => exact ⟨inside, (Prod.mk.inj h).2.symm⟩
  · exact absurd h (by simp)

/-! ## Faults -/

/-- Why a code is not read: the bits end inside it, or it has too many zeros. -/
inductive CodeRefused (bits left : List Bool) : Fault → Prop
  | ended (h : left = []) : CodeRefused bits left .endOfData
  | tooLong (h : bits = tooManyZeros ++ left) : CodeRefused bits left .codeTooLong

theorem flag_refused {bits left : List Bool} {fault : Fault}
    (h : flag.eval bits = (.error fault, left)) : fault = .endOfData ∧ left = [] := by
  cases bits with
  | nil =>
    obtain ⟨same, rfl⟩ := Prod.mk.inj h
    exact ⟨(Except.error.inj same).symm, rfl⟩
  | cons first rest => exact absurd h (by simp [flag, Decoder.eval])

theorem ue_refused {bits left : List Bool} {fault : Fault}
    (h : ue.eval bits = (.error fault, left)) : CodeRefused bits left fault := by
  rcases code_cases bits with ⟨found, small, rest, rfl⟩ | ⟨rest, rfl⟩ | ended
  · rw [eval_ue small] at h
    exact absurd h (by simp)
  · rw [eval_ue_long] at h
    obtain ⟨same, rfl⟩ := Prod.mk.inj h
    exact Except.error.inj same ▸ .tooLong rfl
  · rw [ended] at h
    obtain ⟨same, rfl⟩ := Prod.mk.inj h
    exact Except.error.inj same ▸ .ended rfl

theorem se_refused {bits left : List Bool} {fault : Fault}
    (h : se.eval bits = (.error fault, left)) : CodeRefused bits left fault := by
  rcases eval_bind_error_cases h with number | ⟨place, rest, number, ends⟩
  · exact ue_refused number
  · -- every number that was read has its place in a machine word
    have near := Safe.natAbs_signedAt (ue_taken number).1
    rw [Word.signed?_of_natAbs_lt (by omega)] at ends
    exact absurd ends (by simp [checked, Decoder.eval])

theorem require_refused {element : Element} {low high value : Int} {bits left : List Bool}
    {fault : Fault} (h : (require element low high value).eval bits = (.error fault, left)) :
    ¬ (low ≤ value ∧ value ≤ high) ∧ fault = .outOfRange element low high value
      ∧ left = bits := by
  rw [eval_require] at h
  split at h
  · exact absurd h (by simp)
  · next outside =>
    obtain ⟨same, rfl⟩ := Prod.mk.inj h
    exact ⟨outside, (Except.error.inj same).symm, rfl⟩

end Hevc.Decoder
