import Hevc.ExpGolomb
import Hevc.Proofs.Decoder
import Hevc.Proofs.Word

/-!
# Safe decoders

`d.Safe E P budget` says of every path through a decoder that it asks for at most `budget` bits,
and that it ends with a value of `P` or with a fault of `E`. The bits play no part in it, so it
holds for hostile ones as well.

* `Safe.bind`, `Safe.step` — one decoder after another, the second with what is known of the first
  value
* `Safe.ue`, `Safe.se` — an Exp-Golomb code stays inside its machine word
* `Safe.many`, `Safe.forEach` — repeated parts
* `Safe.eval_error` — the faults that hostile bits lead to
-/

namespace Hevc

/-- A fault that is the fault of the data, and not one of the arithmetic on it. -/
def Fault.OfData (f : Fault) : Prop := f.kind = .invalidData ∧ f ≠ .arithmetic

/-- A fault of one coded value: its code is too long, or it is outside its range. -/
def Fault.OfElement : Fault → Prop
  | .codeTooLong | .outOfRange .. => True
  | _ => False

theorem Fault.OfElement.ofData {f : Fault} (h : f.OfElement) : f.OfData := by
  cases f with
  | codeTooLong | outOfRange => exact ⟨rfl, nofun⟩
  | _ => exact absurd h id

namespace Decoder

variable {α β : Type} {E : Fault → Prop} {P : α → Prop} {Q : β → Prop} {m n : Nat}

/-- Every path asks for at most `budget` bits and ends with a value of `P` or a fault of `E`. -/
def Safe (E : Fault → Prop) (P : α → Prop) : Decoder α → Nat → Prop
  | .done value, _ => P value
  | .fail fault, _ => E fault
  | .bit next, budget => 0 < budget ∧ ∀ b, Safe E P (next b) (budget - 1)
  | .skip count next, budget => count ≤ budget ∧ Safe E P next (budget - count)

namespace Safe

theorem le {d : Decoder α} (h : d.Safe E P m) (more : m ≤ n) : d.Safe E P n := by
  induction d generalizing m n with
  | done value => exact h
  | fail fault => exact h
  | bit next ih => exact ⟨by have := h.1; omega, fun b => ih b (h.2 b) (by omega)⟩
  | skip count next ih => exact ⟨by have := h.1; omega, ih h.2 (by omega)⟩

theorem mono {E' : Fault → Prop} {P' : α → Prop} {d : Decoder α} (h : d.Safe E P n)
    (faults : ∀ f, E f → E' f) (values : ∀ v, P v → P' v) : d.Safe E' P' n := by
  induction d generalizing n with
  | done value => exact values value h
  | fail fault => exact faults fault h
  | bit next ih => exact ⟨h.1, fun b => ih b (h.2 b)⟩
  | skip count next ih => exact ⟨h.1, ih h.2⟩

theorem weaken {P' : α → Prop} {d : Decoder α} (h : d.Safe E P n) (values : ∀ v, P v → P' v) :
    d.Safe E P' n := h.mono (fun _ hf => hf) values

theorem ensures {d : Decoder α} (h : d.Safe E P n) : d.Ensures P := by
  induction d generalizing n with
  | done value => exact h
  | fail fault => trivial
  | bit next ih => exact fun b => ih b (h.2 b)
  | skip count next ih => exact ih h.2

theorem of_ensures {d : Decoder α} (h : d.Safe E (fun _ => True) n) (values : d.Ensures P) :
    d.Safe E P n := by
  induction d generalizing n with
  | done value => exact values
  | fail fault => exact h
  | bit next ih => exact ⟨h.1, fun b => ih b (h.2 b) (values b)⟩
  | skip count next ih => exact ⟨h.1, ih h.2 values⟩

/-! ## Sequences -/

theorem pure {value : α} (h : P value) : (Pure.pure value : Decoder α).Safe E P n := h

/-- The second decoder may use what is known of the value of the first. -/
theorem bind {d : Decoder α} {f : α → Decoder β} (h : d.Safe E P m)
    (next : ∀ value, P value → (f value).Safe E Q n) : (d >>= f).Safe E Q (m + n) := by
  induction d generalizing m with
  | done value => exact (next value h).le (Nat.le_add_left n m)
  | fail fault => exact h
  | bit more ih =>
    refine ⟨by have := h.1; omega, fun b => ?_⟩
    rw [show m + n - 1 = m - 1 + n by have := h.1; omega]
    exact ih b (h.2 b)
  | skip count more ih =>
    refine ⟨by have := h.1; omega, ?_⟩
    rw [show m + n - count = m - count + n by have := h.1; omega]
    exact ih h.2

/-- The first part of a structure, out of the budget for all of it. -/
theorem step {d : Decoder α} {f : α → Decoder β} (h : d.Safe E P m)
    (room : m ≤ n) (next : ∀ value, P value → (f value).Safe E Q (n - m)) :
    (d >>= f).Safe E Q n := by
  have whole := h.bind next
  rwa [show m + (n - m) = n by omega] at whole

/-- The last part. -/
theorem map {d : Decoder α} {f : α → β} (h : d.Safe E P n) (values : ∀ v, P v → Q (f v)) :
    (d >>= fun value => Pure.pure (f value)).Safe E Q n :=
  h.step (Nat.le_refl n) fun value hv => Safe.pure (values value hv)

/-! ## Parts that take no bits -/

theorem fail {fault : Fault} (h : E fault) : (Decoder.fail fault : Decoder α).Safe E P n := h

theorem checked {value : Option α} {v : α} (h : value = some v) (hv : P v) :
    (Decoder.checked value).Safe E P n := by
  rw [h]
  exact hv

/-- A checked computation that gives a value, and what is done with it. -/
theorem checked_bind {value : Option α} {v : α} {f : α → Decoder β} (h : value = some v)
    (next : (f v).Safe E Q n) : (Decoder.checked value >>= f).Safe E Q n := by
  rw [h]
  exact next

theorem require {element : Element} {low high value : Int}
    (h : E (.outOfRange element low high value)) :
    (Decoder.require element low high value).Safe E (fun _ => low ≤ value ∧ value ≤ high) 0 := by
  unfold Decoder.require
  split
  · assumption
  · exact h

/-! ## Numbers -/

theorem flag : Decoder.flag.Safe E (fun _ => True) 1 := ⟨by decide, fun _ => trivial⟩

theorem ignore (count : Nat) : (Decoder.ignore count).Safe E (fun _ => True) count :=
  ⟨Nat.le_refl count, trivial⟩

theorem bitsFrom (high count : Nat) :
    (Decoder.bitsFrom high count).Safe E (fun _ => True) count := by
  induction count generalizing high with
  | zero => trivial
  | succ count ih => exact ⟨Nat.succ_pos count, fun b => ih (2 * high + b.toNat)⟩

theorem bits (count : Nat) : (Decoder.bits count).Safe E (· < 2 ^ count) count :=
  (bitsFrom 0 count).of_ensures (.bits count)

/-! ## Exp-Golomb codes -/

theorem leadingZeros (h : E .codeTooLong) (zeros left : Nat) :
    (Decoder.leadingZeros zeros left).Safe E (· ≤ zeros + left) (left + 1) := by
  induction left generalizing zeros with
  | zero =>
    refine ⟨by decide, fun b => ?_⟩
    cases b with
    | true => exact Nat.le_refl zeros
    | false => exact h
  | succ left ih =>
    refine ⟨Nat.succ_pos _, fun b => ?_⟩
    cases b with
    | true => exact Nat.le_add_right zeros (left + 1)
    | false =>
      have rest := ih (zeros + 1)
      rwa [show zeros + 1 + left = zeros + (left + 1) by omega] at rest

/-- The greatest number that a code is read as. -/
theorem ue (h : E .codeTooLong) : Decoder.ue.Safe E (· ≤ 2 ^ 32 - 2) 63 := by
  refine (leadingZeros h 0 maxLeadingZeros).bind (n := 31) fun zeros few => ?_
  replace few : zeros ≤ 31 := by simpa [maxLeadingZeros] using few
  refine ((bits zeros).bind (n := 0) fun suffix small => ?_).le (by omega)
  -- 31 zeros at most keep the power and the sum far below the 64 bits of the word
  have power : 2 ^ zeros ≤ 2 ^ 31 := Nat.pow_le_pow_right (by decide) few
  have positive : 0 < 2 ^ zeros := Nat.two_pow_pos zeros
  refine checked_bind (Word.oneShl?_of_lt (by omega)) ?_
  refine checked_bind (Word.unsigned?_of_lt (by omega)) ?_
  exact checked (Word.sub?_of_le (by omega)) (by omega)

theorem natAbs_signedAt {place : Nat} (h : place ≤ 2 ^ 32 - 2) :
    (signedAt place).natAbs < 2 ^ 31 := by
  unfold signedAt
  split <;> omega

theorem se (h : E .codeTooLong) : Decoder.se.Safe E (·.natAbs < 2 ^ 31) 63 := by
  refine (ue h).bind (n := 0) fun place small => ?_
  have near := natAbs_signedAt small
  exact checked (Word.signed?_of_natAbs_lt (by omega)) near

/-! ## Repeated parts -/

theorem manyFrom {d : Decoder α} (h : d.Safe E P n) (got : List α) (before : ∀ v ∈ got, P v)
    (count : Nat) :
    (Decoder.manyFrom d got count).Safe E
      (fun vs => vs.length = got.length + count ∧ ∀ v ∈ vs, P v) (count * n) := by
  induction count generalizing got with
  | zero => exact ⟨by simp, fun v mem => before v (List.mem_reverse.mp mem)⟩
  | succ count ih =>
    rw [Nat.succ_mul, Nat.add_comm (count * n)]
    refine h.bind fun value hv => ?_
    refine (ih (value :: got) (by simpa using ⟨hv, before⟩)).weaken ?_
    rintro vs ⟨length, all⟩
    exact ⟨by rw [length, List.length_cons]; omega, all⟩

theorem many {d : Decoder α} (h : d.Safe E P n) (count : Nat) :
    (Decoder.many count d).Safe E (fun vs => vs.length = count ∧ ∀ v ∈ vs, P v) (count * n) := by
  refine (manyFrom h [] (by simp) count).weaken ?_
  rintro vs ⟨length, all⟩
  exact ⟨by simpa using length, all⟩

theorem forEachFrom {f : α → Decoder β} {xs : List α} (h : ∀ x ∈ xs, (f x).Safe E Q n)
    (got : List β) (before : ∀ v ∈ got, Q v) :
    (Decoder.forEachFrom f got xs).Safe E
      (fun vs => vs.length = got.length + xs.length ∧ ∀ v ∈ vs, Q v) (xs.length * n) := by
  induction xs generalizing got with
  | nil => exact ⟨by simp, fun v mem => before v (List.mem_reverse.mp mem)⟩
  | cons x rest ih =>
    rw [List.length_cons, Nat.succ_mul, Nat.add_comm (rest.length * n)]
    refine (h x List.mem_cons_self).bind fun value hv => ?_
    have others := ih (fun y mem => h y (List.mem_cons_of_mem x mem)) (value :: got)
      (by simpa using ⟨hv, before⟩)
    refine others.weaken ?_
    rintro vs ⟨length, all⟩
    exact ⟨by rw [length, List.length_cons]; omega, all⟩

theorem forEach {f : α → Decoder β} {xs : List α} (h : ∀ x ∈ xs, (f x).Safe E Q n) :
    (Decoder.forEach xs f).Safe E (fun vs => vs.length = xs.length ∧ ∀ v ∈ vs, Q v)
      (xs.length * n) := by
  refine (forEachFrom h [] (by simp)).weaken ?_
  rintro vs ⟨length, all⟩
  exact ⟨by simpa using length, all⟩

theorem octets (count : Nat) :
    (Decoder.octets count).Safe E (fun bytes => bytes.length = count) (count * 8) := by
  have octet : Decoder.octet.Safe E (fun _ => True) 8 :=
    (bits 8).bind (n := 0) fun _ _ => Safe.pure trivial
  exact (many octet count).weaken fun bytes all => all.1

/-! ## Optional parts -/

theorem when {present : Bool} {d : Decoder α} (h : present = true → d.Safe E P n) :
    (Decoder.when present d).Safe E (fun value => value.isSome = present ∧ ∀ v ∈ value, P v)
      n := by
  cases present with
  | false => exact ⟨rfl, by simp⟩
  | true => exact (h rfl).map fun value hv => ⟨rfl, by simpa using hv⟩

theorem codedOr {coded : Bool} {inferred : α} {d : Decoder α} (h : coded = true → d.Safe E P n)
    (other : coded = false → P inferred) : (Decoder.codedOr coded inferred d).Safe E P n := by
  cases coded with
  | false => exact other rfl
  | true => exact h rfl

theorem optional {d : Decoder α} (h : d.Safe E P n) :
    (Decoder.optional d).Safe E (fun value => ∀ v ∈ value, P v) (1 + n) :=
  flag.bind fun _ _ => (when fun _ => h).weaken fun _ all => all.2

theorem ite {c : Prop} [Decidable c] {d d' : Decoder α} (h : c → d.Safe E P n)
    (h' : ¬c → d'.Safe E P n) : (if c then d else d').Safe E P n := by
  by_cases hc : c
  · rw [if_pos hc]
    exact h hc
  · rw [if_neg hc]
    exact h' hc

/-! ## Faults of coded values -/

/-- A code, where every fault of a coded value is allowed for. -/
theorem code : Decoder.ue.Safe Fault.OfElement (· ≤ 2 ^ 32 - 2) 63 := ue trivial

theorem signedCode : Decoder.se.Safe Fault.OfElement (·.natAbs < 2 ^ 31) 63 := se trivial

theorem range (element : Element) (low high value : Int) :
    (Decoder.require element low high value).Safe Fault.OfElement
      (fun _ => low ≤ value ∧ value ≤ high) 0 := require trivial

/-- A code that is held against a range. -/
theorem codeWithin {element : Element} {low high : Int} {f : Nat → Decoder β}
    (next : ∀ value : Nat, low ≤ value ∧ value ≤ high → (f value).Safe Fault.OfElement Q n) :
    (Decoder.ue >>= fun value => Decoder.require element low high value >>= fun _ => f value).Safe
      Fault.OfElement Q (63 + n) :=
  code.bind fun value _ =>
    ((range element low high value).bind fun _ inside => next value inside).le (by omega)

/-! ## Runs -/

/-- Whatever fault `E` does not know of says that the data ended. -/
theorem eval_error {d : Decoder α} (h : d.Safe E P n) {bits left : List Bool} {fault : Fault}
    (error : d.eval bits = (.error fault, left)) : E fault ∨ fault.kind = .unexpectedEof := by
  induction d generalizing bits n with
  | done v => simp [eval] at error
  | fail f =>
    obtain ⟨rfl, -⟩ : f = fault ∧ bits = left := by simpa [eval] using error
    exact .inl h
  | bit next ih =>
    cases bits with
    | nil =>
      obtain ⟨rfl, -⟩ : Fault.endOfData = fault ∧ _ := by simpa [eval] using error
      exact .inr rfl
    | cons b rest => exact ih b (h.2 b) error
  | skip count next ih =>
    rw [eval] at error
    split at error
    · exact ih h.2 error
    · obtain ⟨rfl, -⟩ : Cursor.skipFault count bits.length = fault ∧ _ := by simpa using error
      exact .inr (skipFault_kind _ _)

end Safe

end Decoder

end Hevc
