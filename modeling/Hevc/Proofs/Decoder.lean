import Hevc.Bits.Decoder
import Hevc.Proofs.Cursor

/-!
# What a decoder makes of bits

`eval` runs a decoder over a list of bits. `run_eq` says that a decoder run from a cursor does the
same with the bits in front of the cursor, so every statement about reading is proved over lists
of bits, and where the bytes come from plays no part in it.

* `run_eq` — a run from a cursor is `eval` of the bits in front of it
* `eval_bind` — one decoder after another
* `eval_truncated` — bits that end before a value is complete give a fault of the end of data
* `answers_of_eval` — bits that are answered in one way, whatever follows them, are counted
* `eval_local` — the bits that are left have no part in the value
* `Ensures.of_eval` — what holds at every end of the tree holds of the value that was read
-/

namespace Hevc.Decoder

variable {α β : Type}

/-! ## Evaluation over bits -/

/-- What a decoder makes of bits, and the bits that it leaves. -/
def eval : Decoder α → List Bool → Except Fault α × List Bool
  | .done value, bits => (.ok value, bits)
  | .fail fault, bits => (.error fault, bits)
  | .bit _, [] => (.error .endOfData, [])
  | .bit next, b :: rest => (next b).eval rest
  | .skip count next, bits =>
    if count ≤ bits.length then next.eval (bits.drop count)
    else (.error (Cursor.skipFault count bits.length), [])

/-- A run from a cursor is an evaluation of the bits in front of it. -/
theorem run_eq (d : Decoder α) {c : Cursor} (h : c.bitPos < 8) :
    ∃ c', d.run c = ((d.eval c.bits).1, c') ∧ c'.bits = (d.eval c.bits).2
      ∧ ∀ value, (d.eval c.bits).1 = .ok value → c'.Follows c := by
  induction d generalizing c with
  | done value => exact ⟨c, rfl, rfl, fun _ _ => .refl h⟩
  | fail fault => exact ⟨c, rfl, rfl, fun _ failed => absurd failed (by simp [eval])⟩
  | bit next ih =>
    cases hb : c.bits with
    | nil =>
      obtain ⟨c', taken, left⟩ := Cursor.readBit_nil h hb
      exact ⟨c', by rw [run, taken]; rfl, left, fun _ failed => absurd failed (by simp [eval])⟩
    | cons b rest =>
      obtain ⟨c', taken, left, follows⟩ := Cursor.readBit_cons h hb
      obtain ⟨c'', ran, left', follows'⟩ := ih b follows.1
      rw [left] at ran left' follows'
      exact ⟨c'', by rw [run, taken]; exact ran, left',
        fun value ok => (follows' value ok).trans follows⟩
  | skip count next ih =>
    rw [eval]
    by_cases room : count ≤ c.bits.length
    · obtain ⟨c', passed, left, follows⟩ := Cursor.skip_of_le h room
      obtain ⟨c'', ran, left', follows'⟩ := ih follows.1
      rw [left] at ran left' follows'
      rw [if_pos room]
      exact ⟨c'', by rw [run, passed]; exact ran, left',
        fun value ok => (follows' value ok).trans follows⟩
    · obtain ⟨c', passed, left⟩ := Cursor.skip_of_lt h (Nat.lt_of_not_le room)
      rw [if_neg room]
      exact ⟨c', by rw [run, passed], left, fun _ failed => absurd failed (by simp)⟩

/-- What a run over a buffer gives depends on the payload of the buffer alone. -/
theorem run_ofBytes_fst (d : Decoder α) (coding : Coding) (bytes : List UInt8) :
    (d.run (.ofBytes coding bytes)).1
      = (d.eval (Bits.ofBytes (Source.ofBytes coding bytes).payload)).1 := by
  obtain ⟨c', ran, -⟩ := run_eq d (c := .ofBytes coding bytes) (show 0 < 8 by decide)
  rw [ran, Cursor.bits_ofBytes]

/-- Where a run over a buffer that gives a value leaves the source. -/
theorem run_ofBytes_source {d : Decoder α} {coding : Coding} {bytes : List UInt8} {value : α}
    {left : List Bool}
    (h : d.eval (Bits.ofBytes (Source.ofBytes coding bytes).payload) = (.ok value, left)) :
    (d.run (.ofBytes coding bytes)).2.source
      = (Source.ofBytes coding bytes).advance
          ((Source.ofBytes coding bytes).payload.length - left.length / 8) := by
  obtain ⟨c', ran, rest, follows⟩ := run_eq d (c := .ofBytes coding bytes) (show 0 < 8 by decide)
  rw [Cursor.bits_ofBytes, h] at ran rest follows
  rw [ran, (follows value rfl).source_eq, rest]
  rfl

/-! ## Sequences -/

theorem eval_andThen (d : Decoder α) (f : α → Decoder β) (bits : List Bool) :
    (d.andThen f).eval bits
      = match d.eval bits with
        | (.ok value, rest) => (f value).eval rest
        | (.error fault, rest) => (.error fault, rest) := by
  induction d generalizing bits with
  | done value => rfl
  | fail fault => rfl
  | bit next ih =>
    cases bits with
    | nil => rfl
    | cons b rest => exact ih b rest
  | skip count next ih =>
    rw [andThen, eval, eval]
    by_cases room : count ≤ bits.length
    · rw [if_pos room, if_pos room, ih]
    · rw [if_neg room, if_neg room]

theorem eval_bind (d : Decoder α) (f : α → Decoder β) (bits : List Bool) :
    (d >>= f).eval bits
      = match d.eval bits with
        | (.ok value, rest) => (f value).eval rest
        | (.error fault, rest) => (.error fault, rest) := eval_andThen d f bits

theorem eval_bind_ok {d : Decoder α} {bits rest : List Bool} {value : α}
    (h : d.eval bits = (.ok value, rest)) (f : α → Decoder β) :
    (d >>= f).eval bits = (f value).eval rest := by
  rw [eval_bind, h]

theorem eval_bind_error {d : Decoder α} {bits rest : List Bool} {fault : Fault}
    (h : d.eval bits = (.error fault, rest)) (f : α → Decoder β) :
    (d >>= f).eval bits = (.error fault, rest) := by
  rw [eval_bind, h]

/-- A value of two decoders in a row is that of the second, after a value of the first. -/
theorem eval_bind_ok_cases {d : Decoder α} {f : α → Decoder β} {bits left : List Bool} {value : β}
    (h : (d >>= f).eval bits = (.ok value, left)) :
    ∃ first rest, d.eval bits = (.ok first, rest) ∧ (f first).eval rest = (.ok value, left) := by
  rw [eval_bind] at h
  cases ran : d.eval bits with
  | mk result rest =>
    rw [ran] at h
    cases result with
    | error found => exact absurd h (by simp)
    | ok first => exact ⟨first, rest, rfl, h⟩

/-- A fault of two decoders in a row is that of the first, or that of the second after it. -/
theorem eval_bind_error_cases {d : Decoder α} {f : α → Decoder β} {bits left : List Bool}
    {fault : Fault} (h : (d >>= f).eval bits = (.error fault, left)) :
    d.eval bits = (.error fault, left)
      ∨ ∃ value rest, d.eval bits = (.ok value, rest)
        ∧ (f value).eval rest = (.error fault, left) := by
  rw [eval_bind] at h
  cases first : d.eval bits with
  | mk result rest =>
    rw [first] at h
    cases result with
    | error found =>
      obtain ⟨rfl, rfl⟩ : found = fault ∧ rest = left := by simpa using h
      exact .inl rfl
    | ok value => exact .inr ⟨value, rest, rfl, h⟩

/-! ## Truncated bits -/

theorem skipFault_kind (count left : Nat) :
    (Cursor.skipFault count left).kind = .unexpectedEof := by
  rw [Cursor.skipFault]
  split <;> rfl

/-- Bits that end before what a decoder takes for a value make it fail, and say that they end. -/
theorem eval_truncated {d : Decoder α} {bits more left : List Bool} {value : α}
    (h : d.eval (bits ++ more) = (.ok value, left)) (short : left.length < more.length) :
    ∃ fault, d.eval bits = (.error fault, []) ∧ fault.kind = .unexpectedEof := by
  induction d generalizing bits with
  | done v =>
    rw [eval, Prod.mk.injEq] at h
    rw [← h.2, List.length_append] at short
    omega
  | fail fault => exact absurd h (by simp [eval])
  | bit next ih =>
    cases bits with
    | nil => exact ⟨.endOfData, rfl, rfl⟩
    | cons b rest => exact ih b h
  | skip count next ih =>
    rw [eval] at h ⊢
    -- a skip that is not cut off itself leaves the end of the bits to a later request
    by_cases room : count ≤ bits.length
    · have enough : count ≤ (bits ++ more).length := by
        rw [List.length_append]
        omega
      rw [if_pos enough, List.drop_append_of_le_length room] at h
      rw [if_pos room]
      exact ih h
    · rw [if_neg room]
      exact ⟨_, rfl, skipFault_kind _ _⟩

/-! ## Bits that are not taken -/

theorem length_eval_le (d : Decoder α) (bits : List Bool) :
    (d.eval bits).2.length ≤ bits.length := by
  induction d generalizing bits with
  | done value => exact Nat.le_refl _
  | fail fault => exact Nat.le_refl _
  | bit next ih =>
    cases bits with
    | nil => exact Nat.le_refl _
    | cons b rest => exact Nat.le_succ_of_le (ih b rest)
  | skip count next ih =>
    rw [eval]
    split
    · refine Nat.le_trans (ih (bits.drop count)) ?_
      rw [List.length_drop]
      omega
    · exact Nat.zero_le _

/-- Bits that a decoder answers in one way, wherever they stand and whatever follows them: it leaves
what follows, and counts the bits. -/
def Answers (d : Decoder α) (digits : List Bool) (result : Except Fault α) : Prop :=
  ∀ ⦃c : Cursor⦄ ⦃rest : List Bool⦄, c.bitPos < 8 → c.bits = digits ++ rest →
    ∃ c', d.run c = (result, c') ∧ c'.bitPos < 8 ∧ c'.bits = rest
      ∧ c'.consumed = c.consumed + digits.length

/-- A decoder that leaves what follows certain bits, whatever it is, takes just these bits, also
where it refuses them. -/
theorem answers_of_eval {d : Decoder α} {digits : List Bool} {result : Except Fault α}
    (h : ∀ rest, d.eval (digits ++ rest) = (result, rest)) : d.Answers digits result := by
  induction d generalizing digits with
  | done value =>
    obtain ⟨rfl, none⟩ := Prod.mk.inj (h [])
    obtain rfl := (List.append_eq_nil_iff.mp none).1
    intro c rest inside front
    exact ⟨c, rfl, inside, front, rfl⟩
  | fail fault =>
    obtain ⟨rfl, none⟩ := Prod.mk.inj (h [])
    obtain rfl := (List.append_eq_nil_iff.mp none).1
    intro c rest inside front
    exact ⟨c, rfl, inside, front, rfl⟩
  | bit next ih =>
    cases digits with
    | nil =>
      -- it would take the first bit of what follows
      have few := length_eval_le (next false) []
      rw [show (next false).eval [] = _ from h [false]] at few
      exact absurd few (by simp)
    | cons b digits =>
      intro c rest inside front
      obtain ⟨c₁, taken, left, follows⟩ := Cursor.readBit_cons inside front
      obtain ⟨c₂, ran, inside₂, left₂, counted⟩ := ih b h follows.1 left
      refine ⟨c₂, ?_, inside₂, left₂, ?_⟩
      · rw [run, taken]
        exact ran
      · rw [counted, Cursor.consumed_readBit taken, List.length_cons]
        omega
  | skip count next ih =>
    by_cases room : count ≤ digits.length
    · have dropped : ∀ rest, next.eval (digits.drop count ++ rest) = (result, rest) := by
        intro rest
        have whole := h rest
        rw [eval, if_pos (by rw [List.length_append]; omega),
          List.drop_append_of_le_length room] at whole
        exact whole
      intro c rest inside front
      obtain ⟨c₁, passed, left, follows⟩ :=
        Cursor.skip_of_le inside (show count ≤ c.bits.length by
          rw [front, List.length_append]; omega)
      rw [front, List.drop_append_of_le_length room] at left
      obtain ⟨c₂, ran, inside₂, left₂, counted⟩ := ih dropped follows.1 left
      refine ⟨c₂, ?_, inside₂, left₂, ?_⟩
      · rw [run, passed]
        exact ran
      · rw [counted, Cursor.consumed_skip passed, List.length_drop]
        omega
    · -- it would pass over some of what follows
      have few := length_eval_le next ((digits ++ List.replicate count false).drop count)
      have whole := h (List.replicate count false)
      have enough : count ≤ (digits ++ List.replicate count false).length := by
        rw [List.length_append, List.length_replicate]
        omega
      rw [eval, if_pos enough] at whole
      rw [whole, List.length_drop, List.length_append, List.length_replicate] at few
      omega

/-- Bits that a decoder leaves may be any others: it takes the same value and leaves those. -/
theorem eval_local {d : Decoder α} {bits more left : List Bool} {value : α}
    (h : d.eval (bits ++ more) = (.ok value, left)) (untouched : more.length ≤ left.length) :
    ∃ front, left = front ++ more
      ∧ ∀ other, d.eval (bits ++ other) = (.ok value, front ++ other) := by
  induction d generalizing bits with
  | done v =>
    obtain ⟨same, rfl⟩ : Except.ok v = .ok value ∧ bits ++ more = left := by simpa [eval] using h
    exact ⟨bits, rfl, fun other => Prod.ext same rfl⟩
  | fail fault => exact absurd h (by simp [eval])
  | bit next ih =>
    cases bits with
    | cons b rest => exact ih b h
    | nil =>
      -- the bit would be one of those that are left
      cases more with
      | nil => exact absurd h (by simp [eval])
      | cons b rest =>
        have few : left.length ≤ rest.length := by
          have all := length_eval_le (next b) rest
          rwa [show (next b).eval rest = _ from h] at all
        rw [List.length_cons] at untouched
        omega
  | skip count next ih =>
    rw [eval] at h
    by_cases room : count ≤ bits.length
    · have enough : ∀ other : List Bool, count ≤ (bits ++ other).length := by
        intro other
        rw [List.length_append]
        omega
      rw [if_pos (enough more), List.drop_append_of_le_length room] at h
      obtain ⟨front, rest, all⟩ := ih h
      refine ⟨front, rest, fun other => ?_⟩
      rw [eval, if_pos (enough other), List.drop_append_of_le_length room]
      exact all other
    · split at h
      · next enough =>
        have few : left.length ≤ bits.length + more.length - count := by
          have all := length_eval_le next ((bits ++ more).drop count)
          rwa [h, List.length_drop, List.length_append] at all
        rw [List.length_append] at enough
        omega
      · exact absurd h (by simp)

/-! ## Properties of decoded values -/

/-- A property holds of every value that a decoder can end with. -/
def Ensures (P : α → Prop) : Decoder α → Prop
  | .done value => P value
  | .fail _ => True
  | .bit next => ∀ b, Ensures P (next b)
  | .skip _ next => Ensures P next

theorem Ensures.of_eval {P : α → Prop} {d : Decoder α} (h : d.Ensures P) {bits left : List Bool}
    {value : α} (ok : d.eval bits = (.ok value, left)) : P value := by
  induction d generalizing bits with
  | done v =>
    rw [eval, Prod.mk.injEq, Except.ok.injEq] at ok
    exact ok.1 ▸ h
  | fail fault => exact absurd ok (by simp [eval])
  | bit next ih =>
    cases bits with
    | nil => exact absurd ok (by simp [eval])
    | cons b rest => exact ih b (h b) ok
  | skip count next ih =>
    rw [eval] at ok
    split at ok
    · exact ih h ok
    · exact absurd ok (by simp)

/-- The same for a run from a cursor, wherever it stands. -/
theorem Ensures.of_run_eq {P : α → Prop} {d : Decoder α} (h : d.Ensures P) {c c' : Cursor}
    {value : α} (ran : d.run c = (.ok value, c')) : P value := by
  induction d generalizing c with
  | done v =>
    rw [run, Prod.mk.injEq, Except.ok.injEq] at ran
    exact ran.1 ▸ h
  | fail fault => exact absurd ran (by simp [run])
  | bit next ih =>
    rw [run] at ran
    split at ran
    · next b _ _ => exact ih b (h b) ran
    · exact absurd ran (by simp)
  | skip count next ih =>
    rw [run] at ran
    split at ran
    · exact ih h ran
    · exact absurd ran (by simp)

/-- The same for a run over a buffer. -/
theorem Ensures.of_run {P : α → Prop} {d : Decoder α} (h : d.Ensures P) {coding : Coding}
    {bytes : List UInt8} {value : α} (ok : (d.run (.ofBytes coding bytes)).1 = .ok value) :
    P value := h.of_run_eq (Prod.ext ok rfl)

namespace Ensures

variable {P : α → Prop} {Q : β → Prop}

theorem mono {P' : α → Prop} {d : Decoder α} (h : d.Ensures P) (weaker : ∀ v, P v → P' v) :
    d.Ensures P' := by
  induction d with
  | done value => exact weaker value h
  | fail fault => trivial
  | bit next ih => exact fun b => ih b (h b)
  | skip count next ih => exact ih h

theorem trivially (d : Decoder α) : d.Ensures fun _ => True := by
  induction d with
  | done value => trivial
  | fail fault => trivial
  | bit next ih => exact ih
  | skip count next ih => exact ih

theorem bind {d : Decoder α} {f : α → Decoder β} (h : d.Ensures P)
    (next : ∀ value, P value → (f value).Ensures Q) : (d >>= f).Ensures Q := by
  induction d with
  | done value => exact next value h
  | fail fault => trivial
  | bit more ih => exact fun b => ih b (h b)
  | skip count more ih => exact ih h

/-- Where nothing has to be known of the first value. -/
theorem bind_any {d : Decoder α} {f : α → Decoder β} (next : ∀ value, (f value).Ensures Q) :
    (d >>= f).Ensures Q := bind (trivially d) fun value _ => next value

theorem pure {value : α} (h : P value) : (Pure.pure value : Decoder α).Ensures P := h

theorem checked (value : Option α) : (Decoder.checked value).Ensures fun v => value = some v := by
  cases value with
  | none => trivial
  | some v => rfl

theorem bitsFrom {high bound : Nat} (count : Nat) (h : high < bound) :
    (Decoder.bitsFrom high count).Ensures (· < bound * 2 ^ count) := by
  induction count generalizing high bound with
  | zero => rw [Nat.pow_zero, Nat.mul_one]; exact h
  | succ count ih =>
    intro b
    -- a bit doubles the bound along with the number
    have digit : b.toNat ≤ 1 := Bool.toNat_le b
    refine (ih (show 2 * high + b.toNat < 2 * bound by omega)).mono fun v hv => ?_
    rwa [Nat.pow_succ', ← Nat.mul_assoc, Nat.mul_comm bound 2]

theorem bits (count : Nat) : (Decoder.bits count).Ensures (· < 2 ^ count) := by
  have all := bitsFrom count (show 0 < 1 by decide)
  rwa [Nat.one_mul] at all

theorem require (element : Element) (low high value : Int) :
    (Decoder.require element low high value).Ensures fun _ => low ≤ value ∧ value ≤ high := by
  rw [Decoder.require]
  split
  · assumption
  · trivial

end Ensures

end Hevc.Decoder
