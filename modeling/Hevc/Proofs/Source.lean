import Hevc.Bits.Source

/-!
# What a source still holds

A source is seen through the payload that it has yet to hand out: the rest of the buffer, less
its escape bytes. Every operation acts on that list in the plain way, so nothing above this module
has to know of escape bytes.

* `next_fst`, `payload_next` — the next byte is the head of the payload and leaves its tail
* `payload_read`, `read_fst` — a read of several bytes takes a prefix of it
* `payload_escape` — the payload of an escaped buffer is what was escaped
* `taken_advance_plain`, `taken_advance_escape` — how much of the buffer goes with a number of
  bytes of the payload
-/

namespace Hevc

/-! ## Stripping -/

theorem stripFrom_append (zeros : Nat) (done bytes : List UInt8) :
    stripFrom zeros done bytes = done.reverse ++ stripFrom zeros [] bytes := by
  induction bytes generalizing zeros done with
  | nil => simp only [stripFrom, List.reverse_nil, List.append_nil]
  | cons b rest ih =>
    rw [stripFrom, stripFrom]
    split
    · exact ih 0 done
    · rw [ih _ (b :: done), ih _ [b], List.reverse_cons, List.append_assoc]
      rfl

theorem stripFrom_nil (zeros : Nat) : stripFrom zeros [] [] = [] := rfl

theorem stripFrom_cons_escape {zeros : Nat} {b : UInt8} (h : 2 ≤ zeros ∧ b = escapeByte)
    (rest : List UInt8) : stripFrom zeros [] (b :: rest) = stripFrom 0 [] rest := by
  rw [stripFrom, if_pos h]

theorem stripFrom_cons {zeros : Nat} {b : UInt8} (h : ¬(2 ≤ zeros ∧ b = escapeByte))
    (rest : List UInt8) :
    stripFrom zeros [] (b :: rest) = b :: stripFrom (zeroRun zeros b) [] rest := by
  rw [stripFrom, if_neg h, stripFrom_append]
  rfl

theorem length_stripFrom_le (zeros : Nat) (done bytes : List UInt8) :
    (stripFrom zeros done bytes).length ≤ done.length + bytes.length := by
  induction bytes generalizing zeros done with
  | nil => simp [stripFrom]
  | cons b rest ih =>
    rw [stripFrom, List.length_cons]
    split
    · have := ih 0 done
      omega
    · have := ih (zeroRun zeros b) (b :: done)
      rw [List.length_cons] at this
      omega

theorem length_strip_le (nal : List UInt8) : (strip nal).length ≤ nal.length := by
  have := length_stripFrom_le 0 [] nal
  rwa [List.length_nil, Nat.zero_add] at this

/-! ## Escaping -/

theorem escapeFrom_append (zeros : Nat) (done bytes : List UInt8) :
    escapeFrom zeros done bytes = done.reverse ++ escapeFrom zeros [] bytes := by
  induction bytes generalizing zeros done with
  | nil => simp only [escapeFrom, List.reverse_nil, List.append_nil]
  | cons b rest ih =>
    rw [escapeFrom, escapeFrom]
    split
    · rw [ih _ (b :: escapeByte :: done), ih _ [b, escapeByte], List.reverse_cons,
        List.reverse_cons, List.append_assoc, List.append_assoc]
      rfl
    · rw [ih _ (b :: done), ih _ [b], List.reverse_cons, List.append_assoc]
      rfl

theorem escapeFrom_cons_escape {zeros : Nat} {b : UInt8} (h : 2 ≤ zeros ∧ needsEscape b)
    (rest : List UInt8) :
    escapeFrom zeros [] (b :: rest) = escapeByte :: b :: escapeFrom (zeroRun 0 b) [] rest := by
  rw [escapeFrom, if_pos h, escapeFrom_append]
  rfl

theorem escapeFrom_cons {zeros : Nat} {b : UInt8} (h : ¬(2 ≤ zeros ∧ needsEscape b))
    (rest : List UInt8) :
    escapeFrom zeros [] (b :: rest) = b :: escapeFrom (zeroRun zeros b) [] rest := by
  rw [escapeFrom, if_neg h, escapeFrom_append]
  rfl

/-- Stripping what was escaped after the same run of zeros gives it back. -/
theorem stripFrom_escapeFrom (zeros : Nat) (bytes : List UInt8) :
    stripFrom zeros [] (escapeFrom zeros [] bytes) = bytes := by
  induction bytes generalizing zeros with
  | nil => rfl
  | cons b rest ih =>
    -- either an escape byte went in front of `b`, or `b` does not look like one where it stands
    by_cases h : 2 ≤ zeros ∧ needsEscape b
    · rw [escapeFrom_cons_escape h, stripFrom_cons_escape ⟨h.1, rfl⟩,
        stripFrom_cons (by omega), ih]
    · have kept : ¬(2 ≤ zeros ∧ b = escapeByte) := by
        rintro ⟨run, rfl⟩
        exact h ⟨run, by decide⟩
      rw [escapeFrom_cons h, stripFrom_cons kept, ih]

theorem strip_escape (payload : List UInt8) : strip (escape payload) = payload :=
  stripFrom_escapeFrom 0 payload

namespace Source

/-! ## Payloads -/

/-- The bytes that a source has yet to hand out. -/
def payload (s : Source) : List UInt8 :=
  match s.coding with
  | .plain => s.rest
  | .escaped => stripFrom s.zeros [] s.rest

theorem payload_plain (bytes : List UInt8) : (ofBytes .plain bytes).payload = bytes := rfl

theorem payload_escape (bytes : List UInt8) :
    (ofBytes .escaped (escape bytes)).payload = bytes := stripFrom_escapeFrom 0 bytes

/-- A byte that is no escape byte is handed out. -/
theorem next_cons {s : Source} {b : UInt8} {rest : List UInt8} (hr : s.rest = b :: rest)
    (he : s.atEscape b = false) :
    s.next
      = (some b, { s with rest, taken := s.taken + 1, zeros := zeroRun s.zeros b }) := by
  rw [next, hr]
  simp only [he, Bool.false_eq_true, if_false]

theorem atEscape_iff {s : Source} {b : UInt8} :
    s.atEscape b = true ↔ s.coding = .escaped ∧ 2 ≤ s.zeros ∧ b = escapeByte := by
  simp only [atEscape, Bool.and_eq_true, decide_eq_true_eq, and_assoc]

/-- The next byte is the head of the payload, and the source keeps its tail. -/
theorem next_payload (s : Source) :
    s.next.1 = s.payload.head? ∧ s.next.2.payload = s.payload.tail := by
  obtain ⟨coding, rest, taken, zeros⟩ := s
  cases rest with
  | nil => cases coding <;> exact ⟨rfl, rfl⟩
  | cons b rest =>
    cases coding with
    | plain => exact ⟨rfl, rfl⟩
    | escaped =>
      by_cases h : 2 ≤ zeros ∧ b = escapeByte
      · have skips : (Source.mk .escaped (b :: rest) taken zeros).atEscape b = true :=
          atEscape_iff.mpr ⟨rfl, h⟩
        -- an escape byte may be the last byte of all, and a second one cannot follow it
        cases rest with
        | nil =>
          simp only [next, skips, if_true, payload, stripFrom_cons_escape h, stripFrom_nil]
          exact ⟨rfl, rfl⟩
        | cons c rest =>
          simp only [next, skips, if_true, payload, stripFrom_cons_escape h]
          rw [stripFrom_cons (by omega)]
          exact ⟨rfl, rfl⟩
      · have stays : (Source.mk .escaped (b :: rest) taken zeros).atEscape b = false :=
          Bool.eq_false_iff.mpr fun e => h (atEscape_iff.mp e).2
        simp only [next, stays, Bool.false_eq_true, if_false, payload, stripFrom_cons h]
        exact ⟨rfl, rfl⟩

theorem next_fst (s : Source) : s.next.1 = s.payload.head? := (next_payload s).1

theorem payload_next (s : Source) : s.next.2.payload = s.payload.tail := (next_payload s).2

/-! ## Advancing -/

/-- The source after a number of requests for a byte. -/
def advance : Nat → Source → Source
  | 0, s => s
  | count + 1, s => advance count s.next.2

theorem advance_add (m n : Nat) (s : Source) : (s.advance m).advance n = s.advance (m + n) := by
  induction m generalizing s with
  | zero => rw [advance, Nat.zero_add]
  | succ m ih => rw [advance, ih, Nat.succ_add, advance]

theorem payload_advance (count : Nat) (s : Source) :
    (s.advance count).payload = s.payload.drop count := by
  induction count generalizing s with
  | zero => rfl
  | succ count ih => rw [advance, ih, payload_next, List.drop_tail]

/-- A read takes what is there, and with it the source advances. -/
theorem readFrom_eq (got : List UInt8) (count : Nat) (s : Source) :
    (readFrom got count s).1 = got.reverse ++ s.payload.take count
      ∧ (readFrom got count s).2.payload = s.payload.drop count
      ∧ (count ≤ s.payload.length → (readFrom got count s).2 = s.advance count) := by
  induction count generalizing got s with
  | zero => exact ⟨by rw [List.take_zero, List.append_nil]; rfl, rfl, fun _ => rfl⟩
  | succ count ih =>
    -- the payload decides what the request for a byte gave
    have head := next_fst s
    have tail := payload_next s
    rw [readFrom]
    cases hp : s.payload with
    | nil =>
      rw [hp] at head tail
      split
      · next b s' hn => rw [hn] at head; exact absurd head (by simp)
      · next s' hn =>
        rw [hn] at tail
        refine ⟨by simp, ?_, fun h => absurd h (by simp)⟩
        rw [tail, List.tail_nil, List.drop_nil]
    | cons b bytes =>
      rw [hp] at head tail
      split
      · next c s' hn =>
        rw [hn] at head tail
        obtain rfl : c = b := Option.some.inj head
        obtain ⟨first, left, moved⟩ := ih (c :: got) s'
        rw [tail, List.tail_cons] at first left moved
        refine ⟨?_, ?_, fun h => ?_⟩
        · rw [first, List.reverse_cons, List.take_succ_cons, List.append_assoc]
          rfl
        · rw [left, List.drop_succ_cons]
        · rw [moved (by rw [List.length_cons] at h; omega), advance, hn]
      · next s' hn => rw [hn] at head; exact absurd head (by simp)

theorem read_fst (count : Nat) (s : Source) : (s.read count).1 = s.payload.take count :=
  (readFrom_eq [] count s).1

theorem payload_read (count : Nat) (s : Source) :
    (s.read count).2.payload = s.payload.drop count := (readFrom_eq [] count s).2.1

theorem read_snd {count : Nat} {s : Source} (h : count ≤ s.payload.length) :
    (s.read count).2 = s.advance count := (readFrom_eq [] count s).2.2 h

/-! ## How much of the buffer is taken -/

theorem taken_advance_plain {count : Nat} {bytes : List UInt8} (h : count ≤ bytes.length)
    (taken zeros : Nat) :
    ((Source.mk .plain bytes taken zeros).advance count).taken = taken + count := by
  induction count generalizing bytes taken zeros with
  | zero => rfl
  | succ count ih =>
    cases bytes with
    | nil => exact absurd h (by simp)
    | cons b rest =>
      rw [advance, next_cons rfl rfl, ih (by rw [List.length_cons] at h; omega)]
      show taken + 1 + count = taken + (count + 1)
      omega

/-- An escape byte goes with the byte after it. -/
theorem taken_advance_escapeFrom {count : Nat} {bytes : List UInt8} (h : count ≤ bytes.length)
    (taken zeros : Nat) :
    ((Source.mk .escaped (escapeFrom zeros [] bytes) taken zeros).advance count).taken
      = taken + (escapeFrom zeros [] (bytes.take count)).length := by
  induction count generalizing bytes taken zeros with
  | zero => rw [List.take_zero]; rfl
  | succ count ih =>
    cases bytes with
    | nil => exact absurd h (by simp)
    | cons b rest =>
      have room : count ≤ rest.length := by rw [List.length_cons] at h; omega
      rw [advance, List.take_succ_cons]
      by_cases he : 2 ≤ zeros ∧ needsEscape b
      · have skips : ∀ bytes, (Source.mk .escaped bytes taken zeros).atEscape escapeByte = true :=
          fun _ => atEscape_iff.mpr ⟨rfl, he.1, rfl⟩
        rw [escapeFrom_cons_escape he, escapeFrom_cons_escape he]
        -- one request takes the escape byte and the byte behind it
        simp only [next, skips, if_true, List.length_cons]
        rw [ih room]
        omega
      · have stays : ∀ bytes, (Source.mk .escaped bytes taken zeros).atEscape b = false := by
          intro bytes
          refine Bool.eq_false_iff.mpr fun e => he ?_
          obtain ⟨-, run, rfl⟩ := atEscape_iff.mp e
          exact ⟨run, by decide⟩
        rw [escapeFrom_cons he, escapeFrom_cons he, next_cons rfl (stays _), ih room,
          List.length_cons]
        show taken + 1 + _ = taken + (_ + 1)
        omega

/-- Of an escaped buffer goes with a prefix of the payload what the prefix is escaped to. -/
theorem taken_advance_escape {count : Nat} {bytes : List UInt8} (h : count ≤ bytes.length) :
    ((ofBytes .escaped (escape bytes)).advance count).taken
      = (escape (bytes.take count)).length := by
  have all := taken_advance_escapeFrom h 0 0
  rwa [Nat.zero_add] at all

end Source

end Hevc
