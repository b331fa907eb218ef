import Hevc.Proofs.Sink
import Hevc.Proofs.Source

/-!
# Writing on after a refusal

A sink may refuse any attempt, for once or for good, and a packer in front of it may be written to
all the same. What it took has then arrived or is pending, bit by bit. The byte that was refused
is pending with all its eight bits: it is offered again before anything else is written, but nothing
is left to be padded, so that a packer that is finished then reports success and the byte is lost.

What has arrived in an escaped sink is what can be read of its bytes. An escape byte may have
arrived without the byte that it was for; no payload is read of it, and the byte follows it when it
is offered again. Such a sink does not say how many bytes it took of a write that failed, so these
arrive without being counted.

* `put_cases`, `write_cases` — what arrives of a byte, and of bytes in a row
* `advances_write` — what one item adds, whether or not its write fails
* `carried_writeEach` — what items in a row add
* `delivers_writeEach` — what has arrived after finishing, behind any refusals
* `finish_loses_refused` — the smallest run that loses a byte
-/

namespace Hevc

namespace Sink

/-- A sink that refuses the attempts that it is told to. -/
def refusing (coding : Coding) (refuses : Nat → Bool) (fault : Fault) : Sink :=
  { unbounded coding with refuses, fault }

/-! ## What can be read of a sink -/

/-- What can be read of the bytes that arrived. -/
def payload (s : Sink) : List UInt8 := (Source.ofBytes s.coding s.bytes).payload

/-- What will be read of the bytes that arrive next. -/
def ahead (s : Sink) (more : List UInt8) : List UInt8 :=
  { Source.ofBytes s.coding more with zeros := s.zeros }.payload

/-- The zero bytes that a sink counts are those that a reader of its bytes has passed. -/
def InStep (s : Sink) : Prop :=
  ∀ more, (Source.ofBytes s.coding (s.bytes ++ more)).payload = s.payload ++ s.ahead more

theorem payload_of_plain {s : Sink} (h : s.coding = .plain) : s.payload = s.bytes := by
  rw [payload, h]
  rfl

theorem ahead_nil (s : Sink) : s.ahead [] = [] := by
  unfold ahead Source.payload Source.ofBytes
  cases s.coding <;> rfl

theorem inStep_refusing (coding : Coding) (refuses : Nat → Bool) (fault : Fault) :
    (refusing coding refuses fault).InStep := by
  cases coding <;> exact fun _ => rfl

/-- An escape byte is passed over. -/
theorem ahead_escape {s : Sink} (escaped : s.coding = .escaped) (due : 2 ≤ s.zeros)
    (more : List UInt8) : s.ahead (escapeByte :: more) = { s with zeros := 0 }.ahead more := by
  simp only [ahead, Source.ofBytes, Source.payload, escaped]
  exact stripFrom_cons_escape ⟨due, rfl⟩ more

/-- Any other byte is read. -/
theorem ahead_cons {s : Sink} {b : UInt8}
    (free : ¬(s.coding = .escaped ∧ 2 ≤ s.zeros ∧ b = escapeByte)) (more : List UInt8) :
    s.ahead (b :: more) = b :: { s with zeros := zeroRun s.zeros b }.ahead more := by
  cases coding : s.coding with
  | plain => simp only [ahead, Source.ofBytes, Source.payload, coding]
  | escaped =>
    simp only [ahead, Source.ofBytes, Source.payload, coding]
    exact stripFrom_cons (fun both => free ⟨coding, both⟩) more

/-! ## What arrives -/

/-- A sink to which some payload was added. -/
structure Took (s : Sink) (front : List UInt8) (s' : Sink) : Prop where
  coding : s'.coding = s.coding
  refuses : s'.refuses = s.refuses
  inStep : s'.InStep
  payload : s'.payload = s.payload ++ front

theorem Took.trans {s s' s'' : Sink} {xs ys : List UInt8} (first : s.Took xs s')
    (second : s'.Took ys s'') : s.Took (xs ++ ys) s'' :=
  ⟨second.coding.trans first.coding, second.refuses.trans first.refuses, second.inStep, by
    rw [second.payload, first.payload, List.append_assoc]⟩

/-- Bytes arrive, and `front` is what is read of them. -/
theorem took_arrived {s : Sink} (h : s.InStep) (arrived front : List UInt8) (zeros attempts : Nat)
    (reads : ∀ more, s.ahead (arrived ++ more) = front ++ { s with zeros }.ahead more) :
    s.Took front { s with attempts, received := arrived.reverse ++ s.received, zeros } := by
  have bytes : ({ s with attempts, received := arrived.reverse ++ s.received, zeros } : Sink).bytes
      = s.bytes ++ arrived := by
    simp [Sink.bytes]
  have payload :
      ({ s with attempts, received := arrived.reverse ++ s.received, zeros } : Sink).payload
        = s.payload ++ front := by
    have read := reads []
    rw [List.append_nil, ahead_nil, List.append_nil] at read
    rw [Sink.payload, bytes, ← read]
    exact h arrived
  refine ⟨rfl, rfl, fun more => ?_, payload⟩
  rw [payload, bytes, List.append_assoc, List.append_assoc]
  exact (h (arrived ++ more)).trans (congrArg (s.payload ++ ·) (reads more))

/-- Nothing arrives. -/
theorem took_nothing {s : Sink} (h : s.InStep) (attempts : Nat) :
    s.Took [] { s with attempts } :=
  took_arrived h [] [] s.zeros attempts fun _ => rfl

/-- A byte that is no escape byte arrives. -/
theorem took_byte {s : Sink} (h : s.InStep) {b : UInt8}
    (free : ¬(s.coding = .escaped ∧ 2 ≤ s.zeros ∧ b = escapeByte)) (attempts : Nat) :
    s.Took [b]
      { s with attempts, received := b :: s.received, zeros := zeroRun s.zeros b } :=
  took_arrived h [b] [b] (zeroRun s.zeros b) attempts (ahead_cons free)

/-- An escape byte arrives, of which nothing is read. -/
theorem took_escape {s : Sink} (h : s.InStep) (escaped : s.coding = .escaped) (due : 2 ≤ s.zeros)
    (attempts : Nat) :
    s.Took [] { s with attempts, received := escapeByte :: s.received, zeros := 0 } :=
  took_arrived h [escapeByte] [] 0 attempts (ahead_escape escaped due)

/-- The last attempt was refused. -/
def RefusedLast (refuses : Nat → Bool) (s : Sink) : Prop :=
  ∃ attempt, s.attempts = attempt + 1 ∧ refuses attempt = true

/-- A byte is offered that needs no escape byte where it stands. -/
theorem offerCounted_cases {s : Sink} (h : s.InStep) {b : UInt8}
    (free : ¬(s.coding = .escaped ∧ 2 ≤ s.zeros ∧ b = escapeByte)) :
    (∃ s', s.offerCounted b = (.ok (), s') ∧ s.Took [b] s' ∧ s'.attempts = s.attempts + 1)
      ∨ ∃ s', s.offerCounted b = (.error s.fault, s') ∧ s.Took [] s' ∧ s'.RefusedLast s.refuses
        ∧ s'.attempts = s.attempts + 1 := by
  rw [offerCounted, offer]
  cases refused : s.refuses s.attempts with
  | true => exact .inr ⟨_, rfl, took_nothing h _, ⟨_, rfl, refused⟩, rfl⟩
  | false => exact .inl ⟨_, rfl, took_byte h free _, rfl⟩

/-- One byte either arrives or is refused. -/
theorem put_cases {s : Sink} (h : s.InStep) (b : UInt8) :
    (∃ s', s.put b = (.ok (), s') ∧ s.Took [b] s'
        ∧ (s.coding = .plain → s'.attempts = s.attempts + 1))
      ∨ ∃ s', s.put b = (.error s.fault, s') ∧ s.Took [] s' ∧ s'.RefusedLast s.refuses
        ∧ (s.coding = .plain → s'.attempts = s.attempts + 1) := by
  rw [put]
  split
  · next due =>
    have notPlain : s.coding ≠ .plain := by
      rw [due.1]
      decide
    rw [offer]
    cases refused : s.refuses s.attempts with
    | true =>
      exact .inr ⟨_, rfl, took_nothing h _, ⟨_, rfl, refused⟩, fun plain => absurd plain notPlain⟩
    | false =>
      -- the escape byte stays, whether or not the byte behind it arrives
      have escape := took_escape h due.1 due.2.1 (s.attempts + 1)
      rcases offerCounted_cases escape.inStep (b := b) (by simp) with
        ⟨s', done, took, -⟩ | ⟨s', failed, took, last, -⟩
      · exact .inl ⟨s', done, escape.trans took, fun plain => absurd plain notPlain⟩
      · exact .inr ⟨s', failed, escape.trans took, last, fun plain => absurd plain notPlain⟩
  · next none =>
    have free : ¬(s.coding = .escaped ∧ 2 ≤ s.zeros ∧ b = escapeByte) := by
      rintro ⟨escaped, due, rfl⟩
      exact none ⟨escaped, due, by decide⟩
    rcases offerCounted_cases h free with
      ⟨s', done, took, attempts⟩ | ⟨s', failed, took, last, attempts⟩
    · exact .inl ⟨s', done, took, fun _ => attempts⟩
    · exact .inr ⟨s', failed, took, last, fun _ => attempts⟩

/-- Bytes in a row all arrive, or those in front of the first that is refused; and then the
attempts of a plain sink tell how many these are. -/
theorem write_cases {s : Sink} (h : s.InStep) (data : List UInt8) :
    (∃ s', s.write data = (.ok (), s') ∧ s.Took data s')
      ∨ ∃ fault front s', s.write data = (.error fault, s') ∧ front <+: data ∧ s.Took front s'
          ∧ (s.coding = .plain → s'.attempts = s.attempts + front.length + 1) := by
  induction data generalizing s with
  | nil => exact .inl ⟨s, rfl, took_nothing h s.attempts⟩
  | cons b rest ih =>
    rw [write]
    rcases put_cases h b with ⟨s₁, done, first, attempts⟩ | ⟨s₁, failed, took, -, attempts⟩
    · rw [done]
      rcases ih first.inStep with
        ⟨s', written, took⟩ | ⟨fault, front, s', written, isFront, took, count⟩
      · exact .inl ⟨s', written, first.trans took⟩
      · refine .inr ⟨fault, b :: front, s', written, (List.prefix_cons_inj b).mpr isFront,
          first.trans took, fun plain => ?_⟩
        rw [count (first.coding.trans plain), attempts plain, List.length_cons]
        omega
    · rw [failed]
      exact .inr ⟨s.fault, [], s₁, rfl, List.nil_prefix, took, attempts⟩

end Sink

namespace Packer

variable {coding : Coding} {refusals : Nat → Bool} {strict : Prop} {p : Packer} {xs ys : List Bool}

/-! ## What a packer carries -/

/-- The bits that arrived and those that are pending. -/
def carried (p : Packer) : List Bool :=
  Bits.ofBytes p.sink.payload ++ Bits.ofNat p.pending p.pendingLen

theorem length_carried (p : Packer) :
    p.carried.length = 8 * p.sink.payload.length + p.pendingLen := by
  rw [carried, List.length_append, Bits.length_ofBytes, Bits.length_ofNat]

theorem carried_of_aligned (h : p.pendingLen = 0) : p.carried = Bits.ofBytes p.sink.payload := by
  rw [carried, h]
  exact List.append_nil _

/-- A packer in front of a sink of a coding that refuses certain attempts. -/
structure Intact (coding : Coding) (refusals : Nat → Bool) (p : Packer) : Prop where
  coding : p.sink.coding = coding
  refuses : p.sink.refuses = refusals
  inStep : p.sink.InStep
  room : p.pendingLen ≤ 8

/-- Eight bits are pending only after the attempt to hand them over was refused. -/
structure Sound (coding : Coding) (refusals : Nat → Bool) (p : Packer) : Prop
    extends Intact coding refusals p where
  refused : p.pendingLen = 8 → p.sink.RefusedLast refusals

theorem Intact.sound (h : p.Intact coding refusals) (short : p.pendingLen < 8) :
    p.Sound coding refusals :=
  ⟨h, fun full => absurd full (Nat.ne_of_lt short)⟩

/-- A packer stays intact when its sink takes some bytes. -/
theorem Intact.took (h : p.Intact coding refusals) {sink : Sink} {front : List UInt8}
    (took : p.sink.Took front sink) {pending pendingLen written : Nat} (room : pendingLen ≤ 8) :
    Intact coding refusals { sink, pending, pendingLen, written } :=
  ⟨took.coding.trans h.coding, took.refuses.trans h.refuses, took.inStep, room⟩

/-- What an operation that is to write `bits` comes to: their front is added, and all of them if
it succeeds. No more is counted than is added, and no less where the count is `strict`. -/
structure Advances (coding : Coding) (refusals : Nat → Bool) (strict : Prop) (p : Packer)
    (bits : List Bool) (outcome : Except Fault Unit × Packer) : Prop where
  sound : outcome.2.Sound coding refusals
  grown : ∃ front count, front <+: bits ∧ outcome.2.carried = p.carried ++ front
    ∧ (outcome.1 = .ok () → front = bits)
    ∧ outcome.2.written = p.written + count ∧ count ≤ front.length
    ∧ (strict → count = front.length)
  settled : outcome.1 = .ok () → p.pendingLen < 8 ∨ bits ≠ [] → outcome.2.pendingLen < 8

theorem sound_ofSink (coding : Coding) (refusals : Nat → Bool) (fault : Fault) :
    (ofSink (.refusing coding refusals fault)).Sound coding refusals :=
  Intact.sound ⟨rfl, rfl, Sink.inStep_refusing coding refusals fault, Nat.zero_le 8⟩
    (Nat.zero_lt_succ 7)

theorem carried_ofSink (coding : Coding) (refusals : Nat → Bool) (fault : Fault) :
    (ofSink (.refusing coding refusals fault)).carried = [] := by
  cases coding <;> rfl

/-- Nothing is to be written. -/
theorem advances_nothing (h : p.Sound coding refusals) :
    Advances coding refusals strict p [] (.ok (), p) where
  sound := h
  grown := ⟨[], 0, List.prefix_refl _, (List.append_nil _).symm, fun _ => rfl, rfl, Nat.le_refl 0,
    fun _ => rfl⟩
  settled := fun _ open_ => open_.resolve_right fun some => some rfl

/-- Nothing is added by an operation that fails. -/
theorem Sound.advances_failed {q : Packer} (sound : q.Sound coding refusals)
    (same : q.carried = p.carried) (written : q.written = p.written) (fault : Fault)
    (bits : List Bool) : Advances coding refusals strict p bits (.error fault, q) where
  sound := sound
  grown := ⟨[], 0, List.nil_prefix, same.trans (List.append_nil _).symm, (fun ok => by cases ok),
    written, Nat.le_refl 0, fun _ => rfl⟩
  settled := fun ok => by cases ok

/-- Writing is refused as a whole. -/
theorem advances_refused (h : p.Sound coding refusals) (fault : Fault) (bits : List Bool) :
    Advances coding refusals strict p bits (.error fault, p) :=
  h.advances_failed rfl rfl fault bits

/-- Operations one after the other. -/
theorem Advances.andThen {f g : Packer → Except Fault Unit × Packer}
    (hf : Advances coding refusals strict p xs (f p))
    (hg : ∀ ⦃q⦄, q.Sound coding refusals → Advances coding refusals strict q ys (g q)) :
    Advances coding refusals strict p (xs ++ ys)
      (match f p with
        | (.ok _, q) => g q
        | (.error fault, q) => (.error fault, q)) := by
  obtain ⟨sound, ⟨front, count, isFront, grown, whole, written, few, all⟩, settled⟩ := hf
  generalize f p = first at sound grown whole written settled ⊢
  rcases first with ⟨fault | _, q⟩
  · -- the second is not tried
    exact ⟨sound, ⟨front, count, isFront.trans (List.prefix_append _ _), grown,
      (fun ok => by cases ok), written, few, all⟩, fun ok => by cases ok⟩
  · obtain ⟨sound', ⟨front', count', isFront', grown', whole', written', few', all'⟩, settled'⟩ :=
      hg sound
    obtain rfl := whole rfl
    refine ⟨sound', ⟨front ++ front', count + count',
      (List.prefix_append_right_inj front).mpr isFront', ?_, ?_, ?_, ?_, ?_⟩, ?_⟩
    · rw [grown', grown, List.append_assoc]
    · exact fun ok => congrArg (front ++ ·) (whole' ok)
    · rw [written', written, Nat.add_assoc]
    · rw [List.length_append]
      exact Nat.add_le_add few few'
    · intro yes
      rw [List.length_append, all yes, all' yes]
    · intro ok open_
      refine settled' ok ?_
      by_cases nothing : ys = []
      · rw [nothing, List.append_nil] at open_
        exact .inl (settled rfl open_)
      · exact .inr nothing

/-! ## Single bits -/

/-- The pending byte is handed over, or stays because it was refused. Either way nothing is
added. -/
theorem settle_of_intact (h : p.Intact coding refusals) :
    p.settle.2.Sound coding refusals ∧ p.settle.2.carried = p.carried
      ∧ p.settle.2.written = p.written ∧ (p.settle.1 = .ok () → p.settle.2.pendingLen < 8) := by
  have room := h.room
  rw [settle]
  by_cases full : p.pendingLen = 8
  · rw [if_pos full]
    rcases Sink.put_cases h.inStep (UInt8.ofNat p.pending) with
      ⟨s, done, took, -⟩ | ⟨s, failed, took, last, -⟩
    · have same : Bits.ofBytes s.payload ++ [] = p.carried := by
        rw [carried, took.payload, Bits.ofBytes_append, Bits.ofBytes_cons, Bits.ofByte_ofNat, full,
          Bits.ofBytes_nil, List.append_nil, List.append_nil]
      have short : 0 < 8 := Nat.zero_lt_succ 7
      rw [done]
      exact ⟨(h.took took (Nat.zero_le 8)).sound short, same, rfl, fun _ => short⟩
    · have same : s.payload = p.sink.payload := took.payload.trans (List.append_nil _)
      rw [failed]
      exact ⟨⟨h.took took room, fun _ => h.refuses ▸ last⟩, by rw [carried, carried, same], rfl,
        fun ok => by cases ok⟩
  · have short : p.pendingLen < 8 := Nat.lt_of_le_of_ne room full
    rw [if_neg full]
    exact ⟨h.sound short, rfl, rfl, fun _ => short⟩

theorem intact_add (h : p.Intact coding refusals) (room : p.pendingLen < 8) (b : Bool) :
    (p.add b).Intact coding refusals ∧ (p.add b).carried = p.carried ++ [b] := by
  have low : Bits.ofNat (2 * p.pending + b.toNat) 1 = [b] := by
    cases b <;> simp [Bits.ofNat, Nat.testBit_zero]
  have high : (2 * p.pending + b.toNat) / 2 ^ 1 = p.pending := by
    have := Bool.toNat_le b
    omega
  refine ⟨⟨h.coding, h.refuses, h.inStep, room⟩, ?_⟩
  show _ ++ Bits.ofNat (2 * p.pending + b.toNat) (p.pendingLen + 1) = _
  rw [Bits.ofNat_add, low, high, carried, List.append_assoc]
  rfl

/-- A bit is added behind a byte that is still pending, unless that is refused again. -/
theorem advances_putBit (h : p.Sound coding refusals) (b : Bool) :
    Advances coding refusals strict p [b] (p.putBit b) := by
  obtain ⟨sound, same, written, open_⟩ := settle_of_intact h.toIntact
  rw [putBit]
  generalize p.settle = first at sound same written open_ ⊢
  rcases first with ⟨fault | _, q⟩
  · exact sound.advances_failed same written fault [b]
  · obtain ⟨intact, grown⟩ := intact_add sound.toIntact (open_ rfl) b
    obtain ⟨sound', same', written', open_'⟩ := settle_of_intact intact
    -- the bit counts, even if the byte that it completes is refused
    have counted : (q.add b).settle.2.written = p.written + 1 :=
      written'.trans (congrArg (· + 1) written)
    exact ⟨sound', ⟨[b], 1, List.prefix_refl _, by rw [same', grown, same], fun _ => rfl, counted,
      Nat.le_refl 1, fun _ => rfl⟩, fun ok _ => open_' ok⟩

/-! ## Operations -/

theorem advances_putBits (h : p.Sound coding refusals) (value count : Nat) :
    Advances coding refusals strict p (Bits.ofNat value count) (p.putBits value count) := by
  induction count generalizing p with
  | zero => exact advances_nothing h
  | succ count ih => exact (advances_putBit h (value.testBit count)).andThen fun _ next => ih next

theorem advances_writeBits (h : p.Sound coding refusals) (value count : Nat) :
    Advances coding refusals strict p (Bits.ofNat value (min count 64))
      (p.writeBits value count) := by
  rw [writeBits]
  split
  · exact advances_refused h _ _
  · split
    · exact advances_refused h _ _
    · exact advances_putBits h value (min count 64)

theorem advances_writeOctets (h : p.Sound coding refusals) (data : List UInt8) :
    Advances coding refusals strict p (Bits.ofBytes data) (p.writeOctets data) := by
  induction data generalizing p with
  | nil => exact advances_nothing h
  | cons b rest ih => exact (advances_writeBits h b.toNat 8).andThen fun _ next => ih next

/-- An aligned packer whose sink took some bytes, and that counted some of them. -/
theorem sound_passed (h : p.Sound coding refusals) (aligned : p.pendingLen = 0) {sink : Sink}
    {front : List UInt8} (took : p.sink.Took front sink) (written : Nat) :
    ({ p with sink, written } : Packer).Sound coding refusals
      ∧ ({ p with sink, written } : Packer).carried = p.carried ++ Bits.ofBytes front := by
  have short : p.pendingLen < 8 := by omega
  refine ⟨(h.took took h.room).sound short, ?_⟩
  rw [carried_of_aligned aligned, carried_of_aligned (by exact aligned), took.payload,
    Bits.ofBytes_append]

/-- Bytes that go straight to a plain sink are counted as far as they arrive. -/
theorem advances_passOn (h : p.Sound coding refusals) (aligned : p.pendingLen = 0)
    (data : List UInt8) :
    Advances coding refusals (coding = .plain) p (Bits.ofBytes data) (p.passOn data) := by
  rcases Sink.write_cases h.inStep data with
    ⟨sink, written, took⟩ | ⟨fault, front, sink, written, ⟨rest, split⟩, took, attempts⟩
  · obtain ⟨sound, grown⟩ := sound_passed h aligned took (p.written + 8 * data.length)
    rw [passOn, written]
    refine ⟨sound, ⟨_, _, List.prefix_refl _, grown, fun _ => rfl, rfl, ?_, fun _ => ?_⟩,
      fun _ _ => ?_⟩
    · exact Nat.le_of_eq (Bits.length_ofBytes data).symm
    · exact (Bits.length_ofBytes data).symm
    · show p.pendingLen < 8
      omega
  · have isFront : Bits.ofBytes front <+: Bits.ofBytes data :=
      ⟨Bits.ofBytes rest, by rw [← Bits.ofBytes_append, split]⟩
    have failed : ∀ arrived ≤ front.length, (coding = .plain → arrived = front.length) →
        Advances coding refusals (coding = .plain) p (Bits.ofBytes data)
          (.error fault, { p with sink, written := p.written + 8 * arrived }) := by
      intro arrived few all
      obtain ⟨sound, grown⟩ := sound_passed h aligned took (p.written + 8 * arrived)
      refine ⟨sound, ⟨_, _, isFront, grown, (fun ok => by cases ok), rfl, ?_, fun plain => ?_⟩,
        fun ok => by cases ok⟩
      · rw [Bits.length_ofBytes]
        exact Nat.mul_le_mul_left 8 few
      · rw [Bits.length_ofBytes, all plain]
    rw [passOn, written]
    dsimp only
    cases kind : p.sink.coding with
    | plain =>
      have arrived : sink.attempts - p.sink.attempts - 1 = front.length := by
        rw [attempts kind]
        omega
      exact failed _ (Nat.le_of_eq arrived) fun _ => arrived
    | escaped =>
      -- such a sink does not say how many bytes arrived
      refine failed 0 (Nat.zero_le _) fun plain => ?_
      rw [← h.coding, kind] at plain
      exact absurd plain (by decide)

theorem Advances.of_imp {strict' : Prop} {bits : List Bool} {outcome : Except Fault Unit × Packer}
    (h : Advances coding refusals strict p bits outcome) (imp : strict' → strict) :
    Advances coding refusals strict' p bits outcome := by
  obtain ⟨sound, ⟨front, count, isFront, grown, whole, written, few, all⟩, settled⟩ := h
  exact ⟨sound, ⟨front, count, isFront, grown, whole, written, few, all ∘ imp⟩, settled⟩

theorem advances_writeBytes (h : p.Sound coding refusals) (data : List UInt8) :
    Advances coding refusals (coding = .plain) p (Bits.ofBytes data) (p.writeBytes data) := by
  rw [writeBytes]
  split
  · next aligned => exact advances_passOn h (of_decide_eq_true aligned) data
  · exact advances_writeOctets h data

/-- Aligning adds the zeros that the pending bits are short of. A refused byte is short of none. -/
theorem advances_align (h : p.Sound coding refusals) :
    Advances coding refusals strict p (List.replicate ((8 - p.pendingLen) % 8) false) p.align := by
  have room := h.room
  rw [align]
  split
  · next aligned =>
    rw [show p.pendingLen = 0 from of_decide_eq_true aligned]
    exact advances_nothing h
  · next other =>
    have some : p.pendingLen ≠ 0 := fun none => other (decide_eq_true none)
    have zeros : Advances coding refusals strict p _ _ :=
      advances_writeBits h 0 (8 - p.pendingLen)
    rw [Bits.ofNat_zero, Nat.min_eq_left (by omega)] at zeros
    rwa [Nat.mod_eq_of_lt (show 8 - p.pendingLen < 8 by omega)]

theorem advances_writeUe (h : p.Sound coding refusals) (value : Nat) :
    Advances coding refusals strict p (Item.codeBits value) (p.writeUe value) := by
  rw [writeUe]
  split
  · exact advances_refused h _ _
  · next fits =>
    have short : (value + 1).log2 < 64 := by
      rw [Nat.one_shiftLeft] at fits
      exact (Nat.log2_lt (Nat.succ_ne_zero value)).mpr (Nat.lt_of_not_le fits)
    have zeros : Advances coding refusals strict p _ _ :=
      advances_writeBits h 0 (value + 1).log2
    rw [Nat.min_eq_left (Nat.le_of_lt short)] at zeros
    refine zeros.andThen fun q next => ?_
    have digits : Advances coding refusals strict q _ _ :=
      advances_writeBits next (value + 1) ((value + 1).log2 + 1)
    rwa [Nat.min_eq_left short] at digits

theorem advances_writeSe (h : p.Sound coding refusals) (value : Int) :
    Advances coding refusals strict p (Item.codeBits (placeOf value)) (p.writeSe value) := by
  by_cases fits : placeOf value < 2 ^ 64
  · rw [writeSe_of_lt fits]
    exact advances_writeUe h (placeOf value)
  · rw [writeSe, Word.unsigned?, Nat.one_shiftLeft, if_neg fits]
    exact advances_refused h _ _

/-! ## Items in a row -/

/-- The bits that an item is to add to a packer. -/
def bitsOf (p : Packer) : Item → List Bool
  | .bits value count => Bits.ofNat value (min count 64)
  | .bytes data => Bits.ofBytes data
  | .ue value => Item.codeBits value
  | .se value => Item.codeBits (placeOf value)
  | .align => List.replicate ((8 - p.pendingLen) % 8) false
  | .refuse _ => []

theorem advances_write (h : p.Sound coding refusals) (item : Item) :
    Advances coding refusals (coding = .plain ∨ ∀ data, item ≠ .bytes data) p (p.bitsOf item)
      (p.write item) := by
  cases item with
  | bits value count => exact advances_writeBits h value count
  | bytes data =>
    exact (advances_writeBytes h data).of_imp fun either =>
      either.resolve_right fun other => other data rfl
  | ue value => exact advances_writeUe h value
  | se value => exact advances_writeSe h value
  | align => exact advances_align h
  | refuse fault => exact advances_refused h fault []

/-- A packer after items in a row, whichever of them fail. -/
def writeEach : List Item → Packer → Packer
  | [], p => p
  | item :: items, p => writeEach items (p.write item).2

/-- The bits of an item that were taken: those in front that arrived or are pending now. -/
def taken (p : Packer) (item : Item) : List Bool :=
  (p.bitsOf item).take ((p.write item).2.carried.length - p.carried.length)

/-- The bits of an item that were counted: as many in front as the count grew by. -/
def counted (p : Packer) (item : Item) : List Bool :=
  (p.bitsOf item).take ((p.write item).2.written - p.written)

/-- The bits of items in a row that were taken. -/
def takenEach : List Item → Packer → List Bool
  | [], _ => []
  | item :: items, p => p.taken item ++ takenEach items (p.write item).2

/-- The bits of items in a row that were counted. -/
def countedEach : List Item → Packer → List Bool
  | [], _ => []
  | item :: items, p => p.counted item ++ countedEach items (p.write item).2

/-- What is added by an item is the front of its bits, and what is counted is the front of that. -/
theorem carried_write (h : p.Sound coding refusals) (item : Item) :
    (p.write item).2.carried = p.carried ++ p.taken item
      ∧ (p.write item).2.written = p.written + (p.counted item).length
      ∧ p.counted item <+: p.taken item
      ∧ (coding = .plain ∨ (∀ data, item ≠ .bytes data) → p.counted item = p.taken item) := by
  obtain ⟨-, ⟨front, count, isFront, grown, -, written, few, all⟩, -⟩ := advances_write h item
  have length : (p.write item).2.carried.length - p.carried.length = front.length := by
    rw [grown, List.length_append, Nat.add_sub_cancel_left]
  have taken : p.taken item = front := by
    rw [Packer.taken, length, ← List.prefix_iff_eq_take.mp isFront]
  have counted : p.counted item = front.take count := by
    rw [Packer.counted, written, Nat.add_sub_cancel_left, List.prefix_iff_eq_take.mp isFront,
      List.take_take, Nat.min_eq_left few]
  rw [taken, counted]
  refine ⟨grown, ?_, List.take_prefix count front, fun either => ?_⟩
  · rw [written, List.length_take_of_le few]
  · rw [all either, List.take_length]

theorem carried_writeEach (h : p.Sound coding refusals) (items : List Item) :
    (p.writeEach items).Sound coding refusals
      ∧ (p.writeEach items).carried = p.carried ++ p.takenEach items
      ∧ (p.writeEach items).written = p.written + (p.countedEach items).length
      ∧ (p.countedEach items).Sublist (p.takenEach items)
      ∧ (coding = .plain ∨ (∀ data, .bytes data ∉ items) →
          p.countedEach items = p.takenEach items) := by
  induction items generalizing p with
  | nil => exact ⟨h, (List.append_nil _).symm, rfl, List.Sublist.refl _, fun _ => rfl⟩
  | cons item items ih =>
    obtain ⟨carried, written, front, all⟩ := carried_write h item
    obtain ⟨sound', carried', written', among', all'⟩ := ih (advances_write h item).sound
    refine ⟨sound', ?_, ?_, front.sublist.append among', fun either => ?_⟩
    · rw [writeEach, carried', carried, takenEach, List.append_assoc]
    · rw [writeEach, written', written, countedEach, List.length_append, Nat.add_assoc]
    · have here : coding = .plain ∨ ∀ data, item ≠ .bytes data :=
        either.imp_right fun none data same => none data (same ▸ List.mem_cons_self)
      have behind : coding = .plain ∨ ∀ data, .bytes data ∉ items :=
        either.imp_right fun none data mem => none data (List.mem_cons_of_mem _ mem)
      rw [countedEach, takenEach, all here, all' behind]

/-! ## Finishing -/

/-- What is promised of a packer that took certain bits and counted some of them. -/
structure Delivers (coding : Coding) (refusals : Nat → Bool) (taken counted : List Bool)
    (p : Packer) : Prop where
  written : p.written = counted.length
  among : counted.Sublist taken
  room : p.pendingLen ≤ 8
  /-- A whole byte is pending only when the last attempt was refused. -/
  refused : p.pendingLen = 8 → p.sink.RefusedLast refusals
  /-- With fewer bits pending, finishing succeeds only if all bits arrived, and zeros behind them
  up to the next byte. -/
  pads : p.pendingLen < 8 → p.finish.1 = .ok () →
    p.finish.2.payload.length = (taken.length + 7) / 8
      ∧ Bits.ofBytes p.finish.2.payload
          = taken ++ List.replicate (8 * ((taken.length + 7) / 8) - taken.length) false
  /-- With a whole byte pending, finishing succeeds and that byte never arrives. -/
  loses : p.pendingLen = 8 → p.finish = (.ok (), p.sink)
    ∧ taken = Bits.ofBytes p.sink.payload ++ Bits.ofNat p.pending 8
  /-- What is read of a plain sink are its bytes. -/
  plain : coding = .plain → p.finish.2.payload = p.finish.2.bytes

theorem Sound.delivers (h : p.Sound coding refusals) {counted : List Bool}
    (written : p.written = counted.length) (among : counted.Sublist p.carried) :
    Delivers coding refusals p.carried counted p where
  written := written
  among := among
  room := h.room
  refused := h.refused
  pads := by
    intro short ok
    have step : Advances coding refusals True p _ _ := advances_align h
    obtain ⟨front, -, -, grown, whole, -⟩ := step.grown
    obtain rfl := whole ok
    have open_ := step.settled ok (.inl short)
    have total := congrArg List.length grown
    rw [List.length_append, List.length_replicate, length_carried, length_carried] at total
    -- the padding makes the bits a multiple of eight, so none of them is pending
    have aligned : p.align.2.pendingLen = 0 := by omega
    have bytes : p.align.2.sink.payload.length = (p.carried.length + 7) / 8 := by
      rw [length_carried]
      omega
    refine ⟨bytes, ?_⟩
    have padding : 8 * ((p.carried.length + 7) / 8) - p.carried.length
        = (8 - p.pendingLen) % 8 := by
      rw [length_carried]
      omega
    rw [padding, ← grown, carried_of_aligned aligned]
    rfl
  loses := by
    intro full
    refine ⟨?_, by rw [carried, full]⟩
    have unaligned : p.isAligned = false := decide_eq_false (by omega)
    have nothing : p.writeBits 0 0 = (.ok (), p) := by
      rw [writeBits, if_neg (by decide), if_neg (by exact fun both => absurd both.2 (by decide))]
      rfl
    rw [finish, align, unaligned, if_neg Bool.false_ne_true, full, Nat.sub_self, nothing]
  plain := by
    intro same
    have step : Advances coding refusals True p _ _ := advances_align h
    exact Sink.payload_of_plain (step.sound.coding.trans same)

/-- Behind any refusals and any items, those after a failure included, the bits that were taken
have arrived or are pending, and the bits that were counted are among them. They are the same,
unless bytes go to an escaped sink that fails in the middle of them. Finishing delivers them all,
unless the last byte was refused. -/
theorem delivers_writeEach (coding : Coding) (refusals : Nat → Bool) (fault : Fault)
    (items : List Item) :
    Delivers coding refusals ((ofSink (.refusing coding refusals fault)).takenEach items)
        ((ofSink (.refusing coding refusals fault)).countedEach items)
        ((ofSink (.refusing coding refusals fault)).writeEach items)
      ∧ (coding = .plain ∨ (∀ data, .bytes data ∉ items) →
          (ofSink (.refusing coding refusals fault)).countedEach items
            = (ofSink (.refusing coding refusals fault)).takenEach items) := by
  obtain ⟨sound, carried, written, among, all⟩ :=
    carried_writeEach (sound_ofSink coding refusals fault) items
  rw [carried_ofSink, List.nil_append] at carried
  refine ⟨?_, all⟩
  rw [← carried] at among ⊢
  exact sound.delivers (written.trans (Nat.zero_add _)) among

/-- Three bytes that need an escape byte, and three bits behind them. The third byte is refused
once, when its escape byte has arrived. -/
def escapedItems : List Item := [.bits 0 16, .bits 1 8, .bits 5 3]

/-- The next write offers the byte again, without another escape byte. -/
theorem delivers_writeEach_escaped :
    ((ofSink (.refusing .escaped (· == 3) .sinkFull)).writeEach escapedItems).pendingLen < 8
      ∧ ((ofSink (.refusing .escaped (· == 3) .sinkFull)).writeEach escapedItems).finish.1 = .ok ()
      ∧ ((ofSink (.refusing .escaped (· == 3) .sinkFull)).writeEach escapedItems).finish.2.bytes
          = [0x00, 0x00, 0x03, 0x01, 0xa0]
      ∧ Bits.ofBytes
          ((ofSink (.refusing .escaped (· == 3) .sinkFull)).writeEach escapedItems).finish.2.payload
        = (ofSink (.refusing .escaped (· == 3) .sinkFull)).countedEach escapedItems
            ++ List.replicate 5 false := by
  obtain ⟨delivers, all⟩ := delivers_writeEach .escaped (· == 3) .sinkFull escapedItems
  have same := all (.inr (by simp [escapedItems]))
  have short : ((ofSink (.refusing .escaped (· == 3) .sinkFull)).writeEach escapedItems).pendingLen
      < 8 := by decide
  rw [same]
  exact ⟨short, rfl, by decide, (delivers.pads short rfl).2⟩

/-- The sink refuses the only byte that is written. The packer then reports eight pending bits, and
finishing it succeeds with a sink that received nothing. -/
theorem finish_loses_refused :
    ((ofSink (.limited .plain 0)).write (.bits 0xff 8)).1 = .error .sinkFull
      ∧ ((ofSink (.limited .plain 0)).writeEach [.bits 0xff 8]).pendingLen = 8
      ∧ ((ofSink (.limited .plain 0)).writeEach [.bits 0xff 8]).written = 8
      ∧ ((ofSink (.limited .plain 0)).writeEach [.bits 0xff 8]).finish.1 = .ok ()
      ∧ ((ofSink (.limited .plain 0)).writeEach [.bits 0xff 8]).finish.2.bytes = [] :=
  ⟨rfl, by decide, by decide, rfl, by decide⟩

end Packer

end Hevc
