import Hevc.ExpGolomb
import Hevc.Proofs.Streaming
import Hevc.Proofs.Taking

/-!
# Requests to a cursor

A cursor may be asked for bits, bytes and codes in any order, and be asked on after it failed. The
place in its byte is always the number of bits counted, modulo eight; and what it counted is what
its source handed out, up to the bits of the last byte that are still to be read, as long as no skip
ended inside its whole bytes. The fast paths for whole bytes are those bits read one by one.

* `keeps_answer`, `keeps_answers` — what one request keeps, and what requests in a row keep
* `Same.answer`, `Same.alike` — cursors that show the same are never told apart
* `skip_alike`, `readExact_alike` — the fast paths against single bits and single bytes
* `requests_exact` — the whole of it, behind any requests
-/

namespace Hevc.Cursor

/-- Something that a cursor is asked for. -/
inductive Request where
  | bit
  | bits (count : Nat)
  | skip (count : Nat)
  | align
  | ue
  | se
  /-- Up to so many bytes. -/
  | read (count : Nat)
  /-- So many bytes, and no fewer. -/
  | readExact (count : Nat)
deriving DecidableEq, Repr

/-- What a request is answered with, unless it fails. -/
inductive Answer where
  | nothing
  | bit (b : Bool)
  | number (n : Nat)
  | signed (n : Int)
  | bytes (data : List UInt8)
deriving DecidableEq, Repr

/-- The answer to a request, and the cursor after it. -/
def answer (request : Request) (c : Cursor) : Except Fault Answer × Cursor :=
  match request with
  | .bit => (c.readBit.1.map .bit, c.readBit.2)
  | .bits count => ((c.readBits count).1.map .number, (c.readBits count).2)
  | .skip count => ((c.skip count).1.map fun _ => .nothing, (c.skip count).2)
  | .align => (.ok .nothing, c.align)
  | .ue => ((Decoder.ue.run c).1.map .number, (Decoder.ue.run c).2)
  | .se => ((Decoder.se.run c).1.map .signed, (Decoder.se.run c).2)
  | .read count => ((c.read count).1.map .bytes, (c.read count).2)
  | .readExact count => ((c.readExact count).1.map .bytes, (c.readExact count).2)

/-- The answers to requests in a row, whichever of them fail, and the cursor after them. -/
def answers : List Request → Cursor → List (Except Fault Answer) × Cursor
  | [], c => ([], c)
  | request :: requests, c =>
    ((c.answer request).1 :: ((c.answer request).2.answers requests).1,
      ((c.answer request).2.answers requests).2)

variable {α β : Type} {coding : Coding} {data : List UInt8} {c c' c'' : Cursor}

/-! ## Counting -/

/-- A cursor over a buffer that counts the bits of its byte. -/
structure Placed (coding : Coding) (data : List UInt8) (c : Cursor) : Prop where
  inside : c.bitPos < 8
  place : c.consumed % 8 = c.bitPos
  onWay : c.source.OnWay coding data

/-- The bits of the bytes that the source handed out are those that were counted, and those of the
last byte that are left. -/
def Counted (coding : Coding) (data : List UInt8) (c : Cursor) : Prop :=
  8 * (c.source.delivered coding data).length = c.consumed + (8 - c.bitPos) % 8

/-- A call that keeps the place of a cursor, and its count unless the call ends inside a run of
whole bytes to be skipped. -/
def Keeps (coding : Coding) (data : List UInt8) (f : Cursor → Except Fault α × Cursor) : Prop :=
  ∀ ⦃c⦄, c.Placed coding data → (f c).2.Placed coding data
    ∧ ((f c).1 ≠ .error .endOfSkip → c.Counted coding data → (f c).2.Counted coding data)

theorem placed_ofBytes (coding : Coding) (data : List UInt8) :
    (ofBytes coding data).Placed coding data :=
  ⟨show 0 < 8 by decide, rfl, Source.onWay_ofBytes coding data⟩

theorem counted_ofBytes (coding : Coding) (data : List UInt8) :
    (ofBytes coding data).Counted coding data := by
  have nothing : (ofBytes coding data).source.delivered coding data = [] := by
    cases coding <;> rfl
  unfold Counted
  rw [nothing]
  show 8 * 0 = 0 + (8 - 0) % 8
  decide

theorem length_delivered {s : Source} (h : s.OnWay coding data) :
    (s.delivered coding data).length + s.payload.length
      = (Source.ofBytes coding data).payload.length := by
  rw [← h.delivered_append, List.length_append]

theorem keeps_done (result : Except Fault α) : Keeps coding data fun c => (result, c) :=
  fun _ placed => ⟨placed, fun _ counted => counted⟩

theorem Keeps.chain {f : Cursor → Except Fault α × Cursor}
    {g : α → Cursor → Except Fault β × Cursor} (hf : Keeps coding data f)
    (hg : ∀ v, Keeps coding data (g v)) : Keeps coding data (chain f g) := by
  intro c placed
  obtain ⟨placed₁, counted₁⟩ := hf placed
  cases found : f c with
  | mk first c₁ =>
    rw [found] at placed₁ counted₁
    cases first with
    | ok v =>
      obtain ⟨placed₂, counted₂⟩ := hg v placed₁
      rw [chain_of_ok found]
      exact ⟨placed₂, fun other counted => counted₂ other (counted₁ (by simp) counted)⟩
    | error fault =>
      rw [chain_of_error found]
      refine ⟨placed₁, fun other => counted₁ fun same => other ?_⟩
      rw [Except.error.inj same]

theorem Keeps.map {f : Cursor → Except Fault α × Cursor} (h : Keeps coding data f) (g : α → β) :
    Keeps coding data fun c => ((f c).1.map g, (f c).2) := by
  rw [map_eq_chain]
  exact h.chain fun v => keeps_done (.ok (g v))

theorem keeps_readBit : Keeps coding data readBit := by
  intro c placed
  have inside := placed.inside
  have place := placed.place
  by_cases aligned : c.bitPos = 0
  · have onWay := placed.onWay.next
    have before := length_delivered placed.onWay
    have after := length_delivered onWay
    cases found : c.source.next with
    | mk first s =>
      rw [found] at onWay after
      cases first with
      | none =>
        -- nothing was handed out, and nothing is counted
        rw [readBit_of_next_none aligned found]
        have none_left := Source.payload_of_next_none (congrArg Prod.fst found)
        have none_left' := Source.payload_of_rest_nil (Source.rest_of_next_none found).1
        rw [none_left] at before
        rw [none_left'] at after
        refine ⟨⟨inside, place, onWay⟩, fun _ counted => ?_⟩
        unfold Counted at counted ⊢
        dsimp only at counted after ⊢
        omega
      | some b =>
        rw [readBit_of_next_some aligned found]
        rw [Source.payload_of_next found, List.length_cons] at before
        refine ⟨⟨show 1 < 8 by decide, ?_, onWay⟩, fun _ counted => ?_⟩
        · show (c.consumed + 1) % 8 = 1
          omega
        · unfold Counted at counted ⊢
          dsimp only at counted after ⊢
          omega
  · rw [readBit_of_not_aligned aligned]
    refine ⟨⟨Nat.mod_lt _ (by decide), ?_, placed.onWay⟩, fun _ counted => ?_⟩
    · show (c.consumed + 1) % 8 = (c.bitPos + 1) % 8
      omega
    · unfold Counted at counted ⊢
      dsimp only at counted ⊢
      omega

theorem keeps_readBitsFrom (high count : Nat) : Keeps coding data (readBitsFrom high count) := by
  induction count generalizing high with
  | zero => exact keeps_done _
  | succ count ih =>
    rw [readBitsFrom_succ]
    exact keeps_readBit.chain fun b => ih _

theorem keeps_dropBits (count : Nat) : Keeps coding data (dropBits count) := by
  induction count with
  | zero => exact keeps_done _
  | succ count ih =>
    rw [dropBits_succ]
    exact keeps_readBit.chain fun _ => ih

/-- What a source hands out of a read is counted by what it has left. -/
theorem length_read {s : Source} (h : s.OnWay coding data) (count : Nat) :
    ((s.read count).2.delivered coding data).length
      = (s.delivered coding data).length + (s.read count).1.length := by
  have before := length_delivered h
  have after := length_delivered (h.read count)
  rw [Source.payload_read, List.length_drop] at after
  rw [Source.read_fst, List.length_take]
  omega

theorem keeps_dropBytes (count : Nat) : Keeps coding data (dropBytes count) := by
  intro c placed
  have inside := placed.inside
  have place := placed.place
  have onWay := placed.onWay.read count
  have handed := length_read placed.onWay count
  unfold dropBytes
  dsimp only
  split
  · exact ⟨⟨inside, place, onWay⟩, fun other => absurd rfl other⟩
  · next enough =>
    have most : (c.source.read count).1.length ≤ count := by
      rw [Source.read_fst]
      exact List.length_take_le _ _
    refine ⟨⟨inside, ?_, onWay⟩, fun _ counted => ?_⟩
    · show (c.consumed + 8 * count) % 8 = c.bitPos
      omega
    · unfold Counted at counted ⊢
      dsimp only at counted ⊢
      omega

theorem keeps_skip (count : Nat) : Keeps coding data (skip count) := by
  intro c placed
  rw [skip_eq_skipFrom]
  exact (keeps_dropBits _).chain
    (fun _ => (keeps_dropBytes _).chain fun _ => keeps_dropBits _) placed

theorem keeps_run (d : Decoder α) : Keeps coding data d.run := by
  induction d with
  | done value => exact keeps_done _
  | fail fault => exact keeps_done _
  | bit next ih =>
    rw [run_bit]
    exact keeps_readBit.chain ih
  | skip count next ih =>
    rw [run_skip]
    exact (keeps_skip count).chain fun _ => ih

theorem keeps_align : Keeps coding data fun c => (.ok (), c.align) := by
  intro c placed
  have inside := placed.inside
  have place := placed.place
  dsimp only
  unfold align
  split
  · exact ⟨placed, fun _ counted => counted⟩
  · next between =>
    have unaligned : c.bitPos ≠ 0 := by simpa [isAligned] using between
    refine ⟨⟨show 0 < 8 by decide, ?_, placed.onWay⟩, fun _ counted => ?_⟩
    · show (c.consumed + (8 - c.bitPos)) % 8 = 0
      omega
    · unfold Counted at counted ⊢
      dsimp only at counted ⊢
      omega

theorem keeps_readOctetsFrom (got : List UInt8) (count : Nat) :
    Keeps coding data (readOctetsFrom got count) := by
  induction count generalizing got with
  | zero => exact keeps_done _
  | succ count ih =>
    rw [readOctetsFrom_succ]
    exact (keeps_readBitsFrom 0 8).chain fun v => ih _

theorem keeps_read (count : Nat) : Keeps coding data (read count) := by
  intro c placed
  unfold read
  split
  · have inside := placed.inside
    have place := placed.place
    have handed := length_read placed.onWay count
    refine ⟨⟨inside, ?_, placed.onWay.read count⟩, fun _ counted => ?_⟩
    · show (c.consumed + 8 * (c.source.read count).1.length) % 8 = c.bitPos
      omega
    · unfold Counted at counted ⊢
      dsimp only at counted ⊢
      omega
  · exact keeps_readOctetsFrom [] count placed

theorem keeps_readExact (count : Nat) : Keeps coding data (readExact count) := by
  rw [readExact_eq_chain]
  exact (keeps_read count).chain fun got => keeps_done _

/-- One request. -/
theorem keeps_answer (request : Request) : Keeps coding data (answer request) := by
  cases request with
  | bit => exact keeps_readBit.map _
  | bits count => exact (keeps_readBitsFrom 0 _).map _
  | skip count => exact (keeps_skip count).map _
  | align => exact keeps_align.map fun _ => Answer.nothing
  | ue => exact (keeps_run _).map _
  | se => exact (keeps_run _).map _
  | read count => exact (keeps_read count).map _
  | readExact count => exact (keeps_readExact count).map _

/-- Requests in a row keep the place, and the count unless one of them ends inside a run of whole
bytes. -/
theorem keeps_answers (requests : List Request) (placed : c.Placed coding data) :
    (c.answers requests).2.Placed coding data
      ∧ (.error .endOfSkip ∉ (c.answers requests).1 → c.Counted coding data →
          (c.answers requests).2.Counted coding data) := by
  induction requests generalizing c with
  | nil => exact ⟨placed, fun _ counted => counted⟩
  | cons request requests ih =>
    obtain ⟨placed', first⟩ := keeps_answer request placed
    obtain ⟨placed'', others⟩ := ih placed'
    refine ⟨placed'', fun never counted => ?_⟩
    obtain ⟨here, later⟩ := not_or.mp (mt List.mem_cons.mpr never)
    exact others later (first (Ne.symm here) counted)

/-! ## Cursors that are not told apart -/

/-- Cursors that stand at the same place and are not told apart by any requests. -/
def Alike (c c' : Cursor) : Prop :=
  ∀ requests, (c.answers requests).1 = (c'.answers requests).1
    ∧ (c.answers requests).2.Same (c'.answers requests).2

/-- A call that does the same to cursors that show the same. -/
def Uniform (f : Cursor → Except Fault α × Cursor) : Prop :=
  ∀ ⦃c c'⦄, c.bitPos < 8 → c.Same c' →
    (f c).1 = (f c').1 ∧ (f c).2.bitPos < 8 ∧ (f c).2.Same (f c').2

theorem Same.isAligned (h : c.Same c') : c'.isAligned = c.isAligned := by
  unfold Cursor.isAligned
  rw [h.bitPos]

/-- Cursors that show the same have the same bits left of their bytes. -/
theorem Same.ahead (h : c.Same c') :
    Bits.ofNat c.current.toNat ((8 - c.bitPos) % 8)
      = Bits.ofNat c'.current.toNat ((8 - c'.bitPos) % 8) := by
  have same : _ ++ _ = _ ++ _ := h.bits
  rw [h.source] at same
  exact List.append_cancel_right same

theorem uniform_done (result : Except Fault α) : Uniform fun c => (result, c) :=
  fun _ _ inside same => ⟨rfl, inside, same⟩

theorem Uniform.chain {f : Cursor → Except Fault α × Cursor}
    {g : α → Cursor → Except Fault β × Cursor} (hf : Uniform f) (hg : ∀ v, Uniform (g v)) :
    Uniform (chain f g) := by
  intro c c' inside same
  obtain ⟨result, inside₁, same₁⟩ := hf inside same
  cases found : f c with
  | mk first c₁ =>
    cases found' : f c' with
    | mk first' c₁' =>
      rw [found, found'] at result same₁
      rw [found] at inside₁
      obtain rfl : first = first' := result
      cases first with
      | ok v =>
        rw [chain_of_ok found, chain_of_ok found']
        exact hg v inside₁ same₁
      | error fault =>
        rw [chain_of_error found, chain_of_error found']
        exact ⟨rfl, inside₁, same₁⟩

theorem Uniform.map {f : Cursor → Except Fault α × Cursor} (hf : Uniform f) (g : α → β) :
    Uniform fun c => ((f c).1.map g, (f c).2) := by
  rw [map_eq_chain]
  exact hf.chain fun v => uniform_done (.ok (g v))

theorem uniform_readBit : Uniform readBit := by
  intro c c' inside same
  refine ⟨?_, (within_readBit inside).1, ?_⟩
  · -- the bit is the first that both show
    have inside' : c'.bitPos < 8 := same.bitPos ▸ inside
    cases ahead : c.bits with
    | nil =>
      obtain ⟨c₁, taken, -⟩ := readBit_nil inside ahead
      obtain ⟨c₁', taken', -⟩ := readBit_nil inside' (same.bits.symm.trans ahead)
      rw [taken, taken']
    | cons b rest =>
      obtain ⟨c₁, taken, -⟩ := readBit_cons inside ahead
      obtain ⟨c₁', taken', -⟩ := readBit_cons inside' (same.bits.symm.trans ahead)
      rw [taken, taken']
  · by_cases aligned : c.bitPos = 0
    · have aligned' : c'.bitPos = 0 := same.bitPos ▸ aligned
      cases found : c.source.next with
      | mk first s =>
        have found' := same.source ▸ found
        cases first with
        | none =>
          rw [readBit_of_next_none aligned found, readBit_of_next_none aligned' found']
          refine ⟨rfl, same.bitPos, same.consumed, ?_⟩
          rw [bits_of_aligned (by exact aligned), bits_of_aligned (by exact aligned')]
        | some b =>
          rw [readBit_of_next_some aligned found, readBit_of_next_some aligned' found',
            same.consumed]
          exact ⟨rfl, rfl, rfl, rfl⟩
    · have aligned' : c'.bitPos ≠ 0 := same.bitPos ▸ aligned
      obtain ⟨left, width⟩ : ∃ left, (8 - c.bitPos) % 8 = left + 1 := ⟨7 - c.bitPos, by omega⟩
      have others := same.ahead
      rw [← same.bitPos, width] at others
      have behind : (8 - (c.bitPos + 1) % 8) % 8 = left := by omega
      rw [readBit_of_not_aligned aligned, readBit_of_not_aligned aligned']
      refine ⟨same.source, congrArg (fun pos => (pos + 1) % 8) same.bitPos,
        congrArg (· + 1) same.consumed, ?_⟩
      show Bits.ofNat c.current.toNat ((8 - (c.bitPos + 1) % 8) % 8) ++ _
        = Bits.ofNat c'.current.toNat ((8 - (c'.bitPos + 1) % 8) % 8) ++ _
      rw [← same.bitPos, ← same.source, behind, (List.cons.inj others).2]

theorem uniform_readBitsFrom (high count : Nat) : Uniform (readBitsFrom high count) := by
  induction count generalizing high with
  | zero => exact uniform_done _
  | succ count ih =>
    rw [readBitsFrom_succ]
    exact uniform_readBit.chain fun b => ih _

theorem uniform_dropBits (count : Nat) : Uniform (dropBits count) := by
  induction count with
  | zero => exact uniform_done _
  | succ count ih =>
    rw [dropBits_succ]
    exact uniform_readBit.chain fun _ => ih

/-- Going on in the source of two cursors that show the same, and counting as much. -/
theorem Same.moved (h : c.Same c') (s : Source) (count : Nat) :
    Same { c with source := s, consumed := c.consumed + count }
      { c' with source := s, consumed := c'.consumed + count } := by
  refine ⟨rfl, h.bitPos, congrArg (· + count) h.consumed, ?_⟩
  exact congrArg (· ++ Bits.ofBytes s.payload) h.ahead

theorem uniform_dropBytes (count : Nat) : Uniform (dropBytes count) := by
  intro c c' inside same
  have moved := same.moved (c.source.read count).2
  unfold dropBytes
  dsimp only
  rw [← same.source]
  split
  · exact ⟨rfl, inside, moved 0⟩
  · exact ⟨rfl, inside, moved (8 * count)⟩

theorem uniform_skip (count : Nat) : Uniform (skip count) := by
  intro c c' inside same
  -- both begin with as many single bits
  rw [skip_eq_skipFrom, skip_eq_skipFrom, same.isAligned, ← same.bitPos]
  exact (uniform_dropBits _).chain
    (fun _ => (uniform_dropBytes _).chain fun _ => uniform_dropBits _) inside same

theorem uniform_run (d : Decoder α) : Uniform d.run := by
  induction d with
  | done value => exact uniform_done _
  | fail fault => exact uniform_done _
  | bit next ih =>
    rw [run_bit]
    exact uniform_readBit.chain ih
  | skip count next ih =>
    rw [run_skip]
    exact (uniform_skip count).chain fun _ => ih

theorem uniform_align : Uniform fun c => (.ok (), c.align) := by
  intro c c' inside same
  refine ⟨rfl, ?_⟩
  dsimp only
  unfold align
  rw [same.isAligned]
  split
  · exact ⟨inside, same⟩
  · refine ⟨show 0 < 8 by decide, same.source, rfl, ?_, ?_⟩
    · show c.consumed + (8 - c.bitPos) = c'.consumed + (8 - c'.bitPos)
      rw [same.consumed, same.bitPos]
    · rw [bits_of_aligned rfl, bits_of_aligned rfl, same.source]

theorem uniform_readOctetsFrom (got : List UInt8) (count : Nat) :
    Uniform (readOctetsFrom got count) := by
  induction count generalizing got with
  | zero => exact uniform_done _
  | succ count ih =>
    rw [readOctetsFrom_succ]
    exact (uniform_readBitsFrom 0 8).chain fun v => ih _

theorem uniform_read (count : Nat) : Uniform (read count) := by
  intro c c' inside same
  have bytes := uniform_readOctetsFrom [] count inside same
  unfold read
  rw [same.isAligned, ← same.source]
  split
  · exact ⟨rfl, inside, same.moved _ _⟩
  · exact bytes

theorem uniform_readExact (count : Nat) : Uniform (readExact count) := by
  rw [readExact_eq_chain]
  exact (uniform_read count).chain fun got => uniform_done _

theorem uniform_answer (request : Request) : Uniform (answer request) := by
  cases request with
  | bit => exact uniform_readBit.map _
  | bits count => exact (uniform_readBitsFrom 0 _).map _
  | skip count => exact (uniform_skip count).map _
  | align => exact uniform_align.map fun _ => Answer.nothing
  | ue => exact (uniform_run _).map _
  | se => exact (uniform_run _).map _
  | read count => exact (uniform_read count).map _
  | readExact count => exact (uniform_readExact count).map _

/-- Cursors that show the same are not told apart by any requests. -/
theorem Same.alike (h : c.Same c') (inside : c.bitPos < 8) : c.Alike c' := by
  intro requests
  induction requests generalizing c c' with
  | nil => exact ⟨rfl, h⟩
  | cons request requests ih =>
    obtain ⟨result, inside', after⟩ := uniform_answer request inside h
    obtain ⟨results, last⟩ := ih after inside'
    exact ⟨congrArg₂ List.cons result results, last⟩

/-! ## Fast paths -/

/-- Passing over bits is reading them one by one. -/
theorem skip_alike (inside : c.bitPos < 8) {count : Nat} (room : count ≤ c.bits.length) :
    ∃ read c₁ c₂, c.skip count = (.ok (), c₁) ∧ repeated readBit count c = (.ok read, c₂)
      ∧ c₁.Alike c₂ := by
  have front := (List.take_append_drop count c.bits).symm
  have single : c.bits = (c.bits.take count).flatMap (fun b => [b]) ++ c.bits.drop count := by
    rwa [List.flatMap_singleton']
  obtain ⟨c₁, skipped, passes⟩ := takes_skip (c.bits.take count) inside front
  obtain ⟨c₂, read, passes'⟩ := takes_repeated takes_readBit (c.bits.take count) inside single
  rw [List.flatMap_singleton'] at passes'
  rw [List.length_take_of_le room] at skipped read
  exact ⟨_, c₁, c₂, skipped, read, (passes.same passes').alike passes.follows.1⟩

/-- Reading bytes is reading them one by one, each as the number of eight bits. -/
theorem readExact_alike (inside : c.bitPos < 8) {count : Nat} (room : 8 * count ≤ c.bits.length) :
    ∃ got c₁ c₂, c.readExact count = (.ok got, c₁)
      ∧ repeated (readBits 8) count c = (.ok (got.map UInt8.toNat), c₂) ∧ c₁.Alike c₂ := by
  obtain ⟨got, rfl, digits⟩ := Bits.exists_ofBytes (List.length_take_of_le room)
  have front : c.bits = Bits.ofBytes got ++ c.bits.drop (8 * got.length) := by
    rw [digits, List.take_append_drop]
  obtain ⟨c₁, whole, passes⟩ := takes_readExact got inside front
  obtain ⟨c₂, each, passes'⟩ := takes_repeated takes_octet got inside front
  exact ⟨got, c₁, c₂, whole, each, (passes.same passes').alike passes.follows.1⟩

theorem skip_isOk_iff (inside : c.bitPos < 8) (count : Nat) :
    (c.skip count).1 = .ok () ↔ count ≤ c.bits.length := by
  constructor
  · intro passed
    by_contra short
    obtain ⟨c', refused, -⟩ := skip_of_lt inside (Nat.lt_of_not_le short)
    rw [refused] at passed
    exact absurd passed (by simp)
  · intro room
    obtain ⟨c', passed, -⟩ := skip_of_le inside room
    rw [passed]

theorem readExact_isOk_iff (inside : c.bitPos < 8) (count : Nat) :
    (∃ got, (c.readExact count).1 = .ok got) ↔ 8 * count ≤ c.bits.length := by
  constructor
  · rintro ⟨got, read⟩
    by_contra short
    rw [readExact_of_lt inside (Nat.lt_of_not_le short)] at read
    exact absurd read (by simp)
  · intro room
    obtain ⟨got, c₁, c₂, read, -⟩ := readExact_alike inside room
    exact ⟨got, congrArg Prod.fst read⟩

/-! ## Any requests -/

/-- What is promised of a cursor over a buffer, behind requests that were answered with
`results`. -/
structure Exact (coding : Coding) (data : List UInt8) (results : List (Except Fault Answer))
    (c : Cursor) : Prop where
  /-- The place in the byte is the count, modulo eight. -/
  place : c.consumed % 8 = c.bitPos
  /-- What the source handed out was counted, or is left of the last byte. -/
  counted : .error .endOfSkip ∉ results →
    8 * (c.source.delivered coding data).length = c.consumed + (8 - c.bitPos) % 8
  whole : c.source.delivered coding data ++ c.source.payload = (Source.ofBytes coding data).payload
  /-- What is left is left of the current byte, or held by the source. -/
  left : c.bits.length = (8 - c.bitPos) % 8 + 8 * c.source.payload.length
  skips : ∀ count, (c.skip count).1 = .ok () ↔ count ≤ c.bits.length
  /-- Bits that are skipped may as well be read. -/
  skipped : ∀ count ≤ c.bits.length, ∃ read c₁ c₂,
    c.skip count = (.ok (), c₁) ∧ repeated readBit count c = (.ok read, c₂) ∧ c₁.Alike c₂
  reads : ∀ count, (∃ got, (c.readExact count).1 = .ok got) ↔ 8 * count ≤ c.bits.length
  /-- Bytes that are read at once may as well be read one by one. -/
  read : ∀ count, 8 * count ≤ c.bits.length → ∃ got c₁ c₂,
    c.readExact count = (.ok got, c₁)
      ∧ repeated (readBits 8) count c = (.ok (got.map UInt8.toNat), c₂) ∧ c₁.Alike c₂

/-- Whatever a cursor is asked for, and whichever requests fail, it counts the bits that it took,
and its fast paths are reading bit by bit and byte by byte. -/
theorem requests_exact (coding : Coding) (data : List UInt8) (requests : List Request) :
    Exact coding data ((ofBytes coding data).answers requests).1
      ((ofBytes coding data).answers requests).2 := by
  obtain ⟨placed, counted⟩ := keeps_answers requests (placed_ofBytes coding data)
  have inside := placed.inside
  exact ⟨placed.place, fun never => counted never (counted_ofBytes coding data),
    placed.onWay.delivered_append, length_bits _, skip_isOk_iff inside,
    fun _ => skip_alike inside, readExact_isOk_iff inside, fun _ => readExact_alike inside⟩

/-- Behind a skip that ended inside whole bytes the place is still that of the count, though the
source has handed out more. -/
example :
    (((ofBytes .plain [1, 2, 3]).answers [.bits 4, .skip 40, .bit]).2.consumed,
        ((ofBytes .plain [1, 2, 3]).answers [.bits 4, .skip 40, .bit]).2.bitPos,
        (((ofBytes .plain [1, 2, 3]).answers [.bits 4, .skip 40, .bit]).2.source.delivered
          .plain [1, 2, 3]).length) = (8, 0, 3) := by
  decide

end Hevc.Cursor
