import Hevc.Proofs.Sink

/-!
# Packing into a sink that fails

A packer hands a byte over as soon as it is complete and never holds one back, so in front of a sink
that fails after some bytes it goes through the same states as in front of one that takes every
byte, up to the byte that finds no room. There it stops, with the fault of the sink, and the front
of what the other sink would have received has arrived.

* `Packer.Mirrors` — an operation that does so, from whichever state
* `Packer.mirrors_writeAll` — every operation of a packer does
* `Sink.writeItems_failing` — what arrives of items, and what the writing answers
-/

namespace Hevc

namespace Sink

/-- A sink that stands where another one does, but takes every byte. -/
def opened (s : Sink) : Sink := { s with refuses := fun _ => false, fault := .sinkFull }

theorem opened_accept (s : Sink) (b : UInt8) : (s.accept b).opened = s.opened.accept b := by
  unfold accept opened
  split <;> rfl

theorem opened_foldl (s : Sink) (data : List UInt8) :
    (data.foldl accept s).opened = data.foldl accept s.opened := by
  induction data generalizing s with
  | nil => rfl
  | cons b rest ih =>
    rw [List.foldl_cons, List.foldl_cons, ih, opened_accept]

theorem fault_foldl (s : Sink) (data : List UInt8) :
    (data.foldl accept s).fault = s.fault := by
  induction data generalizing s with
  | nil => rfl
  | cons b rest ih => rw [List.foldl_cons, ih, fault_accept]

/-! ## Nothing that arrived is taken back -/

theorem bytes_offer (s : Sink) (b : UInt8) : s.bytes <+: (s.offer b).2.bytes := by
  unfold offer
  split
  · exact List.prefix_refl _
  · exact ⟨[b], List.reverse_cons.symm⟩

theorem bytes_offerCounted (s : Sink) (b : UInt8) : s.bytes <+: (s.offerCounted b).2.bytes := by
  have arrived := bytes_offer s b
  unfold offerCounted
  split
  · next taken => rwa [taken] at arrived
  · next refused => rwa [refused] at arrived

theorem bytes_put (s : Sink) (b : UInt8) : s.bytes <+: (s.put b).2.bytes := by
  have first := bytes_offer s escapeByte
  unfold put
  split
  · split
    · next s' taken =>
      rw [taken] at first
      exact first.trans (bytes_offerCounted { s' with zeros := 0 } b)
    · next refused => rwa [refused] at first
  · exact bytes_offerCounted s b

theorem bytes_write (s : Sink) (data : List UInt8) : s.bytes <+: (s.write data).2.bytes := by
  induction data generalizing s with
  | nil => exact List.prefix_refl _
  | cons b rest ih =>
    have first := bytes_put s b
    rw [write]
    split
    · next s' taken =>
      rw [taken] at first
      exact first.trans (ih s')
    · next refused => rwa [refused] at first

theorem write_singleton (s : Sink) (b : UInt8) : s.write [b] = s.put b := by
  rw [write]
  rcases s.put b with ⟨_ | _, s'⟩ <;> rfl

end Sink

namespace Packer

variable {f g : Packer → Except Fault Unit × Packer}

/-- The packer in front of the sink that takes every byte. -/
def opened (p : Packer) : Packer := { p with sink := p.sink.opened }

/-- What an operation comes to in front of a sink that takes `capacity` bytes and then fails with
`fault`, against what it comes to in front of one that takes every byte. -/
inductive Mirrored (capacity : Nat) (fault : Fault) :
    Except Fault Unit × Packer → Except Fault Unit × Packer → Prop
  /-- There was room for all bytes. -/
  | kept (result : Except Fault Unit) (p : Packer) (room : p.sink.FailsAfter capacity)
    (same : p.sink.fault = fault) : Mirrored capacity fault (result, p) (result, p.opened)
  /-- There was not, and the front of them arrived. -/
  | stopped (p : Packer) (ideal : Except Fault Unit × Packer)
    (long : capacity < ideal.2.sink.bytes.length)
    (front : p.sink.bytes = ideal.2.sink.bytes.take capacity) :
    Mirrored capacity fault (.error fault, p) ideal

/-- An operation that does the same whatever the sink has room for, up to the byte that finds
none. -/
structure Mirrors (f : Packer → Except Fault Unit × Packer) : Prop where
  grows : ∀ p, p.sink.bytes <+: (f p).2.sink.bytes
  splits : ∀ ⦃p capacity⦄, p.sink.FailsAfter capacity →
    Mirrored capacity p.sink.fault (f p) (f p.opened)

/-- An operation that hands nothing over. -/
theorem mirrors_done (result : Except Fault Unit) : Mirrors fun p => (result, p) where
  grows := fun p => List.prefix_refl p.sink.bytes
  splits := fun p _ room => .kept result p room rfl

/-- It is enough that an operation is, in each state, one of those that mirror. -/
theorem Mirrors.of_states
    (h : ∀ p, ∃ g, Mirrors g ∧ f p = g p ∧ f p.opened = g p.opened) : Mirrors f where
  grows := by
    intro p
    obtain ⟨g, hg, same, -⟩ := h p
    rw [same]
    exact hg.grows p
  splits := by
    intro p capacity room
    obtain ⟨g, hg, same, same'⟩ := h p
    rw [same, same']
    exact hg.splits room

/-- Operations one after the other. -/
theorem Mirrors.andThen (hf : Mirrors f) (hg : Mirrors g) :
    Mirrors fun p => match f p with
      | (.ok _, p) => g p
      | (.error fault, p) => (.error fault, p) where
  grows := by
    intro p
    have first := hf.grows p
    split
    · next q done =>
      rw [done] at first
      exact first.trans (hg.grows q)
    · next failed => rwa [failed] at first
  splits := by
    intro p capacity room
    have first := hf.splits room
    generalize f p = outcome at first ⊢
    generalize f p.opened = ideal at first ⊢
    cases first with
    | kept result q stays same =>
      cases result with
      | error refused => exact .kept (.error refused) q stays same
      | ok _ =>
        -- the second begins where it begins without a limit
        have second := hg.splits stays
        rw [same] at second
        exact second
    | stopped q ideal long front =>
      obtain ⟨result, q'⟩ := ideal
      cases result with
      | error refused => exact .stopped q _ long front
      | ok _ =>
        -- without a limit, the second only adds to what had arrived
        obtain ⟨more, grown⟩ := hg.grows q'
        refine .stopped q (g q') ?_ ?_
        · rw [← grown, List.length_append]
          exact Nat.lt_add_right _ long
        · rw [← grown, List.take_append_of_le_length (Nat.le_of_lt long)]
          exact front

/-- An operation that hands bytes to the sink, and no more once one of them is refused. -/
theorem mirrors_handOver (data : Packer → List UInt8) (taken : Packer → Sink → Packer)
    (ok : ∀ p s, p.sink.write (data p) = (.ok (), s) → f p = (.ok (), taken p s))
    (error : ∀ p s fault, p.sink.write (data p) = (.error fault, s) →
      ∃ q, f p = (.error fault, q) ∧ q.sink = s)
    (same : ∀ p, data p.opened = data p) (sink : ∀ p s, (taken p s).sink = s)
    (opens : ∀ p s, (taken p s).opened = taken p.opened s.opened) : Mirrors f where
  grows := by
    intro p
    have arrived := Sink.bytes_write p.sink (data p)
    cases written : p.sink.write (data p) with
    | mk result s =>
      rw [written] at arrived
      cases result with
      | ok _ =>
        rw [ok p s written, sink]
        exact arrived
      | error fault =>
        obtain ⟨q, failed, rfl⟩ := error p s fault written
        rw [failed]
        exact arrived
  splits := by
    intro p capacity room
    have free : p.opened.sink.write (data p.opened)
        = (.ok (), ((data p).foldl Sink.accept p.sink).opened) := by
      rw [same, Sink.opened_foldl]
      exact Sink.write_of_open rfl (data p)
    rw [ok p.opened _ free, ← opens]
    by_cases enough : ((data p).foldl Sink.accept p.sink).bytes.length ≤ capacity
    · obtain ⟨written, stays⟩ := room.write_of_room enough
      rw [ok p _ written]
      refine .kept (.ok ()) _ ?_ ?_
      · rwa [sink]
      · rw [sink]
        exact Sink.fault_foldl p.sink (data p)
    · have full := Nat.lt_of_not_le enough
      obtain ⟨s, written, -, arrived⟩ := room.write_of_full full
      obtain ⟨q, failed, rfl⟩ := error p s _ written
      have whole : (taken p ((data p).foldl Sink.accept p.sink)).opened.sink.bytes
          = ((data p).foldl Sink.accept p.sink).bytes := by
        show (taken p _).sink.bytes = _
        rw [sink]
      rw [failed]
      refine .stopped q _ ?_ ?_
      · exact whole ▸ full
      · exact whole ▸ arrived

/-! ## The operations of a packer -/

/-- What a packer hands over before the next bit: a byte, if one is complete. -/
def complete (p : Packer) : List UInt8 := if p.pendingLen = 8 then [UInt8.ofNat p.pending] else []

/-- A packer that handed it over to a sink. -/
def emptied (p : Packer) (s : Sink) : Packer :=
  if p.pendingLen = 8 then { p with sink := s, pending := 0, pendingLen := 0 }
  else { p with sink := s }

theorem mirrors_settle : Mirrors settle := by
  apply mirrors_handOver complete emptied
  · intro p s written
    unfold complete at written
    unfold settle emptied
    split at written
    · next full =>
      rw [Sink.write_singleton] at written
      rw [if_pos full, written, if_pos full]
    · next few =>
      obtain rfl : p.sink = s := congrArg Prod.snd written
      rw [if_neg few, if_neg few]
  · intro p s fault written
    unfold complete at written
    unfold settle
    split at written
    · next full =>
      rw [Sink.write_singleton] at written
      exact ⟨{ p with sink := s }, by rw [if_pos full, written], rfl⟩
    · exact absurd written (by simp [Sink.write])
  · intro p
    rfl
  · intro p s
    unfold emptied
    split <;> rfl
  · intro p s
    unfold emptied opened
    split <;> rfl

theorem mirrors_settleAdded (b : Bool) : Mirrors fun p => (p.add b).settle where
  grows := fun p => mirrors_settle.grows (p.add b)
  splits := fun p _ (room : (p.add b).sink.FailsAfter _) => mirrors_settle.splits room

theorem mirrors_putBit (b : Bool) : Mirrors (putBit b) :=
  mirrors_settle.andThen (mirrors_settleAdded b)

theorem mirrors_putBits (value count : Nat) : Mirrors (putBits value count) := by
  induction count with
  | zero => exact mirrors_done _
  | succ count ih => exact (mirrors_putBit (value.testBit count)).andThen ih

theorem mirrors_writeBits (value count : Nat) : Mirrors (writeBits value count) := by
  apply Mirrors.of_states
  intro p
  unfold writeBits
  dsimp only
  rw [show p.opened.pendingLen = p.pendingLen from rfl]
  split
  · exact ⟨_, mirrors_done (.error .bitsTooLarge), rfl, rfl⟩
  · split
    · exact ⟨_, mirrors_done (.error .arithmetic), rfl, rfl⟩
    · exact ⟨_, mirrors_putBits value (min count 64), rfl, rfl⟩

theorem mirrors_writeOctets (data : List UInt8) : Mirrors (writeOctets data) := by
  induction data with
  | nil => exact mirrors_done _
  | cons b rest ih => exact (mirrors_writeBits b.toNat 8).andThen ih

theorem mirrors_passOn (data : List UInt8) : Mirrors (passOn data) := by
  apply mirrors_handOver (fun _ => data)
    fun p s => { p with sink := s, written := p.written + 8 * data.length }
  · intro p s written
    rw [passOn, written]
  · intro p s fault written
    rw [passOn, written]
    exact ⟨_, rfl, rfl⟩
  all_goals
    intros
    rfl

/-- Which bits are pending does not depend on the sink. -/
theorem isAligned_opened (p : Packer) : p.opened.isAligned = p.isAligned := rfl

theorem mirrors_writeBytes (data : List UInt8) : Mirrors (writeBytes data) := by
  apply Mirrors.of_states
  intro p
  unfold writeBytes
  rw [isAligned_opened]
  split
  · exact ⟨_, mirrors_passOn data, rfl, rfl⟩
  · exact ⟨_, mirrors_writeOctets data, rfl, rfl⟩

theorem mirrors_align : Mirrors align := by
  apply Mirrors.of_states
  intro p
  unfold align
  rw [isAligned_opened]
  split
  · exact ⟨_, mirrors_done (.ok ()), rfl, rfl⟩
  · exact ⟨_, mirrors_writeBits 0 (8 - p.pendingLen), rfl, rfl⟩

theorem mirrors_writeUe (value : Nat) : Mirrors (writeUe value) := by
  have zeros := mirrors_writeBits 0 (value + 1).log2
  have digits := mirrors_writeBits (value + 1) ((value + 1).log2 + 1)
  apply Mirrors.of_states
  intro p
  unfold writeUe
  split
  · exact ⟨_, mirrors_done (.error .valueTooLarge), rfl, rfl⟩
  · exact ⟨_, zeros.andThen digits, rfl, rfl⟩

theorem mirrors_writeSe (value : Int) : Mirrors (writeSe value) := by
  apply Mirrors.of_states
  intro p
  unfold writeSe
  split
  · next place _ => exact ⟨_, mirrors_writeUe place, rfl, rfl⟩
  · exact ⟨_, mirrors_done (.error .arithmetic), rfl, rfl⟩

theorem mirrors_write (item : Item) : Mirrors (write item) := by
  cases item with
  | bits value count => exact mirrors_writeBits value count
  | bytes data => exact mirrors_writeBytes data
  | ue value => exact mirrors_writeUe value
  | se value => exact mirrors_writeSe value
  | align => exact mirrors_align
  | refuse fault => exact mirrors_done (.error fault)

theorem mirrors_writeAll (items : List Item) : Mirrors (writeAll items) := by
  induction items with
  | nil => exact mirrors_done _
  | cons item rest ih => exact (mirrors_write item).andThen ih

/-- Writes items, and zero bits up to the next byte. -/
def pack (items : List Item) (p : Packer) : Except Fault Unit × Packer :=
  match p.writeAll items with
  | (.ok _, p) => p.align
  | (.error fault, p) => (.error fault, p)

theorem mirrors_pack (items : List Item) : Mirrors (pack items) :=
  (mirrors_writeAll items).andThen mirrors_align

end Packer

namespace Sink

theorem writeItems_eq_pack (items : List Item) (s : Sink) :
    s.writeItems items
      = (((Packer.ofSink s).pack items).1, ((Packer.ofSink s).pack items).2.sink) := by
  unfold writeItems Packer.pack
  rcases (Packer.ofSink s).writeAll items with ⟨_ | _, p⟩ <;> rfl

/-- The front of what a sink that takes every byte would have arrives in one that takes `capacity`
bytes, and the writing answers as it would there, unless a byte finds no room. -/
theorem writeItems_failing (coding : Coding) (capacity : Nat) (fault : Fault)
    (items : List Item) :
    ((failing coding capacity fault).writeItems items).2.bytes
        = ((unbounded coding).writeItems items).2.bytes.take capacity
      ∧ ((failing coding capacity fault).writeItems items).1
        = if ((unbounded coding).writeItems items).2.bytes.length ≤ capacity
          then ((unbounded coding).writeItems items).1 else .error fault := by
  have room : (Packer.ofSink (failing coding capacity fault)).sink.FailsAfter capacity :=
    failsAfter_failing coding capacity fault
  have mirrored := (Packer.mirrors_pack items).splits room
  have start : (Packer.ofSink (failing coding capacity fault)).opened
      = Packer.ofSink (unbounded coding) := rfl
  rw [writeItems_eq_pack, writeItems_eq_pack]
  rw [start] at mirrored
  generalize (Packer.ofSink (failing coding capacity fault)).pack items = outcome at mirrored ⊢
  generalize (Packer.ofSink (unbounded coding)).pack items = ideal at mirrored ⊢
  cases mirrored with
  | kept result p stays _ =>
    have few : p.opened.sink.bytes.length ≤ capacity := stays.room
    rw [if_pos few, List.take_of_length_le few]
    exact ⟨rfl, rfl⟩
  | stopped p _ long front =>
    rw [if_neg (Nat.not_le_of_lt long)]
    exact ⟨front, rfl⟩

end Sink

end Hevc
