import Hevc.Proofs.Packer

/-!
# Sinks that fail after some bytes

A sink that takes a number of bytes and refuses all others is compared with one that takes every
byte. As long as there is room the two are alike; the write that goes beyond it fails, with the
fault that the sink was given, and from then on nothing arrives.

* `FailsAfter.write_of_room`, `FailsAfter.write_of_full` — one write
* `write_failing` — what arrives in a plain sink of one write, and what the write answers
* `bytes_writeEach_failing`, `bytes_writeEach_unbounded` — what arrives of writes in a row, those
  after a failure included
-/

namespace Hevc.Sink

/-- Bytes can be written in two parts. -/
theorem write_append (xs ys : List UInt8) (s : Sink) :
    s.write (xs ++ ys)
      = match s.write xs with
        | (.ok _, s) => s.write ys
        | (.error fault, s) => (.error fault, s) := by
  induction xs generalizing s with
  | nil => rfl
  | cons b rest ih =>
    rw [List.cons_append, write, write]
    split
    · exact ih _
    · rfl

/-- A sink after writes in a row, whatever each of them answered. -/
def writeEach (pieces : List (List UInt8)) (s : Sink) : Sink :=
  pieces.foldl (fun sink piece => (sink.write piece).2) s

/-! ## Sinks that take every byte -/

/-- What a byte of payload is handed over as: itself, and an escape byte in front if one is due. -/
def outgoing (s : Sink) (b : UInt8) : List UInt8 :=
  if s.coding = .escaped ∧ 2 ≤ s.zeros ∧ needsEscape b then [escapeByte, b] else [b]

theorem bytes_accept (s : Sink) (b : UInt8) : (s.accept b).bytes = s.bytes ++ s.outgoing b := by
  rw [accept, outgoing]
  split <;> simp [bytes]

theorem attempts_accept (s : Sink) (b : UInt8) :
    (s.accept b).attempts = s.attempts + (s.outgoing b).length := by
  rw [accept, outgoing]
  split <;> rfl

theorem fault_accept (s : Sink) (b : UInt8) : (s.accept b).fault = s.fault := by
  rw [accept]
  split <;> rfl

theorem bytes_prefix_foldl (s : Sink) (data : List UInt8) :
    s.bytes <+: (data.foldl accept s).bytes := by
  induction data generalizing s with
  | nil => exact List.prefix_refl _
  | cons b rest ih =>
    have first : s.bytes <+: (s.accept b).bytes := by
      rw [bytes_accept]
      exact List.prefix_append _ _
    exact first.trans (ih _)

/-! ## Sinks with room -/

/-- A sink that takes `capacity` bytes, and whose bytes have all arrived so far. -/
structure FailsAfter (capacity : Nat) (s : Sink) : Prop where
  refuses : s.refuses = fun attempt => decide (capacity ≤ attempt)
  attempts : s.attempts = s.bytes.length
  room : s.bytes.length ≤ capacity

/-- A sink that takes no more bytes. -/
structure Full (capacity : Nat) (s : Sink) : Prop where
  refuses : s.refuses = fun attempt => decide (capacity ≤ attempt)
  attempts : capacity ≤ s.attempts

variable {capacity : Nat} {s : Sink}

theorem failsAfter_failing (coding : Coding) (capacity : Nat) (fault : Fault) :
    (failing coding capacity fault).FailsAfter capacity := ⟨rfl, rfl, Nat.zero_le capacity⟩

theorem offer_of_lt (refuses : s.refuses = fun attempt => decide (capacity ≤ attempt))
    (room : s.attempts < capacity) (b : UInt8) :
    s.offer b = (.ok (), { s with attempts := s.attempts + 1, received := b :: s.received }) := by
  have takes : s.refuses s.attempts = false := by
    rw [refuses]
    exact decide_eq_false (Nat.not_le_of_lt room)
  rw [offer, takes]
  rfl

theorem Full.offer (h : s.Full capacity) (b : UInt8) :
    s.offer b = (.error s.fault, { s with attempts := s.attempts + 1 }) := by
  have refused : s.refuses s.attempts = true := by
    rw [h.refuses]
    exact decide_eq_true h.attempts
  rw [Sink.offer, refused]
  rfl

theorem Full.put (h : s.Full capacity) (b : UInt8) :
    s.put b = (.error s.fault, { s with attempts := s.attempts + 1 }) := by
  unfold Sink.put
  split
  · rw [h.offer]
  · rw [offerCounted, h.offer]

/-- Of what is written to it then, nothing arrives. -/
theorem Full.write (h : s.Full capacity) (data : List UInt8) :
    (s.write data).2.bytes = s.bytes ∧ (s.write data).2.Full capacity := by
  cases data with
  | nil => exact ⟨rfl, h⟩
  | cons b rest =>
    rw [Sink.write, h.put]
    exact ⟨rfl, h.refuses, Nat.le_succ_of_le h.attempts⟩

namespace FailsAfter

theorem accept (h : s.FailsAfter capacity) {b : UInt8}
    (room : (s.accept b).bytes.length ≤ capacity) : (s.accept b).FailsAfter capacity := by
  refine ⟨(refuses_accept s b).trans h.refuses, ?_, room⟩
  rw [attempts_accept, bytes_accept, List.length_append, h.attempts]

/-- With room for all that a byte is handed over as, it is taken. -/
theorem put_of_room (h : s.FailsAfter capacity) {b : UInt8}
    (room : (s.accept b).bytes.length ≤ capacity) : s.put b = (.ok (), s.accept b) := by
  have attempts := h.attempts
  rw [bytes_accept, outgoing, List.length_append] at room
  rw [put, Sink.accept]
  split at room
  · next due =>
    replace room : s.bytes.length + 2 ≤ capacity := room
    have second : s.attempts + 1 < capacity := by omega
    rw [if_pos due, if_pos due, offer_of_lt h.refuses (Nat.lt_of_succ_lt second)]
    simp only [offerCounted]
    rw [offer_of_lt (by exact h.refuses) (by exact second)]
  · next free =>
    replace room : s.bytes.length + 1 ≤ capacity := room
    rw [if_neg free, if_neg free, offerCounted, offer_of_lt h.refuses (by omega)]

/-- Without it, the front of that arrives, and the sink is full. -/
theorem put_of_full (h : s.FailsAfter capacity) {b : UInt8}
    (full : capacity < (s.accept b).bytes.length) :
    ∃ s', s.put b = (.error s.fault, s') ∧ s'.Full capacity
      ∧ s'.bytes = (s.accept b).bytes.take capacity := by
  have attempts := h.attempts
  have room := h.room
  rw [bytes_accept] at full ⊢
  by_cases none : capacity ≤ s.attempts
  · have last : s.bytes.length = capacity := by omega
    refine ⟨_, Full.put ⟨h.refuses, none⟩ b, ⟨h.refuses, Nat.le_succ_of_le none⟩, ?_⟩
    rw [List.take_left' last]
    rfl
  · -- the escape byte finds the last place
    rw [outgoing, List.length_append] at full
    split at full
    · next due =>
      replace full : capacity < s.bytes.length + 2 := full
      have full' : (Sink.mk s.coding s.refuses s.fault (s.attempts + 1)
          (escapeByte :: s.received) 0).Full capacity := ⟨h.refuses, by
        show capacity ≤ s.attempts + 1
        omega⟩
      rw [put, if_pos due, offer_of_lt h.refuses (by omega)]
      simp only [offerCounted, full'.offer]
      refine ⟨_, rfl, ⟨h.refuses, Nat.le_succ_of_le full'.attempts⟩, ?_⟩
      have last : (s.bytes ++ [escapeByte]).length = capacity := by
        rw [List.length_append, List.length_singleton]
        omega
      rw [outgoing, if_pos due, List.append_cons, List.take_left' last]
      exact List.reverse_cons
    · replace full : capacity < s.bytes.length + 1 := full
      omega

/-- With room for all that data is handed over as, it is taken as by a sink that takes every
byte. -/
theorem write_of_room (h : s.FailsAfter capacity) {data : List UInt8}
    (room : (data.foldl Sink.accept s).bytes.length ≤ capacity) :
    s.write data = (.ok (), data.foldl Sink.accept s)
      ∧ (data.foldl Sink.accept s).FailsAfter capacity := by
  induction data generalizing s with
  | nil => exact ⟨rfl, h⟩
  | cons b rest ih =>
    have first := Nat.le_trans (bytes_prefix_foldl (s.accept b) rest).length_le room
    rw [Sink.write, h.put_of_room first]
    exact ih (h.accept first) room

/-- Without it, the front of that arrives, and the sink is full. -/
theorem write_of_full (h : s.FailsAfter capacity) {data : List UInt8}
    (full : capacity < (data.foldl Sink.accept s).bytes.length) :
    ∃ s', s.write data = (.error s.fault, s') ∧ s'.Full capacity
      ∧ s'.bytes = (data.foldl Sink.accept s).bytes.take capacity := by
  -- on the bytes that are still to be written, up to the one that finds no room
  induction data generalizing s with
  | nil => exact absurd h.room (Nat.not_le_of_lt full)
  | cons b rest ih =>
    rw [List.foldl_cons] at full ⊢
    by_cases first : (s.accept b).bytes.length ≤ capacity
    · obtain ⟨s', written, stops, bytes⟩ := ih (h.accept first) full
      rw [fault_accept] at written
      exact ⟨s', by rw [Sink.write, h.put_of_room first]; exact written, stops, bytes⟩
    · obtain ⟨s', refused, stops, bytes⟩ := h.put_of_full (Nat.lt_of_not_le first)
      refine ⟨s', by rw [Sink.write, refused], stops, ?_⟩
      obtain ⟨more, grown⟩ := bytes_prefix_foldl (s.accept b) rest
      rw [bytes, ← grown, List.take_append_of_le_length (Nat.le_of_not_le first)]

end FailsAfter

/-! ## Writes in a row -/

/-- The front of the data arrives, as much as there is room for. The write succeeds if that is all
of it, and otherwise fails with the fault of the sink. -/
theorem write_failing (capacity : Nat) (fault : Fault) (data : List UInt8) :
    ((failing .plain capacity fault).write data).2.bytes = data.take capacity
      ∧ ((failing .plain capacity fault).write data).1
          = if data.length ≤ capacity then .ok () else .error fault := by
  have start := failsAfter_failing .plain capacity fault
  have all : (data.foldl accept (failing .plain capacity fault)).bytes = data :=
    bytes_foldl_plain rfl data
  by_cases room : data.length ≤ capacity
  · obtain ⟨written, -⟩ := start.write_of_room (all.symm ▸ room)
    rw [written, if_pos room, List.take_of_length_le room]
    exact ⟨all, rfl⟩
  · obtain ⟨s', written, -, bytes⟩ := start.write_of_full (all.symm ▸ Nat.lt_of_not_le room)
    rw [written, if_neg room, ← all]
    exact ⟨bytes, rfl⟩

/-- What a sink that fails has of the bytes that another one holds: all of them, and room for
more, or their front, and room for nothing. -/
def Keeps (capacity : Nat) (ideal s : Sink) : Prop :=
  s = ideal ∧ s.FailsAfter capacity
    ∨ s.Full capacity ∧ capacity ≤ ideal.bytes.length ∧ s.bytes = ideal.bytes.take capacity

theorem Keeps.bytes {ideal : Sink} (h : Keeps capacity ideal s) :
    s.bytes = ideal.bytes.take capacity := by
  rcases h with ⟨rfl, open_⟩ | ⟨-, -, bytes⟩
  · exact (List.take_of_length_le open_.room).symm
  · exact bytes

theorem Keeps.write {ideal : Sink} (h : Keeps capacity ideal s) (data : List UInt8) :
    Keeps capacity (data.foldl accept ideal) (s.write data).2 := by
  rcases h with ⟨rfl, open_⟩ | ⟨full, long, bytes⟩
  · by_cases room : (data.foldl accept s).bytes.length ≤ capacity
    · obtain ⟨written, stays⟩ := open_.write_of_room room
      rw [written]
      exact .inl ⟨rfl, stays⟩
    · obtain ⟨s', written, stops, bytes⟩ := open_.write_of_full (Nat.lt_of_not_le room)
      rw [written]
      exact .inr ⟨stops, Nat.le_of_not_le room, bytes⟩
  · obtain ⟨same, stops⟩ := full.write data
    obtain ⟨more, grown⟩ := bytes_prefix_foldl ideal data
    refine .inr ⟨stops, Nat.le_trans long (bytes_prefix_foldl ideal data).length_le, ?_⟩
    rw [same, bytes, ← grown, List.take_append_of_le_length long]

theorem Keeps.writeEach {ideal : Sink} (h : Keeps capacity ideal s) (pieces : List (List UInt8)) :
    Keeps capacity (pieces.flatten.foldl accept ideal) (s.writeEach pieces) := by
  induction pieces generalizing ideal s with
  | nil => exact h
  | cons piece rest ih =>
    rw [List.flatten_cons, List.foldl_append]
    exact ih (h.write piece)

/-- The front of what one write of all the data would hand over arrives, however the data is
divided, and whichever of the writes fail. -/
theorem bytes_writeEach_failing (capacity : Nat) (fault : Fault) (pieces : List (List UInt8)) :
    ((failing .escaped capacity fault).writeEach pieces).bytes
      = (escape pieces.flatten).take capacity := by
  have start : Keeps capacity (failing .escaped capacity fault) (failing .escaped capacity fault) :=
    .inl ⟨rfl, failsAfter_failing .escaped capacity fault⟩
  rw [(start.writeEach pieces).bytes, bytes_foldl_escaped rfl]
  rfl

/-- A sink that takes every byte holds the whole of it. -/
theorem bytes_writeEach_unbounded (pieces : List (List UInt8)) :
    ((unbounded .escaped).writeEach pieces).bytes = escape pieces.flatten := by
  have held : ∀ before : List UInt8,
      (holding .escaped before).writeEach pieces = holding .escaped (before ++ pieces.flatten) := by
    induction pieces with
    | nil =>
      intro before
      rw [List.flatten_nil, List.append_nil]
      rfl
    | cons piece rest ih =>
      intro before
      rw [List.flatten_cons, ← List.append_assoc, ← ih, writeEach, List.foldl_cons, write_holding]
      rfl
  rw [show unbounded .escaped = holding .escaped [] from rfl, held, bytes_holding_escaped,
    List.nil_append]

end Hevc.Sink
