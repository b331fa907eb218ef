import Hevc.Proofs.Delimited
import Hevc.Proofs.ParameterSet.Reading
import Hevc.Proofs.Sink

/-!
# Frames in a row

The frames of payloads can be told apart again: a length says where its payload ends, and then the
next length follows. Together with the splitting of streams and with escape bytes this makes the
length-prefixed form of a stream lossless.

* `LengthPrefixed.frames?_eq_some_iff` — what bytes are read as frames, and as which
* `LengthPrefixed.writeFrom_eq` — writing frames one by one is one write of all of them
* `LengthPrefixed.write_unbounded` — when not all units can be written
* `LengthPrefixed.lossless_framing` — payloads behind start codes come out as their frames, and any
  stream as frames that are read back
* `LengthPrefixed.longParts_unframed` — a payload that is too long for a length
-/

namespace Hevc

/-! ## Numbers of several bytes -/

/-- The number that bytes write, the most significant first. -/
def ofBigEndian (bytes : List UInt8) : Nat := Bits.toNat (Bits.ofBytes bytes)

theorem bigEndian_succ (count n : Nat) :
    bigEndian (count + 1) n = UInt8.ofNat (n >>> (8 * count)) :: bigEndian count n := by
  unfold bigEndian
  rw [List.range_succ, List.reverse_append]
  rfl

@[simp] theorem length_bigEndian (count n : Nat) : (bigEndian count n).length = count := by
  simp [bigEndian]

theorem ofBytes_bigEndian (count n : Nat) :
    Bits.ofBytes (bigEndian count n) = Bits.ofNat n (8 * count) := by
  induction count with
  | zero => rfl
  | succ count ih =>
    rw [bigEndian_succ, Bits.ofBytes_cons, Bits.ofByte_ofNat, ih, Nat.shiftRight_eq_div_pow,
      ← Bits.ofNat_add, Nat.mul_succ, Nat.add_comm]

theorem ofBigEndian_bigEndian {count n : Nat} (h : n < 2 ^ (8 * count)) :
    ofBigEndian (bigEndian count n) = n := by
  rw [ofBigEndian, ofBytes_bigEndian, Bits.toNat_ofNat h]

theorem ofBigEndian_lt (bytes : List UInt8) : ofBigEndian bytes < 2 ^ (8 * bytes.length) := by
  have below := Bits.toNat_lt (Bits.ofBytes bytes)
  rwa [Bits.length_ofBytes] at below

theorem bigEndian_ofBigEndian (bytes : List UInt8) :
    bigEndian bytes.length (ofBigEndian bytes) = bytes := by
  apply Bits.ofBytes_inj
  have same := Bits.ofNat_toNat (Bits.ofBytes bytes)
  rw [Bits.length_ofBytes] at same
  rw [ofBytes_bigEndian, ofBigEndian, same]

namespace LengthPrefixed

/-! ## Reading frames -/

/-- The payload of the first frame, and the bytes after it. -/
def readFrame? (bytes : List UInt8) : Option (List UInt8 × List UInt8) :=
  let size := ofBigEndian (bytes.take lengthBytes)
  let rest := bytes.drop lengthBytes
  if lengthBytes ≤ bytes.length ∧ size ≤ rest.length then some (rest.take size, rest.drop size)
  else none

theorem maxPayload_succ : maxPayload + 1 = 2 ^ (8 * lengthBytes) := by decide

theorem readFrame?_frame {payload : List UInt8} (h : payload.length ≤ maxPayload)
    (rest : List UInt8) : readFrame? (frame payload ++ rest) = some (payload, rest) := by
  have below : payload.length < 2 ^ (8 * lengthBytes) := by
    rw [← maxPayload_succ]
    omega
  have size : (frame payload ++ rest).take lengthBytes = bigEndian lengthBytes payload.length := by
    rw [frame, List.append_assoc, List.take_left' (length_bigEndian _ _)]
  have behind : (frame payload ++ rest).drop lengthBytes = payload ++ rest := by
    rw [frame, List.append_assoc, List.drop_left' (length_bigEndian _ _)]
  unfold readFrame?
  simp only [size, behind, ofBigEndian_bigEndian below]
  rw [if_pos, List.take_left, List.drop_left]
  simp [frame]

/-- Nothing but a frame is read as one. -/
theorem readFrame?_eq_some {bytes payload rest : List UInt8}
    (h : readFrame? bytes = some (payload, rest)) :
    payload.length ≤ maxPayload ∧ bytes = frame payload ++ rest := by
  unfold readFrame? at h
  simp only at h
  split at h
  · next enough =>
    obtain ⟨rfl, rfl⟩ := Prod.mk.inj (Option.some.inj h)
    have width : (bytes.take lengthBytes).length = lengthBytes :=
      List.length_take_of_le enough.1
    have length : ((bytes.drop lengthBytes).take (ofBigEndian (bytes.take lengthBytes))).length
        = ofBigEndian (bytes.take lengthBytes) := List.length_take_of_le enough.2
    have below := ofBigEndian_lt (bytes.take lengthBytes)
    have same := bigEndian_ofBigEndian (bytes.take lengthBytes)
    rw [width] at below same
    rw [frame, length, same, List.append_assoc, List.take_append_drop, List.take_append_drop]
    refine ⟨?_, rfl⟩
    rw [← maxPayload_succ] at below
    omega
  · exact absurd h (by simp)

theorem length_readFrame? {bytes payload rest : List UInt8}
    (h : readFrame? bytes = some (payload, rest)) : rest.length < bytes.length := by
  obtain ⟨-, rfl⟩ := readFrame?_eq_some h
  simp [frame, lengthBytes]
  omega

/-- The payloads of frames in a row, if that is what the bytes are. -/
def frames? (bytes : List UInt8) : Option (List (List UInt8)) :=
  if bytes.isEmpty then some []
  else
    match _next : readFrame? bytes with
    | none => none
    | some (payload, rest) => (frames? rest).map (payload :: ·)
termination_by bytes.length
decreasing_by exact length_readFrame? _next

theorem frames?_frame {payload : List UInt8} (h : payload.length ≤ maxPayload)
    (rest : List UInt8) : frames? (frame payload ++ rest) = (frames? rest).map (payload :: ·) := by
  have some : (frame payload ++ rest).isEmpty = false := by
    simp [frame, bigEndian_succ, lengthBytes]
  rw [frames?, some, if_neg Bool.false_ne_true]
  split
  · next none =>
    rw [readFrame?_frame h] at none
    exact absurd none (by simp)
  · next payload' rest' next =>
    rw [readFrame?_frame h] at next
    obtain ⟨rfl, rfl⟩ := Prod.mk.inj (Option.some.inj next)
    rfl

theorem frames?_flatMap {payloads : List (List UInt8)}
    (h : ∀ payload ∈ payloads, payload.length ≤ maxPayload) :
    frames? (payloads.flatMap frame) = some payloads := by
  induction payloads with
  | nil => simp [frames?]
  | cons payload rest ih =>
    obtain ⟨first, others⟩ := List.forall_mem_cons.mp h
    rw [List.flatMap_cons, frames?_frame first, ih others]
    rfl

theorem of_frames? {bytes : List UInt8} {payloads : List (List UInt8)}
    (h : frames? bytes = some payloads) :
    (∀ payload ∈ payloads, payload.length ≤ maxPayload) ∧ payloads.flatMap frame = bytes := by
  induction bytes using frames?.induct generalizing payloads with
  | case1 bytes empty =>
    rw [frames?, if_pos empty] at h
    obtain rfl := Option.some.inj h
    rw [List.isEmpty_iff] at empty
    simp [empty]
  | case2 bytes some none =>
    rw [frames?, if_neg some] at h
    split at h
    · exact absurd h (by simp)
    · next next => exact absurd (none.symm.trans next) (by simp)
  | case3 bytes some payload rest next ih =>
    rw [frames?, if_neg some] at h
    split at h
    · exact absurd h (by simp)
    · next payload' rest' next' =>
      obtain ⟨rfl, rfl⟩ := Prod.mk.inj (Option.some.inj (next.symm.trans next'))
      obtain ⟨others, read, rfl⟩ := Option.map_eq_some_iff.mp h
      obtain ⟨first, rfl⟩ := readFrame?_eq_some next
      obtain ⟨fit, rfl⟩ := ih read
      exact ⟨List.forall_mem_cons.mpr ⟨first, fit⟩, rfl⟩

/-- Bytes are read as the frames that they are. -/
theorem frames?_eq_some_iff {bytes : List UInt8} {payloads : List (List UInt8)} :
    frames? bytes = some payloads
      ↔ (∀ payload ∈ payloads, payload.length ≤ maxPayload) ∧ payloads.flatMap frame = bytes := by
  refine ⟨of_frames?, ?_⟩
  rintro ⟨fit, rfl⟩
  exact frames?_flatMap fit

/-! ## Writing frames -/

@[simp] theorem length_frame (payload : List UInt8) :
    (frame payload).length = lengthBytes + payload.length := by
  simp [frame]

/-- The payloads in front of the first that is too long for a length. -/
def fitting (ps : List (List UInt8)) : List (List UInt8) := ps.takeWhile (·.length ≤ maxPayload)

theorem fitting_cons {payload : List UInt8} (h : payload.length ≤ maxPayload)
    (rest : List (List UInt8)) : fitting (payload :: rest) = payload :: fitting rest :=
  List.takeWhile_cons_of_pos (decide_eq_true h)

theorem fitting_cons_of_lt {payload : List UInt8} (h : maxPayload < payload.length)
    (rest : List (List UInt8)) : fitting (payload :: rest) = [] :=
  List.takeWhile_cons_of_neg (by simpa using h)

theorem fitting_eq_self {ps : List (List UInt8)} (h : ∀ payload ∈ ps, payload.length ≤ maxPayload) :
    fitting ps = ps :=
  List.takeWhile_eq_self_iff.mpr fun payload mem => decide_eq_true (h payload mem)

theorem length_le_of_mem_fitting {ps : List (List UInt8)} :
    ∀ payload ∈ fitting ps, payload.length ≤ maxPayload := by
  intro payload mem
  have fits := List.mem_takeWhile_imp mem
  exact of_decide_eq_true fits

/-- A sink is given frame after frame what one write of them all would give it. -/
theorem writeFrom_eq (written : Nat) (ps : List (List UInt8)) (s : Sink) :
    writeFrom written ps s
      = match s.write ((fitting ps).flatMap frame) with
        | (.ok _, s) =>
          (if fitting ps = ps then .ok (written + ((fitting ps).flatMap frame).length)
            else .error .payloadTooLarge, s)
        | (.error fault, s) => (.error fault, s) := by
  induction ps generalizing written s with
  | nil => rfl
  | cons payload rest ih =>
    unfold writeFrom
    by_cases fits : payload.length ≤ maxPayload
    · rw [if_neg (Nat.not_lt_of_le fits), fitting_cons fits, List.flatMap_cons, Sink.write_append]
      cases s.write (frame payload) with
      | mk result s' =>
        cases result with
        | error fault => rfl
        | ok done =>
          simp only [ih, List.length_append, length_frame, List.cons.injEq, true_and,
            Nat.add_assoc]
    · have long := Nat.lt_of_not_le fits
      rw [if_pos long, fitting_cons_of_lt long]
      simp [Sink.write]

/-- What a stream is written as: the frames in front of the first payload that is too long. -/
theorem ofStream_eq (data : List UInt8) :
    ofStream data = (fitting (payloads data)).flatMap frame := by
  have all := Sink.write_holding .plain [] ((fitting (payloads data)).flatMap frame)
  rw [ofStream, write, writeFrom_eq, show Sink.unbounded .plain = .holding .plain [] from rfl, all]
  exact Sink.bytes_holding_plain _

/-- Writing frames answers what the sink says of them, in one write. -/
theorem write_eq (data : List UInt8) (s : Sink) :
    write data s
      = match s.write (ofStream data) with
        | (.ok _, s) =>
          (if fitting (payloads data) = payloads data then .ok (ofStream data).length
            else .error .payloadTooLarge, s)
        | (.error fault, s) => (.error fault, s) := by
  rw [write, writeFrom_eq, ← ofStream_eq, Nat.zero_add]

/-! ## Losing nothing -/

theorem strip_ne_nil {nal : List UInt8} (h : nal ≠ []) : strip nal ≠ [] := by
  cases nal with
  | nil => exact absurd rfl h
  | cons b rest =>
    -- an escape byte is only dropped behind two zero bytes
    rw [strip, stripFrom_cons (by omega)]
    exact List.cons_ne_nil _ _

theorem payloads_delimited {parts : List (List UInt8 × List UInt8)}
    (codes : ∀ part ∈ parts, part.1 ∈ Stream.startCodes)
    (units : ∀ part ∈ parts, Stream.IsUnit part.2) :
    payloads (Stream.delimited parts) = parts.map fun part => strip part.2 := by
  rw [payloads, Stream.units_delimited codes units, List.map_map]
  rfl

/-- Payloads behind start codes, with escape bytes where these have to be. -/
def escapedStream (parts : List (List UInt8 × List UInt8)) : List UInt8 :=
  Stream.delimited (parts.map fun part =>
    (part.1, ((Sink.unbounded .escaped).write part.2).2.bytes))

theorem escapedStream_eq (parts : List (List UInt8 × List UInt8)) :
    escapedStream parts
      = Stream.delimited (parts.map fun part => (part.1, escape part.2)) := by
  unfold escapedStream
  congr 1
  refine List.map_congr_left fun part _ => ?_
  have written := Sink.write_holding .escaped [] part.2
  rw [show Sink.holding .escaped [] = .unbounded .escaped from rfl] at written
  rw [written, List.nil_append, Sink.bytes_holding_escaped]

theorem payloads_escapedStream {parts : List (List UInt8 × List UInt8)}
    (h : ∀ part ∈ parts, part.1 ∈ Stream.startCodes ∧ part.2 ≠ [] ∧ part.2.getLast? ≠ some 0) :
    payloads (escapedStream parts) = parts.map (·.2) := by
  rw [escapedStream_eq, payloads_delimited]
  · rw [List.map_map]
    exact List.map_congr_left fun part _ => strip_escape part.2
  · rw [List.forall_mem_map]
    exact fun part mem => (h part mem).1
  · rw [List.forall_mem_map]
    exact fun part mem => Stream.isUnit_escape (h part mem).2.1 (h part mem).2.2

/-- The frames of a stream are read back, and they arrive in order wherever they are written. -/
structure Lossless (data : List UInt8) : Prop where
  /-- All payloads are written, unless one is too long for a length. -/
  all : (∀ payload ∈ payloads data, payload.length ≤ maxPayload) →
    fitting (payloads data) = payloads data
  nonempty : ∀ payload ∈ payloads data, payload ≠ []
  read : frames? (ofStream data) = some (fitting (payloads data))
  /-- Nothing else has the same frames. -/
  unambiguous : ∀ others : List (List UInt8), (∀ payload ∈ others, payload.length ≤ maxPayload) →
    others.flatMap frame = ofStream data → others = fitting (payloads data)
  counted : (write data (.unbounded .plain)).1
    = if fitting (payloads data) = payloads data then .ok (ofStream data).length
      else .error .payloadTooLarge
  /-- A sink that fails receives what it has room for, and the answer is its fault exactly if that
  is not all. -/
  failing : ∀ capacity fault,
    (write data (.failing .plain capacity fault)).2.bytes = (ofStream data).take capacity
      ∧ (write data (.failing .plain capacity fault)).1
          = if (ofStream data).length ≤ capacity then (write data (.unbounded .plain)).1
            else .error fault

theorem lossless (data : List UInt8) : Lossless data := by
  have read : frames? (ofStream data) = some (fitting (payloads data)) :=
    frames?_eq_some_iff.mpr ⟨length_le_of_mem_fitting, (ofStream_eq data).symm⟩
  have counted : (write data (.unbounded .plain)).1
      = if fitting (payloads data) = payloads data then .ok (ofStream data).length
        else .error .payloadTooLarge := by
    rw [write_eq, show Sink.unbounded .plain = .holding .plain [] from rfl, Sink.write_holding]
  refine ⟨fitting_eq_self, ?_, read, ?_, counted, ?_⟩
  · intro payload mem
    obtain ⟨unit, found, rfl⟩ := List.mem_map.mp mem
    exact strip_ne_nil (Stream.isUnit_of_mem found).nonempty
  · intro others fit same
    have twice := frames?_flatMap fit
    rw [same, read] at twice
    exact (Option.some.inj twice).symm
  · intro capacity fault
    obtain ⟨arrived, answer⟩ := Sink.write_failing capacity fault (ofStream data)
    rw [write_eq, counted]
    cases ran : (Sink.failing .plain capacity fault).write (ofStream data) with
    | mk result s =>
      rw [ran] at arrived answer
      by_cases room : (ofStream data).length ≤ capacity
      · rw [if_pos room] at answer ⊢
        obtain rfl : result = .ok () := answer
        exact ⟨arrived, rfl⟩
      · rw [if_neg room] at answer ⊢
        obtain rfl : result = .error fault := answer
        exact ⟨arrived, rfl⟩

/-! ## Units that are too long -/

/-- A stream has a unit that is too long for a length. -/
def Overlong (data : List UInt8) : Prop := ∃ payload ∈ payloads data, maxPayload < payload.length

theorem fitting_payloads_iff {data : List UInt8} :
    fitting (payloads data) = payloads data ↔ ¬Overlong data := by
  constructor
  · rintro same ⟨payload, mem, long⟩
    rw [← same] at mem
    exact Nat.not_lt_of_le (length_le_of_mem_fitting payload mem) long
  · intro short
    exact fitting_eq_self fun payload mem =>
      Nat.le_of_not_lt fun long => short ⟨payload, mem, long⟩

/-- Where there is room for everything, writing fails only for a unit that is too long. -/
theorem write_unbounded (data : List UInt8) :
    (¬Overlong data ∧ (write data (.unbounded .plain)).1 = .ok (ofStream data).length)
      ∨ (Overlong data ∧ (write data (.unbounded .plain)).1 = .error .payloadTooLarge) := by
  have counted := (lossless data).counted
  by_cases same : fitting (payloads data) = payloads data
  · rw [if_pos same] at counted
    exact .inl ⟨fitting_payloads_iff.mp same, counted⟩
  · rw [if_neg same] at counted
    exact .inr ⟨of_not_not (mt fitting_payloads_iff.mpr same), counted⟩

/-- Nothing is written of a stream whose first unit is too long. -/
theorem overlong_of_first {data payload : List UInt8} {rest : List (List UInt8)}
    (found : payloads data = payload :: rest) (long : maxPayload < payload.length) :
    Overlong data ∧ ofStream data = [] := by
  refine ⟨⟨payload, found ▸ List.mem_cons_self, long⟩, ?_⟩
  rw [ofStream_eq, found, fitting_cons_of_lt long]
  rfl

theorem overlong_of_nonzero {unit : List UInt8} (nonzero : ∀ b ∈ unit, b ≠ 0)
    (long : maxPayload < unit.length) :
    Overlong (startCode ++ unit) ∧ ofStream (startCode ++ unit) = [] := by
  have some : unit ≠ [] := List.ne_nil_of_length_pos (Nat.zero_lt_of_lt long)
  have codes : ∀ part ∈ [(startCode, unit)], part.1 ∈ Stream.startCodes := by
    simp [Stream.startCodes]
  have units : ∀ part ∈ [(startCode, unit)], Stream.IsUnit part.2 := by
    simpa using Stream.isUnit_of_nonzero some nonzero
  have found : payloads (startCode ++ unit) = [unit] := by
    simpa [Stream.delimited, strip_of_nonzero nonzero] using payloads_delimited codes units
  exact overlong_of_first found long

/-! ## Framing -/

/-- Payloads that do not end in a zero byte come out of a stream as they went into it, each after
its length if it is not too long for one; and whatever a stream is, what is written of it can be
read back. -/
theorem lossless_framing :
    (∀ parts : List (List UInt8 × List UInt8),
      (∀ part ∈ parts, part.1 ∈ Stream.startCodes ∧ part.2 ≠ [] ∧ part.2.getLast? ≠ some 0) →
        payloads (escapedStream parts) = parts.map (·.2)
          ∧ ((∀ part ∈ parts, part.2.length ≤ maxPayload) →
              (write (escapedStream parts) (.unbounded .plain)).1
                  = .ok (ofStream (escapedStream parts)).length
                ∧ ofStream (escapedStream parts) = (parts.map (·.2)).flatMap frame))
      ∧ (∀ data, Lossless data) ∧ Fault.kind .payloadTooLarge = .invalidData := by
  refine ⟨fun parts usual => ?_, lossless, rfl⟩
  have same := payloads_escapedStream usual
  refine ⟨same, fun fit => ?_⟩
  have whole : fitting (payloads (escapedStream parts)) = payloads (escapedStream parts) := by
    rw [same]
    exact fitting_eq_self (List.forall_mem_map.mpr fit)
  refine ⟨?_, ?_⟩
  · rw [(lossless _).counted, if_pos whole]
  · rw [ofStream_eq, whole, same]

/-- Two payloads that need escape bytes, behind start codes of either length. -/
def escapedParts : List (List UInt8 × List UInt8) :=
  [(startCode, [0x40, 0x00, 0x00, 0x01]), (longStartCode, [0x00, 0x00, 0x00, 0x00, 0x05])]

theorem lossless_framing_escapedParts :
    (∀ part ∈ escapedParts,
        part.1 ∈ Stream.startCodes ∧ part.2 ≠ [] ∧ part.2.getLast? ≠ some 0)
      ∧ escapedStream escapedParts
          = [0x00, 0x00, 0x01, 0x40, 0x00, 0x00, 0x03, 0x01, 0x00, 0x00, 0x00, 0x01, 0x00, 0x00,
            0x03, 0x00, 0x00, 0x05]
      ∧ ofStream (escapedStream escapedParts)
          = [0x00, 0x00, 0x00, 0x04, 0x40, 0x00, 0x00, 0x01, 0x00, 0x00, 0x00, 0x05, 0x00, 0x00,
            0x00, 0x00, 0x05] := by
  have usual : ∀ part ∈ escapedParts,
      part.1 ∈ Stream.startCodes ∧ part.2 ≠ [] ∧ part.2.getLast? ≠ some 0 := by
    decide
  have fit : ∀ part ∈ escapedParts, part.2.length ≤ maxPayload := by decide
  refine ⟨usual, by decide, ?_⟩
  rw [((lossless_framing.1 _ usual).2 fit).2]
  decide

/-- A payload of four gigabytes, behind a start code. -/
def longParts : List (List UInt8 × List UInt8) := [(startCode, List.replicate (2 ^ 32) 0x41)]

/-- Such a payload comes out of its stream, but it has no frame: nothing is written of it, and the
answer is a fault, even though a sink that takes nothing has room for all that is written. -/
theorem longParts_unframed :
    (∀ part ∈ longParts, part.1 ∈ Stream.startCodes ∧ part.2 ≠ [] ∧ part.2.getLast? ≠ some 0)
      ∧ payloads (escapedStream longParts) = [List.replicate (2 ^ 32) 0x41]
      ∧ (write (escapedStream longParts) (.unbounded .plain)).1 = .error .payloadTooLarge
      ∧ frames? (ofStream (escapedStream longParts)) = some []
      ∧ (ofStream (escapedStream longParts)).length ≤ 0
      ∧ (write (escapedStream longParts) (.failing .plain 0 .sinkFull)).1
          = .error .payloadTooLarge := by
  -- that no byte of the payload is zero is all that has to be known of it
  have nonzero : ∀ b ∈ List.replicate (2 ^ 32) (0x41 : UInt8), b ≠ 0 := by
    intro b mem
    rw [List.eq_of_mem_replicate mem]
    decide
  have long : maxPayload < (List.replicate (2 ^ 32) (0x41 : UInt8)).length := by
    rw [List.length_replicate]
    decide
  have usual : ∀ part ∈ longParts,
      part.1 ∈ Stream.startCodes ∧ part.2 ≠ [] ∧ part.2.getLast? ≠ some 0 := by
    intro part mem
    obtain rfl := List.mem_singleton.mp mem
    exact ⟨List.mem_cons_self, List.ne_nil_of_length_pos (Nat.zero_lt_of_lt long),
      fun zero => nonzero 0 (List.mem_of_getLast? zero) rfl⟩
  have found : payloads (escapedStream longParts) = [List.replicate (2 ^ 32) 0x41] :=
    payloads_escapedStream usual
  obtain ⟨overlong, nothing⟩ := overlong_of_first found long
  have refused : (write (escapedStream longParts) (.unbounded .plain)).1
      = .error .payloadTooLarge := by
    rcases write_unbounded (escapedStream longParts) with ⟨short, -⟩ | ⟨-, refused⟩
    · exact absurd overlong short
    · exact refused
  have room : (ofStream (escapedStream longParts)).length ≤ 0 := by rw [nothing, List.length_nil]
  refine ⟨usual, found, refused, ?_, room, ?_⟩
  · rw [nothing, frames?]
    rfl
  · rw [((lossless (escapedStream longParts)).failing 0 .sinkFull).2, if_pos room, refused]

end LengthPrefixed

end Hevc
