import Hevc.Proofs.Record.Build
import Hevc.Proofs.Record.Refusal
import Hevc.Proofs.Sink

/-!
# Converting is all or nothing

Nothing of a record reaches the sink before all of it is known, so a stream without a record
leaves the sink as it was, and the data is to blame. What then goes wrong is the sink's fault
alone, however it words it.

* `ofData_of_build`, `isInvalidData_of_toBytes` — a record that cannot be built or written
  is the fault of the data
* `not_stream_of_toBytes` — the bytes of a record are no stream
* `convert_failing` — what arrives in a sink that fails after some bytes, and what is reported
-/

namespace Hevc

/-! ## Whose fault it is -/

/-- An error that the data is to blame for, and not the arithmetic on it. -/
def Error.OfData (e : Error) : Prop := e.isInvalidData = true ∧ e ≠ .invalidData .arithmetic

theorem Fault.isInvalidData_toError {fault : Fault}
    (h : fault.kind = .invalidData ∨ fault.kind = .unexpectedEof) :
    fault.toError.isInvalidData = true := by
  unfold Fault.toError
  split
  · rfl
  · rcases h with kind | kind <;> rw [kind] <;> rfl

namespace Record

/-- A stream that no record can be built of is the fault of the data. -/
theorem ofData_of_build {options : Options} {data : List UInt8} {e : Error}
    (error : build options data = .error e) : e.OfData := by
  obtain ⟨cause, rfl, other⟩ := invalidData_of_build error
  exact ⟨rfl, fun same => other (Error.invalidData.inj same)⟩

/-! ## Records that have no written form -/

/-- A record that has no written form is the fault of the data. -/
theorem isInvalidData_of_toBytes {r : Record} {fault : Fault} (error : r.toBytes = .error fault) :
    fault.toError.isInvalidData = true := by
  rw [toBytes_eq_form] at error
  split at error
  · exact absurd error (by simp)
  · next cut =>
    rw [Except.error.inj error] at cut
    exact Fault.isInvalidData_toError (.inl (blames_form r fault cut))

/-! ## The written form -/

/-- The bytes of a built record, as many as its size says, carry its written form. -/
theorem toBytes_build {options : Options} {data bytes : List UInt8} {r : Record}
    (built : build options data = .ok r) (written : r.toBytes = .ok bytes) :
    bytes.length = r.size ∧ Bits.ofBytes bytes = Item.allBits r.items := by
  obtain ⟨found, again, size, bits⟩ := toBytes_of_fits (fits_reduced built written)
  rw [toBytes_reduced, written] at again
  obtain rfl := Except.ok.inj again
  rw [items_reduced] at bits
  exact ⟨size, bits⟩

/-- A record begins with its version, and a stream with a zero byte. -/
theorem not_stream_of_toBytes {r : Record} {bytes : List UInt8} (written : r.toBytes = .ok bytes) :
    startsWithStartCode bytes = false := by
  have few := (countable_of_toBytes written).arrays
  rw [toBytes_eq_form] at written
  split at written
  · obtain rfl := Except.ok.inj written
    unfold form
    rw [if_neg (Nat.not_lt_of_le few)]
    rfl
  · exact absurd written (by simp)

/-! ## What arrives -/

/-- What comes of writing bytes into a sink that takes `capacity` bytes: the front of them
arrives, and the failure is the sink's, in its own words, if that is not all of them. -/
def Delivered (bytes : List UInt8) (capacity : Nat) (fault : Fault)
    (outcome : Except Error Unit × Sink) : Prop :=
  outcome.2.bytes = bytes.take capacity
    ∧ outcome.1 = if bytes.length ≤ capacity then .ok () else .error (.io fault)

/-- Nothing arrives, and the data is to blame. -/
def Refused (e : Error) (outcome : Except Error Unit × Sink) : Prop :=
  outcome.1 = .error e ∧ outcome.2.bytes = [] ∧ e.isInvalidData = true

theorem delivered_writeThrough (data : List UInt8) (capacity : Nat) (fault : Fault) :
    Delivered data capacity fault (writeThrough data (.failing .plain capacity fault)) := by
  obtain ⟨arrived, answer⟩ := Sink.write_failing capacity fault data
  refine ⟨arrived, ?_⟩
  show Except.mapError Error.io (Sink.write data _).1 = _
  rw [answer]
  split <;> rfl

theorem convert_of_not_stream {data : List UInt8} (h : startsWithStartCode data = false)
    (options : Options) (sink : Sink) : convert options data sink = writeThrough data sink := by
  rw [convert, h]
  rfl

theorem convert_of_build_error {options : Options} {data : List UInt8} {e : Error}
    (stream : startsWithStartCode data = true) (built : build options data = .error e)
    (sink : Sink) : convert options data sink = (.error e, sink) := by
  rw [convert, stream, buildBytes, built]
  rfl

theorem convert_of_toBytes_error {options : Options} {data : List UInt8} {r : Record}
    {fault : Fault} (stream : startsWithStartCode data = true) (built : build options data = .ok r)
    (refused : r.toBytes = .error fault) (sink : Sink) :
    convert options data sink = (.error fault.toError, sink) := by
  have bytes : buildBytes options data = .error fault.toError := by
    rw [buildBytes, built]
    exact congrArg (Except.mapError Fault.toError) refused
  rw [convert, stream, bytes]
  rfl

theorem convert_of_toBytes {options : Options} {data bytes : List UInt8} {r : Record}
    (stream : startsWithStartCode data = true) (built : build options data = .ok r)
    (written : r.toBytes = .ok bytes) (sink : Sink) :
    convert options data sink = writeThrough bytes sink := by
  have found : buildBytes options data = .ok bytes := by
    rw [buildBytes, built]
    exact congrArg (Except.mapError Fault.toError) written
  rw [convert, stream, found]
  rfl

/-! ## All or nothing -/

/-- What is promised of converting into a sink that takes `capacity` bytes and then fails with the
given fault. -/
structure AllOrNothing (options : Options) (data : List UInt8) (capacity : Nat) (fault : Fault)
    (outcome : Except Error Unit × Sink) : Prop where
  /-- Data that is no stream goes through. -/
  notStream : startsWithStartCode data = false → Delivered data capacity fault outcome
  /-- Nothing is written of a stream that no record can be built of. -/
  notBuilt : startsWithStartCode data = true → ∀ e, build options data = .error e →
    Refused e outcome
  /-- Nothing is written of a record that has no written form. -/
  notWritten : startsWithStartCode data = true → ∀ r cause, build options data = .ok r →
    r.toBytes = .error cause → Refused cause.toError outcome
  /-- The bytes of a record, as many as its size says, are written. -/
  written : startsWithStartCode data = true → ∀ r bytes, build options data = .ok r →
    r.toBytes = .ok bytes → bytes.length = r.size ∧ Delivered bytes capacity fault outcome
  /-- A complete output is not converted any further. -/
  again : outcome.1 = .ok () → ∀ options room other,
    Delivered outcome.2.bytes room other
      (convert options outcome.2.bytes (.failing .plain room other))

variable {options : Options} {data : List UInt8} {capacity : Nat} {fault : Fault}

/-- Everything that was to be written is there once the write has succeeded. -/
theorem Delivered.complete {bytes : List UInt8} {outcome : Except Error Unit × Sink}
    (h : Delivered bytes capacity fault outcome) (done : outcome.1 = .ok ()) :
    outcome.2.bytes = bytes := by
  obtain ⟨arrived, answer⟩ := h
  rw [answer] at done
  split at done
  · next room => rw [arrived, List.take_of_length_le room]
  · exact absurd done (by simp)

/-- Converting ends in one of three ways. -/
theorem convert_cases (options : Options) (data : List UInt8) (sink : Sink) :
    (startsWithStartCode data = false ∧ convert options data sink = writeThrough data sink)
      ∨ (∃ e, convert options data sink = (.error e, sink))
      ∨ ∃ r bytes, build options data = .ok r ∧ r.toBytes = .ok bytes
          ∧ convert options data sink = writeThrough bytes sink := by
  cases stream : startsWithStartCode data with
  | false => exact .inl ⟨rfl, convert_of_not_stream stream options sink⟩
  | true =>
    refine .inr ?_
    cases built : build options data with
    | error e => exact .inl ⟨e, convert_of_build_error stream built sink⟩
    | ok r =>
      cases written : r.toBytes with
      | error cause =>
        exact .inl ⟨cause.toError, convert_of_toBytes_error stream built written sink⟩
      | ok bytes =>
        exact .inr ⟨r, bytes, rfl, written, convert_of_toBytes stream built written sink⟩

/-- Neither data that went through nor a record is a stream. -/
theorem not_stream_of_complete
    (done : (convert options data (.failing .plain capacity fault)).1 = .ok ()) :
    startsWithStartCode (convert options data (.failing .plain capacity fault)).2.bytes
      = false := by
  rcases convert_cases options data (.failing .plain capacity fault) with
    ⟨stream, same⟩ | ⟨e, same⟩ | ⟨r, bytes, built, written, same⟩
  · rw [same] at done ⊢
    rw [(delivered_writeThrough data capacity fault).complete done]
    exact stream
  · rw [same] at done
    exact absurd done (by simp)
  · rw [same] at done ⊢
    rw [(delivered_writeThrough bytes capacity fault).complete done]
    exact not_stream_of_toBytes written

/-- Converting is all or nothing, and blames the data or the sink as each deserves. -/
theorem convert_failing (options : Options) (data : List UInt8) (capacity : Nat)
    (fault : Fault) :
    AllOrNothing options data capacity fault
      (convert options data (.failing .plain capacity fault)) where
  notStream := by
    intro stream
    rw [convert_of_not_stream stream]
    exact delivered_writeThrough data capacity fault
  notBuilt := by
    intro stream e built
    rw [convert_of_build_error stream built]
    exact ⟨rfl, rfl, (ofData_of_build built).1⟩
  notWritten := by
    intro stream r cause built refused
    rw [convert_of_toBytes_error stream built refused]
    exact ⟨rfl, rfl, isInvalidData_of_toBytes refused⟩
  written := by
    intro stream r bytes built written
    rw [convert_of_toBytes stream built written]
    exact ⟨(toBytes_build built written).1, delivered_writeThrough bytes capacity fault⟩
  again := by
    intro done again room other
    rw [convert_of_not_stream (not_stream_of_complete done)]
    exact delivered_writeThrough _ room other

/-- A sink that blames the data for its own failure, five bytes into a record. -/
theorem convert_failing_sample :
    (convert .default (sampleStream oneLayerVps)
        (.failing .plain 5 (.surroundings .invalidData "bad block"))).1
      = .error (.io (.surroundings .invalidData "bad block"))
    ∧ (convert .default (sampleStream oneLayerVps)
        (.failing .plain 5 (.surroundings .invalidData "bad block"))).2.bytes
      = [0x01, 0x01, 0x60, 0x11, 0x11] := by
  have built : build .default (sampleStream oneLayerVps) = .ok (sampleRecord oneLayerVps 1) :=
    toOption_ok (by decide +kernel)
  have front : ((sampleRecord oneLayerVps 1).toBytes.toOption.map (·.take 5))
      = some [0x01, 0x01, 0x60, 0x11, 0x11] := by decide +kernel
  obtain ⟨bytes, found, first⟩ := Option.map_eq_some_iff.mp front
  obtain ⟨size, arrived, answer⟩ :=
    (convert_failing .default (sampleStream oneLayerVps) 5
      (.surroundings .invalidData "bad block")).written (by decide) _ bytes built
      (toOption_ok found)
  have long : (sampleRecord oneLayerVps 1).size = 86 := by decide +kernel
  rw [arrived, first, answer, size, long]
  exact ⟨rfl, rfl⟩

end Record

end Hevc
