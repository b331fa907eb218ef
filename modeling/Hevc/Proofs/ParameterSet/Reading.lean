import Hevc.ParameterSet.Pps
import Hevc.ParameterSet.Sps
import Hevc.ParameterSet.Vps
import Hevc.Proofs.Locality
import Hevc.Proofs.NalUnit
import Hevc.Proofs.Sink

/-!
# What a parameter set is read from

* `NalUnit.selfContained_of_read` — a unit is read from the bytes that were taken and no others,
  and none of them can be left away
* `NalUnit.transparent_read` — a unit is read from its bytes without the escape bytes
-/

namespace Hevc

variable {α : Type}

/-! ## Bytes that are not taken -/

/-- Reading takes no notice of what follows the bytes that it takes, and refuses any fewer of them
for the reason that the data ends. -/
structure SelfContained (read : List UInt8 → Reading α) (nal : List UInt8) : Prop where
  taken_le : (read nal).taken ≤ nal.length
  followed : ∀ more, read (nal.take (read nal).taken ++ more) = read nal
  cut : ∀ m < (read nal).taken, ∃ fault, (read (nal.take m)).result = .error (.invalidData fault)
    ∧ fault.kind = .unexpectedEof

attribute [ext] Reading

namespace NalUnit

variable {type : NalType} {d : Decoder α}

theorem result_read (type : NalType) (d : Decoder α) (nal : List UInt8) :
    (read type d nal).result
      = ((decoder type d).run (.ofBytes .escaped nal)).1.mapError Fault.toError := rfl

theorem run_of_read {nal : List UInt8} {unit : NalUnit α}
    (ok : (read type d nal).result = .ok unit) :
    ((decoder type d).run (.ofBytes .escaped nal)).1 = .ok unit := by
  rw [result_read] at ok
  cases ran : ((decoder type d).run (.ofBytes .escaped nal)).1 with
  | error fault =>
    rw [ran] at ok
    exact absurd (show Except.error fault.toError = .ok unit from ok) (by simp)
  | ok found =>
    rw [ran] at ok
    exact congrArg Except.ok (Except.ok.inj ok)

theorem toError_of_eof {fault : Fault} (h : fault.kind = .unexpectedEof) :
    fault.toError = .invalidData fault := by
  unfold Fault.toError
  split
  · exact absurd h (by simp [Fault.kind])
  · rw [h]

/-- A unit that was read is the same whatever follows the bytes that were taken for it. -/
theorem selfContained_of_read {nal : List UInt8} {unit : NalUnit α}
    (ok : (read type d nal).result = .ok unit) : SelfContained (read type d) nal := by
  obtain ⟨within, followed, cut⟩ := (decoder type d).run_local (run_of_read ok) rfl
  refine ⟨within, fun more => ?_, fun m fewer => ?_⟩
  · obtain ⟨value, taken⟩ := followed more
    have result : (read type d (nal.take (read type d nal).taken ++ more)).result
        = (read type d nal).result := by
      rw [ok, result_read]
      exact congrArg (Except.mapError Fault.toError) value
    exact Reading.ext result taken
  · obtain ⟨fault, refused, kind⟩ := cut m fewer
    refine ⟨fault, ?_, kind⟩
    rw [result_read, refused, ← toError_of_eof kind]
    rfl

end NalUnit

/-- Each of the three parameter sets is read from the bytes that are taken for it. -/
theorem parameterSets_selfContained (nal : List UInt8) :
    (∀ unit, (Vps.read nal).result = .ok unit → SelfContained Vps.read nal)
      ∧ (∀ unit, (Sps.read nal).result = .ok unit → SelfContained Sps.read nal)
      ∧ ∀ unit, (Pps.read nal).result = .ok unit → SelfContained Pps.read nal :=
  ⟨fun _ ok => NalUnit.selfContained_of_read ok, fun _ ok => NalUnit.selfContained_of_read ok,
    fun _ ok => NalUnit.selfContained_of_read ok⟩

/-- A sequence parameter set with three escape bytes. -/
def escapedSps : List UInt8 :=
  [0x42, 0x01, 0x01, 0x01, 0x60, 0x00, 0x00, 0x03, 0x00, 0x90, 0x00, 0x00, 0x03, 0x00, 0x00, 0x03,
    0x00, 0x5d, 0xa0, 0x20, 0x81, 0x05, 0x95, 0xff, 0x08, 0x40]

/-- What follows it has no part in it, and cut off behind an escape byte it is refused. -/
theorem parameterSets_selfContained_escapedSps :
    (Sps.read (escapedSps ++ [0x00, 0x00, 0x03])).taken = 26
      ∧ Sps.read escapedSps = Sps.read (escapedSps ++ [0x00, 0x00, 0x03])
      ∧ ∃ fault, (Sps.read (escapedSps.take 16)).result = .error (.invalidData fault)
          ∧ fault.kind = .unexpectedEof := by
  have there : (Sps.read (escapedSps ++ [0x00, 0x00, 0x03])).result.toOption.isSome := by
    decide +kernel
  obtain ⟨unit, found⟩ := Option.isSome_iff_exists.mp there
  have taken : (Sps.read (escapedSps ++ [0x00, 0x00, 0x03])).taken = 26 := by decide +kernel
  obtain ⟨-, followed, cut⟩ := (parameterSets_selfContained _).2.1 unit (toOption_ok found)
  rw [taken] at followed cut
  exact ⟨taken, followed [], cut 16 (by decide)⟩

/-! ## Escape bytes -/

/-- Reads a header of the expected type and then a payload from bytes without escape bytes. -/
def NalUnit.readPlain (type : NalType) (payload : Decoder α) (bytes : List UInt8) :
    Except Error (NalUnit α) :=
  ((decoder type payload).run (.ofBytes .plain bytes)).1.mapError Fault.toError

/-- Writes pieces one after another, inserting escape bytes. -/
def writePieces (pieces : List (List UInt8)) : Sink :=
  pieces.foldl (fun sink piece => (sink.write piece).2) (.unbounded .escaped)

/-- Reading sees a unit without its escape bytes: what it makes of the unit is what `plain` makes
of that. -/
structure Transparent (read : List UInt8 → Reading α)
    (plain : List UInt8 → Except Error (NalUnit α)) : Prop where
  stripped : ∀ nal, (read nal).result = plain (strip nal)
  /-- Units that only differ in their escape bytes are read alike. -/
  alike : ∀ nal other, strip nal = strip other → (read nal).result = (read other).result
  /-- Writing inserts no escape bytes that reading would mistake. -/
  written : ∀ pieces, (read (writePieces pieces).bytes).result = plain pieces.flatten

theorem bytes_writePieces (pieces : List (List UInt8)) :
    (writePieces pieces).bytes = escape pieces.flatten := Sink.bytes_writeEach_unbounded pieces

/-- Escape bytes have no part in what a unit is read as. -/
theorem NalUnit.transparent_read (type : NalType) (d : Decoder α) :
    Transparent (read type d) (readPlain type d) := by
  have stripped : ∀ nal, (read type d nal).result = readPlain type d (strip nal) := by
    intro nal
    rw [result_read, readPlain, Decoder.run_ofBytes_fst, Decoder.run_ofBytes_fst,
      Source.payload_plain]
    rfl
  refine ⟨stripped, fun nal other same => ?_, fun pieces => ?_⟩
  · rw [stripped, stripped, same]
  · rw [stripped, bytes_writePieces, strip_escape]

/-- None of the three parameter sets depends on its escape bytes. -/
theorem parameterSets_transparent :
    Transparent Vps.read (NalUnit.readPlain .vps Vps.decoder)
      ∧ Transparent Sps.read (NalUnit.readPlain .sps Sps.decoder)
      ∧ Transparent Pps.read (NalUnit.readPlain .pps Pps.decoder) :=
  ⟨NalUnit.transparent_read .vps Vps.decoder, NalUnit.transparent_read .sps Sps.decoder,
    NalUnit.transparent_read .pps Pps.decoder⟩

end Hevc
