import Hevc.Proofs.ParameterSet.Reading
import Hevc.Proofs.ParameterSet.Safe
import Hevc.Proofs.Record.Absorb

/-!
# Streams without a record

A stream has no record if a parameter set of it cannot be read, if a unit is too large to be
carried, or if a type that a record needs does not occur. The first unit that is at fault decides
what is reported, and the data is to blame in every case.

* `NalHeader.announced_of_run` — the type that a header is read as is the one that the first byte
  announces
* `invalidData_of_build` — the data is to blame for a record that is not built
* `build_judged` — when a record is built, and what is reported if none is
-/

namespace Hevc

open Decoder

/-! ## Announced types -/

theorem nalTypeOf?_eq_some {nal : List UInt8} {type : NalType} (h : nalTypeOf? nal = some type) :
    ∃ b rest, nal = b :: rest ∧ NalType.ofCode (b.toNat / 2) = type := by
  cases nal with
  | nil => exact absurd h (by simp [nalTypeOf?])
  | cons b rest => exact ⟨b, rest, rfl, Option.some.inj h⟩

/-- The first byte of a unit is no escape byte. -/
theorem bits_ofBytes_cons (b : UInt8) (rest : List UInt8) :
    ∃ more, Bits.ofBytes (Source.ofBytes .escaped (b :: rest)).payload = Bits.ofByte b ++ more := by
  refine ⟨Bits.ofBytes (stripFrom (zeroRun 0 b) [] rest), ?_⟩
  show Bits.ofBytes (stripFrom 0 [] (b :: rest)) = _
  rw [stripFrom_cons (by omega), Bits.ofBytes_cons]

namespace NalHeader

/-- The type is read from six bits of the first byte. -/
theorem type_of_eval {b : UInt8} {more left : List Bool} {header : NalHeader}
    (h : decoder.eval (Bits.ofByte b ++ more) = (.ok header, left)) :
    header.type = .ofCode (b.toNat / 2) := by
  have split : Bits.ofByte b
      = b.toNat.testBit 7 :: (Bits.ofNat (b.toNat / 2) 6 ++ Bits.ofNat b.toNat 1) := by
    rw [Bits.ofByte, Bits.ofNat, Bits.ofNat_add b.toNat 6 1, Nat.pow_one]
  have code := eval_bits_any (Bits.length_ofNat (b.toNat / 2) 6) (Bits.ofNat b.toNat 1 ++ more)
  rw [Bits.toNat, Bits.toNatFrom_ofNat, Nat.zero_mul, Nat.zero_add] at code
  rw [split, List.cons_append, List.append_assoc] at h
  change (if b.toNat.testBit 7 then Decoder.fail .forbiddenBit else bits 6 >>= _).eval _ = _ at h
  split at h
  · exact absurd h (by simp [eval])
  · rw [eval_bind_ok code] at h
    have same := Ensures.of_eval (P := (·.type = .ofCode (b.toNat / 2 % 2 ^ 6)))
      (.bind_any fun _ => .bind_any fun _ => .pure rfl) h
    exact same.trans (NalType.ofCode_mod _)

/-- Where a header can be read, its type is the one that the first byte announces. -/
theorem announced_of_run {nal : List UInt8} {header : NalHeader}
    (h : (decoder.run (.ofBytes .escaped nal)).1 = .ok header) :
    nalTypeOf? nal = some header.type := by
  rw [run_ofBytes_fst] at h
  cases nal with
  | nil => exact absurd (show Except.error Fault.endOfData = .ok header from h) (by simp)
  | cons b rest =>
    obtain ⟨more, bits⟩ := bits_ofBytes_cons b rest
    rw [bits] at h
    exact congrArg some (type_of_eval (Prod.ext h rfl)).symm

/-- A header of the type that the first byte announces is refused for its forbidden bit only, or
because it is cut off. -/
theorem expecting_forbids {b : UInt8} {more left : List Bool} {fault : Fault}
    (h : (expecting (.ofCode (b.toNat / 2))).eval (Bits.ofByte b ++ more) = (.error fault, left)) :
    fault = .forbiddenBit ∨ fault.kind = .unexpectedEof := by
  rcases eval_bind_error_cases h with failed | ⟨header, rest, ran, failed⟩
  · exact (decoder_safe (E := (· = .forbiddenBit)) rfl).eval_error failed
  · rw [if_pos (type_of_eval ran)] at failed
    exact absurd failed (by simp [Pure.pure, eval])

end NalHeader

/-- A fault that a unit of the announced type can have. -/
def Fault.OfUnit (fault : Fault) : Prop :=
  fault.OfElement ∨ fault = .forbiddenBit ∨ fault.kind = .unexpectedEof

theorem Fault.OfUnit.toError {fault : Fault} (h : fault.OfUnit) :
    fault.toError = .invalidData fault := by
  rcases h with element | rfl | eof
  · cases fault with
    | codeTooLong | outOfRange => rfl
    | _ => exact absurd element id
  · rfl
  · exact NalUnit.toError_of_eof eof

theorem Fault.OfUnit.ne_arithmetic {fault : Fault} (h : fault.OfUnit) : fault ≠ .arithmetic := by
  rintro rfl
  rcases h with element | forbidden | eof
  · exact element
  · exact absurd forbidden (by simp)
  · exact absurd eof (by decide)

namespace NalUnit

variable {α : Type} {P : α → Prop} {payload : Decoder α} {n : Nat}
  (safe : payload.Safe Fault.OfElement P n)
include safe

theorem ofUnit_of_eval {b : UInt8} {more left : List Bool} {fault : Fault}
    (h : (decoder (.ofCode (b.toNat / 2)) payload).eval (Bits.ofByte b ++ more)
      = (.error fault, left)) : fault.OfUnit := by
  rcases eval_bind_error_cases h with failed | ⟨header, rest, -, failed⟩
  · exact .inr (NalHeader.expecting_forbids failed)
  · have body := safe.map (f := NalUnit.mk header) (Q := fun _ => True) fun _ _ => trivial
    exact (body.eval_error failed).imp_right .inr

/-- A unit is read as one of the type that it announces, so another type is never the reason to
refuse it. -/
theorem ofUnit_of_read {type : NalType} {nal : List UInt8} (announced : nalTypeOf? nal = some type)
    {e : Error} (error : (read type payload nal).result = .error e) :
    ∃ cause : Fault, cause.OfUnit ∧ e = .invalidData cause := by
  obtain ⟨b, rest, rfl, rfl⟩ := nalTypeOf?_eq_some announced
  obtain ⟨more, bits⟩ := bits_ofBytes_cons b rest
  rw [result_read, run_ofBytes_fst, bits] at error
  cases ran : (decoder (.ofCode (b.toNat / 2)) payload).eval (Bits.ofByte b ++ more) with
  | mk result left =>
    rw [ran] at error
    cases result with
    | ok unit => exact absurd error (by simp [Except.mapError])
    | error fault =>
      obtain rfl := Except.error.inj error
      have unit := ofUnit_of_eval safe ran
      exact ⟨fault, unit, unit.toError⟩

end NalUnit

namespace Record

/-! ## Units at fault -/

theorem ofUnit_of_unreadable {nal : List UInt8} {e : Error} (h : unreadable? nal = some e) :
    ∃ cause : Fault, cause.OfUnit ∧ e = .invalidData cause := by
  unfold unreadable? at h
  split at h
  · next announced =>
    exact NalUnit.ofUnit_of_read Vps.decoder_safe announced (failure?_eq_some.mp h)
  · next announced =>
    exact NalUnit.ofUnit_of_read Sps.decoder_safe announced (failure?_eq_some.mp h)
  · next announced =>
    exact NalUnit.ofUnit_of_read Pps.decoder_safe announced (failure?_eq_some.mp h)
  · exact absurd h (by simp)

/-- A unit that is at fault blames the data, and not the arithmetic on it. -/
theorem invalidData_of_offence? {options : Options} {nal : List UInt8} {e : Error}
    (h : offence? options nal = some e) :
    ∃ cause, e = .invalidData cause ∧ cause ≠ .arithmetic := by
  rcases Option.or_eq_some_iff.mp h with unreadable | ⟨-, oversized⟩
  · obtain ⟨cause, unit, rfl⟩ := ofUnit_of_unreadable unreadable
    exact ⟨cause, rfl, unit.ne_arithmetic⟩
  · unfold oversized? at oversized
    split at oversized
    · exact absurd oversized (by simp)
    · split at oversized
      · exact ⟨_, (Option.some.inj oversized).symm, by simp⟩
      · exact absurd oversized (by simp)

theorem build_ok_iff {options : Options} {data : List UInt8} :
    (∃ r, build options data = .ok r)
      ↔ (∀ nal ∈ Stream.units data, offence? options nal = none) ∧ absent? data = none := by
  rw [build_eq, ← List.findSome?_eq_none_iff]
  cases (Stream.units data).findSome? (offence? options) with
  | some e => simp
  | none => cases absent? data <;> simp

theorem build_error_iff {options : Options} {data : List UInt8} {e : Error} :
    build options data = .error e
      ↔ (Stream.units data).findSome? (offence? options) = some e
        ∨ (∀ nal ∈ Stream.units data, offence? options nal = none)
          ∧ ∃ type, absent? data = some type ∧ e = .invalidData (.missing type) := by
  rw [build_eq, ← List.findSome?_eq_none_iff]
  cases (Stream.units data).findSome? (offence? options) with
  | some e => simp
  | none => cases absent? data <;> simp [eq_comm]

/-- The data is to blame for a record that is not built, and not the arithmetic on it. -/
theorem invalidData_of_build {options : Options} {data : List UInt8} {e : Error}
    (error : build options data = .error e) :
    ∃ cause, e = .invalidData cause ∧ cause ≠ .arithmetic := by
  rcases build_error_iff.mp error with first | ⟨-, type, -, rfl⟩
  · obtain ⟨nal, -, offence⟩ := List.exists_of_findSome?_eq_some first
    exact invalidData_of_offence? offence
  · exact ⟨_, rfl, by simp⟩

/-! ## All of it -/

/-- What is promised of building the record of a stream. -/
structure Judged (options : Options) (data : List UInt8) : Prop where
  /-- A record is built if each parameter set can be read, each unit that is kept can be carried,
  and no type of parameter sets is missing. -/
  built : (∃ r, build options data = .ok r)
    ↔ (∀ nal ∈ Stream.units data, Readable nal)
      ∧ (∀ nal ∈ Stream.units data, ∀ type, nalTypeOf? nal = some type →
          type ∈ NalType.carried → (type.isSei → options.includeSei) → nal.length ≤ maxUnitSize)
      ∧ ∀ type ∈ required, ∃ nal ∈ Stream.units data, nalTypeOf? nal = some type
  /-- The first unit at fault is reported. If none is, it is the first type that does not occur. -/
  refused : ∀ e, build options data = .error e
    ↔ (∃ before nal after, Stream.units data = before ++ nal :: after
          ∧ offence? options nal = some e ∧ ∀ other ∈ before, offence? options other = none)
      ∨ (∀ nal ∈ Stream.units data, offence? options nal = none)
          ∧ ∃ type, absent? data = some type ∧ e = .invalidData (.missing type)
  blamesData : ∀ e, build options data = .error e → ∃ cause, e = .invalidData cause
  /-- No unit is taken for one type and read as one of another. -/
  announced : ∀ nal header, (NalHeader.decoder.run (.ofBytes .escaped nal)).1 = .ok header →
    nalTypeOf? nal = some header.type

/-- Building a record fails for the first unit at fault, or else for a missing type, and always
blames the data. -/
theorem build_judged (options : Options) (data : List UInt8) : Judged options data where
  built := by
    have occur : (∀ type ∈ required, unitsOf type (Stream.units data) ≠ [])
        ↔ ∀ type ∈ required, ∃ nal ∈ Stream.units data, nalTypeOf? nal = some type :=
      forall₂_congr fun type _ => unitsOf_ne_nil
    rw [build_ok_iff, absent?_eq_none, occur, ← and_assoc]
    refine and_congr_left' ?_
    simp only [offence?_eq_none, mem_keptTypes, and_imp]
    exact forall₂_and
  refused := by
    intro e
    rw [build_error_iff, List.findSome?_eq_some_iff]
  blamesData := by
    intro e error
    obtain ⟨cause, blamed, -⟩ := invalidData_of_build error
    exact ⟨cause, blamed⟩
  announced := fun _ _ => NalHeader.announced_of_run

/-- A picture parameter set that is cut off, and a sequence parameter set whose forbidden bit is
set. -/
def cutStream : List UInt8 := startCode ++ [0x44, 0x01] ++ startCode ++ [0xc2, 0x01]

/-- A stream in which no unit is at fault, and no sequence parameter set occurs. -/
def sparseStream : List UInt8 :=
  startCode ++ sampleVpsNal 0x01 93 ++ startCode ++ [0x44, 0x01, 0xc0, 0x71, 0x81]

/-- The first of the two units is reported, and not that there is no video parameter set. A type
that is missing is reported where no unit is at fault. -/
theorem build_judged_cutStream :
    Stream.units cutStream = [[0x44, 0x01], [0xc2, 0x01]]
      ∧ build .default cutStream = .error (.invalidData .endOfData)
      ∧ (∀ nal ∈ Stream.units sparseStream, offence? .default nal = none)
      ∧ build .default sparseStream = .error (.invalidData (.missing .sps)) := by
  have units : Stream.units cutStream = [[0x44, 0x01], [0xc2, 0x01]] := by decide +kernel
  have offence : offence? .default [0x44, 0x01] = some (.invalidData .endOfData) := by
    decide +kernel
  have readable : ∀ nal ∈ Stream.units sparseStream, offence? .default nal = none := by
    decide +kernel
  have missing : absent? sparseStream = some .sps := by decide +kernel
  refine ⟨units, ?_, readable, ?_⟩
  · rw [(build_judged .default cutStream).refused]
    exact .inl ⟨[], _, _, units, offence, by simp⟩
  · rw [(build_judged .default sparseStream).refused]
    exact .inr ⟨readable, .sps, missing, rfl⟩

end Record

end Hevc
