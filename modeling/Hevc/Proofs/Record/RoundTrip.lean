import Hevc.Proofs.Profile
import Hevc.Proofs.Record.Form

/-!
# Round trip of records

A record whose values fit their fields is read back from its bytes as it was, whatever follows
them, and bytes cut off anywhere are refused.

* `decoder_reads` — the decoder of records reads the written form of a record
* `demux_toBytes` — writing succeeds, and reading what was written gives the record back
-/

namespace Hevc

/-- An array of a type that a record carries, with numbers that 16 bits hold. -/
structure NalArray.Fits (a : NalArray) : Prop where
  type : a.type ∈ NalType.carried
  size : a.units.size < 2 ^ 16
  units : ∀ unit ∈ a.units.toList, unit.length < 2 ^ 16

namespace Record

/-- A record whose values fit their fields. -/
structure Fits (r : Record) : Prop where
  profile : r.profile.Fits
  minSpatialSegmentation : r.minSpatialSegmentation < 2 ^ 12
  chromaFormat : r.chromaFormat < 2 ^ 2
  bitDepthLumaMinus8 : r.bitDepthLumaMinus8 < 2 ^ 3
  bitDepthChromaMinus8 : r.bitDepthChromaMinus8 < 2 ^ 3
  avgFrameRate : r.avgFrameRate < 2 ^ 16
  numTemporalLayers : r.numTemporalLayers < 2 ^ 3
  lengthSizeMinusOne : r.lengthSizeMinusOne ∈ [0, 1, 3]
  arrays : r.arrays.length ≤ maxArrays
  array : ∀ a ∈ r.arrays, a.Fits

open Decoder

/-! ## Fields -/

theorem reads_field {width value : Nat} (h : value < 2 ^ width) (narrow : width ≤ 64) :
    (bits width).Reads [field width value] value := by
  rw [field, Nat.one_shiftLeft, Nat.mod_eq_of_lt h]
  exact reads_bits h narrow

theorem reads_ones {width : Nat} (narrow : width ≤ 64) :
    (bits width).Reads [ones width] (2 ^ width - 1) := by
  rw [ones, Nat.one_shiftLeft]
  exact reads_bits (Nat.sub_lt (Nat.two_pow_pos width) Nat.one_pos) narrow

theorem reads_count16 {n : Nat} {tooLarge : Fault} (h : n < 2 ^ 16) :
    (bits 16).Reads [count16 n tooLarge] n := by
  rw [count16_of_lt h]
  exact reads_bits h (by decide)

theorem version_reads : versionDecoder.Reads [field 8 version] () := by
  refine (reads_field (show version < 2 ^ 8 by decide) (by decide)).then ?_
  rw [if_pos rfl]
  exact reads_pure ()

/-- The written form of a profile and its level. -/
def profileItems (p : Profile) : List Item :=
  [field 2 p.space, .flag p.highTier, field 5 p.idc, field 32 p.compatibility,
    field 48 p.constraints, field 8 p.level]

theorem profile_reads {p : Profile} (h : p.Fits) : profileDecoder.Reads (profileItems p) p := by
  refine (reads_field h.space (by decide)).cons ?_
  refine (reads_flag p.highTier).cons ?_
  refine (reads_field h.idc (by decide)).cons ?_
  refine (reads_field h.compatibility (by decide)).cons ?_
  refine (reads_field h.constraints (by decide)).cons ?_
  exact (reads_field h.level (by decide)).map

theorem frameRate_reads (rate : ConstantFrameRate) :
    frameRateDecoder.Reads [field 2 rate.code] rate := by
  refine (reads_field rate.code_lt (by decide)).then ?_
  rw [ConstantFrameRate.ofCode_code]
  exact reads_pure rate

theorem lengthSize_reads {size : Nat} (h : size ∈ [0, 1, 3]) :
    lengthSizeDecoder.Reads [field 2 size] size := by
  have small : size < 2 ^ 2 ∧ size ≠ 2 := by
    simp only [List.mem_cons, List.not_mem_nil, or_false] at h
    omega
  refine (reads_field small.1 (by decide)).then ?_
  rw [if_neg small.2]
  exact reads_pure size

/-! ## Arrays -/

theorem unit_reads {type : NalType} {unit : List UInt8} (h : unit.length < 2 ^ 16) :
    unitDecoder.Reads (unitItems type unit) unit :=
  (reads_count16 h).cons (reads_octets unit)

theorem arrayHeader_reads (complete : Bool) {type : NalType} (h : type ∈ NalType.carried) :
    arrayHeader.Reads [.flag complete, .bits 0 1, field 6 type.code] (complete, type) := by
  refine (reads_flag complete).cons ?_
  refine (reads_bits (by decide) (by decide)).cons ?_
  refine (reads_field type.code_lt (by decide)).then ?_
  rw [NalType.ofCode_code, if_pos h]
  exact reads_pure _

theorem array_reads {a : NalArray} (h : a.Fits) : arrayDecoder.Reads (arrayItems a) a := by
  refine (arrayHeader_reads a.complete h.type).bind ?_
  refine (reads_count16 h.size).cons ?_
  exact (reads_many fun unit mem => unit_reads (h.units unit mem)).map

/-! ## Records -/

/-- The decoder of records reads the written form of a record. -/
theorem decoder_reads {r : Record} (h : r.Fits) : decoder.Reads r.items r := by
  rw [items, if_neg (Nat.not_lt_of_le h.arrays)]
  refine version_reads.cons ?_
  refine (profile_reads h.profile).bind ?_
  refine (reads_ones (by decide)).cons ?_
  refine (reads_field h.minSpatialSegmentation (by decide)).cons ?_
  refine (reads_ones (by decide)).cons ?_
  refine (reads_field r.parallelism.code_lt (by decide)).cons ?_
  refine (reads_ones (by decide)).cons ?_
  refine (reads_field h.chromaFormat (by decide)).cons ?_
  refine (reads_ones (by decide)).cons ?_
  refine (reads_field h.bitDepthLumaMinus8 (by decide)).cons ?_
  refine (reads_ones (by decide)).cons ?_
  refine (reads_field h.bitDepthChromaMinus8 (by decide)).cons ?_
  refine (reads_field h.avgFrameRate (by decide)).cons ?_
  refine (frameRate_reads r.constantFrameRate).cons ?_
  refine (reads_field h.numTemporalLayers (by decide)).cons ?_
  refine (reads_flag r.temporalIdNested).cons ?_
  refine (lengthSize_reads h.lengthSizeMinusOne).cons ?_
  refine (reads_bits (Nat.lt_succ_of_le h.arrays) (by decide)).cons ?_
  rw [← List.append_nil (r.arrays.flatMap arrayItems)]
  refine (reads_many fun a mem => array_reads (h.array a mem)).bind ?_
  rw [Parallelism.ofCode_code]
  exact reads_pure r

/-! ## Round trip -/

theorem Fits.countable {r : Record} (h : r.Fits) : r.Countable where
  arrays := h.arrays
  units := fun a mem => (h.array a mem).size
  lengths := fun a mem unit held => (h.array a mem).units unit (Array.mem_toList_iff.mpr held)

/-- Writing succeeds, with bytes that carry the written form and nothing else. -/
theorem toBytes_of_fits {r : Record} (h : r.Fits) :
    ∃ bytes, r.toBytes = .ok bytes ∧ bytes.length = r.size
      ∧ Bits.ofBytes bytes = Item.allBits r.items := by
  have uncut := cut_form.mpr h.countable
  refine ⟨r.form.bytes, ?_, length_form uncut, ((shows_items r).bits uncut).symm⟩
  rw [toBytes_eq_form, uncut]

/-- What reading gives is what the decoder makes of the bits. -/
theorem demux_fst (bytes : List UInt8) :
    (demux bytes).1 = (decoder.eval (Bits.ofBytes bytes)).1 := by
  show (decoder.run _).1 = _
  rw [run_ofBytes_fst, Source.payload_plain]

/-- Where the decoder leaves some bytes, those in front of them are taken. -/
theorem demux_of_eval {front rest : List UInt8} {r : Record}
    (h : decoder.eval (Bits.ofBytes (front ++ rest)) = (.ok r, Bits.ofBytes rest)) :
    demux (front ++ rest) = (.ok r, front.length) := by
  rw [← Source.payload_plain (front ++ rest)] at h
  have place := run_ofBytes_source h
  rw [Source.payload_plain, Bits.length_ofBytes, Nat.mul_div_cancel_left _ (by decide),
    List.length_append, Nat.add_sub_cancel] at place
  rw [demux]
  refine Prod.ext ?_ ?_
  · show (decoder.run _).1 = _
    rw [run_ofBytes_fst, h]
  · show (decoder.run _).2.source.taken = _
    rw [place, Source.ofBytes, Source.taken_advance_plain (by rw [List.length_append]; omega),
      Nat.zero_add]

/-- What was written is read back, whatever follows it, and only that is taken. -/
theorem demux_append {r : Record} (h : r.Fits) {bytes : List UInt8}
    (written : Bits.ofBytes bytes = Item.allBits r.items) (trailing : List UInt8) :
    demux (bytes ++ trailing) = (.ok r, bytes.length) := by
  apply demux_of_eval
  rw [Bits.ofBytes_append, written]
  exact (decoder_reads h).eval _

/-- What was written is refused where it is cut off. -/
theorem demux_truncated {r : Record} (h : r.Fits) {bytes front : List UInt8}
    (written : Bits.ofBytes bytes = Item.allBits r.items) (cut : front <+: bytes)
    (short : front ≠ bytes) :
    ∃ fault, (demux front).1 = .error fault ∧ fault.kind = .unexpectedEof := by
  obtain ⟨rest, rfl⟩ := cut
  have more : rest ≠ [] := fun empty => short (by rw [empty, List.append_nil])
  have missing : (Bits.ofBytes front).length < (Item.allBits r.items).length := by
    have some := List.length_pos_iff.mpr more
    rw [← written, Bits.length_ofBytes, Bits.length_ofBytes, List.length_append]
    omega
  obtain ⟨fault, refused, kind⟩ :=
    (decoder_reads h).eval_truncated (written ▸ ⟨Bits.ofBytes rest, by rw [Bits.ofBytes_append]⟩)
      missing
  refine ⟨fault, ?_, kind⟩
  rw [demux_fst, refused]

/-- A record whose values fit their fields is written with as many bytes as `size` counts. It is
read back from them as it was, whatever follows, and takes no more than them; of every part in
front that is shorter, reading says that it ends too early. -/
theorem demux_toBytes {r : Record} (h : r.Fits) :
    ∃ bytes, r.toBytes = .ok bytes ∧ bytes.length = r.size
      ∧ (∀ trailing, demux (bytes ++ trailing) = (.ok r, r.size))
      ∧ ∀ front, front <+: bytes → front ≠ bytes →
          ∃ fault, (demux front).1 = .error fault ∧ fault.kind = .unexpectedEof := by
  obtain ⟨bytes, done, size, written⟩ := toBytes_of_fits h
  refine ⟨bytes, done, size, fun trailing => ?_, fun front cut short => ?_⟩
  · rw [← size]
    exact demux_append h written trailing
  · exact demux_truncated h written cut short

/-- A type with two arrays, one without units and one with a unit without bytes. -/
theorem demux_toBytes_twoArrays :
    ∃ bytes, toBytes { empty with
        minSpatialSegmentation := 0
        arrays := [⟨true, .sps, #[]⟩, ⟨false, .sps, #[[], [0x42, 0x01]]⟩] } = .ok bytes
      ∧ bytes.length = 35 := by
  obtain ⟨bytes, done, size, -⟩ := demux_toBytes (r := { empty with
      minSpatialSegmentation := 0
      arrays := [⟨true, .sps, #[]⟩, ⟨false, .sps, #[[], [0x42, 0x01]]⟩] })
    { profile := by constructor <;> decide
      minSpatialSegmentation := by decide
      chromaFormat := by decide
      bitDepthLumaMinus8 := by decide
      bitDepthChromaMinus8 := by decide
      avgFrameRate := by decide
      numTemporalLayers := by decide
      lengthSizeMinusOne := by decide
      arrays := by decide
      array := by
        intro a mem
        simp only [List.mem_cons, List.not_mem_nil, or_false] at mem
        rcases mem with rfl | rfl <;> constructor <;> decide }
  exact ⟨bytes, done, size⟩

end Record

end Hevc
