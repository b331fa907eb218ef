import Hevc.Proofs.ParameterSet.Reading
import Hevc.Proofs.ParameterSet.Safe

/-!
# What holds of every parameter set that was read

Whatever the bytes, a video parameter set that was read is one that the syntax can code, and a
sequence parameter set is well-formed. Whether the picture buffering was coded for each sub-layer or
for the highest only is said by a flag in the bytes, which the set itself does not keep.

* `Buffering.alike_of_eval` — with the flag off, all sub-layers are alike
* `NalUnit.bitBehind_of_read` — where the flag of a unit stands
* `parameterSets_wellFormed` — what holds of the two sets, whatever they were read from
-/

namespace Hevc

open Decoder

variable {α β : Type}

/-! ## The flag -/

/-- Picture buffering is read from its flag on, and if that is off, all sub-layers are alike. -/
theorem Buffering.alike_of_eval {maxSubLayersMinus1 : Nat} (few : maxSubLayersMinus1 < 2 ^ 3)
    {bits left : List Bool} {bs : List Buffering}
    (read : (perSubLayer maxSubLayersMinus1).eval bits = (.ok bs, left)) :
    ∃ all rest, bits = all :: rest ∧ (all = false → ∀ b ∈ bs, bs.getLast? = some b) := by
  have count : Word.unsigned? 64 (maxSubLayersMinus1 + 1) = some (maxSubLayersMinus1 + 1) :=
    Word.unsigned?_of_lt (by omega)
  rw [perSubLayer, count] at read
  cases bits with
  | nil => exact absurd (congrArg Prod.fst read) nofun
  | cons all rest =>
    refine ⟨all, rest, rfl, ?_⟩
    rintro rfl
    have top : (do
        let top ← decoder
        return List.replicate (maxSubLayersMinus1 + 1) top).Ensures
          fun (bs : List Buffering) => ∀ b ∈ bs, bs.getLast? = some b := by
      refine .bind_any fun top => .pure fun b mem => ?_
      rw [List.eq_of_mem_replicate mem, List.getLast?_replicate]
      rfl
    exact top.of_eval read

/-- The bit of a unit that follows what a decoder takes of its payload. -/
def NalUnit.bitBehind (type : NalType) (front : Decoder α) (nal : List UInt8) : Option Bool :=
  ((decoder type front).eval (Bits.ofBytes (strip nal))).2.head?

/-- Where the front of every payload that can be read ends with a certain bit behind it, so does the
front of a unit that was read. -/
theorem NalUnit.bitBehind_of_read {type : NalType} {d : Decoder α} {front : Decoder β}
    {P : Bool → α → Prop}
    (behind : ∀ {bits value left}, d.eval bits = (.ok value, left) →
      ∃ x bit rest, front.eval bits = (.ok x, bit :: rest) ∧ P bit value)
    {nal : List UInt8} {unit : NalUnit α} (ok : (read type d nal).result = .ok unit) :
    ∃ bit, bitBehind type front nal = some bit ∧ P bit unit.payload := by
  have ran := run_of_read ok
  rw [run_ofBytes_fst] at ran
  obtain ⟨header, body, head, others⟩ := eval_bind_ok_cases (Prod.ext ran rfl)
  obtain ⟨value, left, payload, ends⟩ := eval_bind_ok_cases others
  obtain rfl : { header, payload := value } = unit := Except.ok.inj (congrArg Prod.fst ends)
  obtain ⟨x, bit, rest, reached, holds⟩ := behind payload
  have stops : (decoder type front).eval (Bits.ofBytes (strip nal))
      = (.ok { header, payload := x }, bit :: rest) := by
    rw [decoder]
    exact (eval_bind_ok head _).trans (eval_bind_ok reached _)
  exact ⟨bit, by rw [bitBehind, stops]; rfl, holds⟩

/-! ## Video parameter sets -/

namespace Vps

/-- Passes over a set up to the flag of its picture buffering. -/
def beforeBuffering : Decoder Unit := do
  let _id ← bits 4
  let _baseLayer ← bits 2
  let _maxLayersMinus1 ← bits 6
  let maxSubLayersMinus1 ← bits 3
  let _temporalIdNesting ← flag
  ignore 16
  let _profile ← ProfileTierLevel.decoder maxSubLayersMinus1
  return ()

/-- Whether the picture buffering of a set is coded for each sub-layer. -/
def bufferingFlag (nal : List UInt8) : Option Bool := NalUnit.bitBehind .vps beforeBuffering nal

theorem coded_of_eval {bits left : List Bool} {v : Vps}
    (read : decoder.eval bits = (.ok v, left)) :
    ∃ x all rest, beforeBuffering.eval bits = (.ok x, all :: rest) ∧ v.Coded all := by
  have coded := decoder_safe.ensures.of_eval read
  obtain ⟨_, _, id, read⟩ := eval_bind_ok_cases read
  obtain ⟨_, _, baseLayer, read⟩ := eval_bind_ok_cases read
  obtain ⟨_, _, maxLayersMinus1, read⟩ := eval_bind_ok_cases read
  obtain ⟨_, _, maxSubLayersMinus1, read⟩ := eval_bind_ok_cases read
  obtain ⟨_, _, temporalIdNesting, read⟩ := eval_bind_ok_cases read
  obtain ⟨_, _, reserved, read⟩ := eval_bind_ok_cases read
  obtain ⟨_, _, profile, read⟩ := eval_bind_ok_cases read
  obtain ⟨bs, _, buffering, read⟩ := eval_bind_ok_cases read
  -- nothing that follows changes the picture buffering
  obtain rfl : v.buffering = bs := by
    refine Ensures.of_eval (P := (·.buffering = bs)) ?_ read
    iterate 5 refine .bind_any fun _ => ?_
    exact .pure rfl
  have few := (Ensures.bits 3).of_eval maxSubLayersMinus1
  obtain ⟨all, rest, rfl, alike⟩ := Buffering.alike_of_eval few buffering
  refine ⟨(), all, rest, ?_, { coded with buffering := { coded.buffering with alike } }⟩
  rw [beforeBuffering, eval_bind_ok id, eval_bind_ok baseLayer, eval_bind_ok maxLayersMinus1,
    eval_bind_ok maxSubLayersMinus1, eval_bind_ok temporalIdNesting, eval_bind_ok reserved,
    eval_bind_ok profile]
  rfl

end Vps

/-! ## Sequence parameter sets -/

namespace Sps

/-- Passes over a set up to the flag of its picture buffering. -/
def beforeBuffering : Decoder Unit := do
  let _vpsId ← bits 4
  let maxSubLayersMinus1 ← bits 3
  let _temporalIdNesting ← flag
  let _profile ← ProfileTierLevel.decoder maxSubLayersMinus1
  let _id ← ue
  let chromaFormat ← ue
  let _separateColourPlane ← codedOr (chromaFormat = format444) false flag
  let _width ← ue
  let _height ← ue
  let _conformanceWindow ← optional Window.decoder
  let _bitDepthLumaMinus8 ← ue
  let _bitDepthChromaMinus8 ← ue
  let _log2MaxPocLsbMinus4 ← ue
  return ()

/-- Whether the picture buffering of a set is coded for each sub-layer. -/
def bufferingFlag (nal : List UInt8) : Option Bool := NalUnit.bitBehind .sps beforeBuffering nal

theorem wellFormed_of_eval {bits left : List Bool} {s : Sps}
    (read : decoder.eval bits = (.ok s, left)) :
    ∃ x all rest, beforeBuffering.eval bits = (.ok x, all :: rest) ∧ s.WellFormed all := by
  have formed := decoder_wellFormed.ensures.of_eval read
  obtain ⟨_, _, vpsId, read⟩ := eval_bind_ok_cases read
  obtain ⟨_, _, maxSubLayersMinus1, read⟩ := eval_bind_ok_cases read
  obtain ⟨_, _, temporalIdNesting, read⟩ := eval_bind_ok_cases read
  obtain ⟨_, _, profile, read⟩ := eval_bind_ok_cases read
  obtain ⟨_, _, id, read⟩ := eval_bind_ok_cases read
  obtain ⟨_, _, chromaFormat, read⟩ := eval_bind_ok_cases read
  obtain ⟨_, _, separateColourPlane, read⟩ := eval_bind_ok_cases read
  obtain ⟨_, _, width, read⟩ := eval_bind_ok_cases read
  obtain ⟨_, _, height, read⟩ := eval_bind_ok_cases read
  obtain ⟨_, _, conformanceWindow, read⟩ := eval_bind_ok_cases read
  obtain ⟨_, _, bitDepthLumaMinus8, read⟩ := eval_bind_ok_cases read
  obtain ⟨_, _, bitDepthChromaMinus8, read⟩ := eval_bind_ok_cases read
  obtain ⟨_, _, log2MaxPocLsbMinus4, read⟩ := eval_bind_ok_cases read
  obtain ⟨bs, _, buffering, read⟩ := eval_bind_ok_cases read
  obtain rfl : s.buffering = bs := by
    refine Ensures.of_eval (P := (·.buffering = bs)) ?_ read
    iterate 11 refine .bind_any fun _ => ?_
    exact .pure rfl
  have few := (Ensures.bits 3).of_eval maxSubLayersMinus1
  obtain ⟨all, rest, rfl, alike⟩ := Buffering.alike_of_eval few buffering
  refine ⟨(), all, rest, ?_,
    { formed with
      others := { formed.others with buffering := { formed.others.buffering with alike } } }⟩
  rw [beforeBuffering, eval_bind_ok vpsId, eval_bind_ok maxSubLayersMinus1,
    eval_bind_ok temporalIdNesting, eval_bind_ok profile, eval_bind_ok id,
    eval_bind_ok chromaFormat, eval_bind_ok separateColourPlane, eval_bind_ok width,
    eval_bind_ok height, eval_bind_ok conformanceWindow, eval_bind_ok bitDepthLumaMinus8,
    eval_bind_ok bitDepthChromaMinus8, eval_bind_ok log2MaxPocLsbMinus4]
  rfl

end Sps

/-! ## Both sets -/

/-- A video parameter set is read only as one that the syntax can code, and a sequence parameter set
only as a well-formed one, with a picture buffering as its flag says. -/
theorem parameterSets_wellFormed (nal : List UInt8) :
    (∀ unit, (Vps.read nal).result = .ok unit →
        ∃ all, Vps.bufferingFlag nal = some all ∧ unit.payload.Coded all)
      ∧ ∀ unit, (Sps.read nal).result = .ok unit →
          ∃ all, Sps.bufferingFlag nal = some all ∧ unit.payload.WellFormed all :=
  ⟨fun _ ok => NalUnit.bitBehind_of_read Vps.coded_of_eval ok,
    fun _ ok => NalUnit.bitBehind_of_read Sps.wellFormed_of_eval ok⟩

/-- A video parameter set of two sub-layers whose picture buffering is coded for the highest
only. -/
def topOnlyVps : List UInt8 :=
  [0x40, 0x01, 0xfc, 0x22, 0xff, 0xff, 0x22, 0x20, 0x00, 0x00, 0x03, 0x00, 0x90, 0x00, 0x00, 0x03,
    0x00, 0x00, 0x03, 0x00, 0x78, 0xff, 0xff, 0x01, 0x60, 0x00, 0x00, 0x03, 0x00, 0x00, 0x03, 0x00,
    0x00, 0x03, 0x00, 0x00, 0x03, 0x00, 0x5d, 0x15, 0xc2, 0x59]

/-- A sequence parameter set of the same kind, with separate colour planes, a long-term picture and
reference decoder parameters. -/
def topOnlySps : List UInt8 :=
  [0x42, 0x01, 0x03, 0x04, 0x08, 0x00, 0x00, 0x03, 0x00, 0x90, 0x00, 0x00, 0x03, 0x00, 0x00, 0x03,
    0x00, 0x5d, 0x7f, 0xff, 0x5a, 0x92, 0x04, 0x10, 0x20, 0xea, 0x9b, 0x28, 0xaf, 0x24, 0x89, 0x3b,
    0xbd, 0xd3, 0x5a, 0x2d, 0x7f, 0xef, 0xfc, 0x00, 0x10, 0x00, 0x0d, 0xa8, 0x08, 0x08, 0x08, 0x20,
    0x00, 0x00, 0x7d, 0x20, 0x00, 0x0e, 0xa6, 0x0c, 0x12, 0x00, 0x01, 0xc0, 0x1f, 0x48, 0x01, 0xf4,
    0x5c, 0x01, 0xf4, 0x80, 0x1f, 0x45, 0x40, 0x01, 0x00, 0x06, 0x82, 0x01, 0x08]

/-- Both are read, so the two sub-layers of each have the same picture buffering. -/
theorem parameterSets_wellFormed_topOnly :
    (∃ unit, (Vps.read topOnlyVps).result = .ok unit
        ∧ Vps.bufferingFlag topOnlyVps = some false ∧ unit.payload.Coded false)
      ∧ ∃ unit, (Sps.read topOnlySps).result = .ok unit
          ∧ Sps.bufferingFlag topOnlySps = some false ∧ unit.payload.WellFormed false := by
  have vpsThere : (Vps.read topOnlyVps).result.toOption.isSome := by decide +kernel
  have spsThere : (Sps.read topOnlySps).result.toOption.isSome := by decide +kernel
  have vpsFlag : Vps.bufferingFlag topOnlyVps = some false := by decide +kernel
  have spsFlag : Sps.bufferingFlag topOnlySps = some false := by decide +kernel
  obtain ⟨vps, vpsFound⟩ := Option.isSome_iff_exists.mp vpsThere
  obtain ⟨sps, spsFound⟩ := Option.isSome_iff_exists.mp spsThere
  obtain ⟨all, flagged, coded⟩ :=
    (parameterSets_wellFormed topOnlyVps).1 vps (toOption_ok vpsFound)
  obtain rfl := Option.some.inj (vpsFlag.symm.trans flagged)
  obtain ⟨all, flagged, formed⟩ :=
    (parameterSets_wellFormed topOnlySps).2 sps (toOption_ok spsFound)
  obtain rfl := Option.some.inj (spsFlag.symm.trans flagged)
  exact ⟨⟨vps, toOption_ok vpsFound, vpsFlag, coded⟩, sps, toOption_ok spsFound, spsFlag, formed⟩

end Hevc
