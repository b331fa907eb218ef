import Hevc.Proofs.NalUnit
import Hevc.Record.Merge
import Hevc.Written.Pps

/-!
# Round trip of picture parameter sets

Of a picture parameter set the two flags decide that its parallelism depends on. They are the last
that is read, behind codes of many lengths, and so is every field of the set.

* `Pps.Coded` — the parameter sets that the syntax can code
* `Pps.decoder_reads` — a parameter set is read back from its written form
* `Parallelism.announced_ofFlags` — each of the four types belongs to one state of the flags
* `Pps.pps_read_written` — a NAL unit with its escape bytes is read back, whatever follows the set,
  and the record that it is merged into has the parallelism that its flags announce
-/

namespace Hevc

open Decoder

/-! ## Parallelism -/

/-- The type that two flags announce: that of the one that is set, and another where none is set or
both are. -/
structure Parallelism.Announced (tiles entropyCodingSync : Bool) (type : Parallelism) : Prop where
  mixed : type = .mixedOrUnknown ↔ tiles = true ∧ entropyCodingSync = true
  sync : type = .entropyCodingSync ↔ tiles = false ∧ entropyCodingSync = true
  tile : type = .tile ↔ tiles = true ∧ entropyCodingSync = false
  slice : type = .slice ↔ tiles = false ∧ entropyCodingSync = false

theorem Parallelism.announced_ofFlags (tiles entropyCodingSync : Bool) :
    Announced tiles entropyCodingSync (.ofFlags tiles entropyCodingSync) := by
  cases tiles <;> cases entropyCodingSync <;> constructor <;> simp [ofFlags]

/-! ## Parameter sets -/

namespace Pps

/-- A parameter set with numbers in range. -/
structure Coded (p : Pps) : Prop where
  id : p.id ≤ maxCode
  spsId : p.spsId ≤ maxCode
  extraSliceHeaderBits : p.extraSliceHeaderBits < 2 ^ 3
  refIdxL0DefaultActiveMinus1 : p.refIdxL0DefaultActiveMinus1 ≤ maxCode
  refIdxL1DefaultActiveMinus1 : p.refIdxL1DefaultActiveMinus1 ≤ maxCode
  initQpMinus26 : p.initQpMinus26.natAbs < 2 ^ 31
  cuQpDeltaDepth : ∀ depth ∈ p.cuQpDeltaDepth, depth ≤ maxCode
  cbQpOffset : p.cbQpOffset.natAbs < 2 ^ 31
  crQpOffset : p.crQpOffset.natAbs < 2 ^ 31

/-- The decoder reads a parameter set from its written form. -/
theorem decoder_reads {p : Pps} (h : p.Coded) : decoder.Reads p.items p := by
  simp only [items, List.cons_append, List.nil_append]
  refine (reads_ue h.id).cons ?_
  refine (reads_ue h.spsId).cons ?_
  refine (reads_flag p.dependentSliceSegments).cons ?_
  refine (reads_flag p.outputFlagPresent).cons ?_
  refine (reads_bits h.extraSliceHeaderBits (by decide)).cons ?_
  refine (reads_flag p.signDataHiding).cons ?_
  refine (reads_flag p.cabacInitPresent).cons ?_
  refine (reads_ue h.refIdxL0DefaultActiveMinus1).cons ?_
  refine (reads_ue h.refIdxL1DefaultActiveMinus1).cons ?_
  refine (reads_se h.initQpMinus26).cons ?_
  refine (reads_flag p.constrainedIntraPred).cons ?_
  refine (reads_flag p.transformSkip).cons ?_
  -- the depth is there only behind a flag that is set, and moves all that follows
  refine (reads_optional fun depth mem => reads_ue (h.cuQpDeltaDepth depth mem)).bind ?_
  refine (reads_se h.cbQpOffset).cons ?_
  refine (reads_se h.crQpOffset).cons ?_
  refine (reads_flag p.sliceChromaQpOffsetsPresent).cons ?_
  refine (reads_flag p.weightedPred).cons ?_
  refine (reads_flag p.weightedBipred).cons ?_
  refine (reads_flag p.transquantBypass).cons ?_
  refine (reads_flag p.tiles).cons ?_
  exact (reads_flag p.entropyCodingSync).map

/-- A picture parameter set is written with escape bytes and any bits behind its last flag, and it
is read back as it was. Of the payload no byte is taken behind that of the last flag. The record
that the set is merged into differs in its parallelism only, which is the one that the flags of the
set announce. -/
theorem pps_read_written {p : Pps} (h : p.Coded) (trailing : List Bool) :
    ∃ payload,
      escapedBytes (.bytes [0x44, 0x01] :: p.items ++ trailing.map Item.flag)
          = .ok (escape payload)
        ∧ read (escape payload)
          = { result := .ok { header, payload := p }
              taken := (escape (payload.take
                ((16 + (Item.allBits p.items).length + 7) / 8))).length }
        ∧ ∀ r : Record,
            r.mergePps p = { r with parallelism := (r.mergePps p).parallelism }
              ∧ Parallelism.Announced p.tiles p.entropyCodingSync (r.mergePps p).parallelism := by
  have small : header.Fits := ⟨by decide, by decide⟩
  have bytes : Bits.ofBytes [0x44, 0x01] = Item.allBits header.items := by decide
  have head := NalHeader.expecting_reads_bytes small bytes
  have unit := NalUnit.decoder_reads head (decoder_reads h)
  obtain ⟨payload, written, found⟩ := NalUnit.read_escape unit trailing
  refine ⟨payload, written, ?_, fun r => ⟨rfl, Parallelism.announced_ofFlags _ _⟩⟩
  rw [Item.allBits_append, List.length_append] at found
  exact found

/-! ## A set with codes of the greatest lengths -/

/-- A set with the greatest numbers of either sign, with a depth and with one of its flags set. -/
def sample : Pps :=
  { id := 63
    spsId := 15
    dependentSliceSegments := true
    outputFlagPresent := false
    extraSliceHeaderBits := 7
    signDataHiding := false
    cabacInitPresent := true
    refIdxL0DefaultActiveMinus1 := maxCode
    refIdxL1DefaultActiveMinus1 := 0
    initQpMinus26 := -(2 ^ 31 - 1)
    constrainedIntraPred := false
    transformSkip := true
    cuQpDeltaDepth := some maxCode
    cbQpOffset := 2 ^ 31 - 1
    crQpOffset := -12
    sliceChromaQpOffsetsPresent := false
    weightedPred := false
    weightedBipred := false
    transquantBypass := false
    tiles := true
    entropyCodingSync := false }

theorem coded_sample : sample.Coded where
  id := by decide
  spsId := by decide
  extraSliceHeaderBits := by decide
  refIdxL0DefaultActiveMinus1 := by decide
  refIdxL1DefaultActiveMinus1 := by decide
  initQpMinus26 := by decide
  cuQpDeltaDepth := by
    rintro depth ⟨⟩
    decide
  cbQpOffset := by decide
  crQpOffset := by decide

/-- The set is read back, and any record has the parallelism of tiles after it. -/
theorem pps_read_written_sample :
    sample.Coded
      ∧ ∃ payload,
        escapedBytes (.bytes [0x44, 0x01] :: sample.items ++ [.flag true])
            = .ok (escape payload)
          ∧ (read (escape payload)).result = .ok { header, payload := sample }
          ∧ ∀ r : Record, (r.mergePps sample).parallelism = .tile := by
  obtain ⟨payload, written, found, merged⟩ := pps_read_written coded_sample [true]
  exact ⟨coded_sample, payload, written, by rw [found], fun r => (merged r).2.tile.mpr ⟨rfl, rfl⟩⟩

end Pps

end Hevc
