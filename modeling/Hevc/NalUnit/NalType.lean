/-!
# NAL unit types

The six-bit `nal_unit_type` field of a NAL unit header. The non-VCL types that a decoder
configuration record can meet have constructors of their own; every other code keeps its place
in its range, so the 64 codes and the values of `NalType` correspond one to one
(`NalType.ofCode_code`, `NalType.code_ofCode`).
-/

namespace Hevc

/-- The type of a NAL unit (ISO/IEC 23008-2, table 7-1). -/
inductive NalType where
  /-- A coded slice segment, or a reserved VCL type: codes 0 to 31. -/
  | vcl (n : Fin 32)
  /-- A video parameter set. -/
  | vps
  /-- A sequence parameter set. -/
  | sps
  /-- A picture parameter set. -/
  | pps
  /-- An access unit delimiter. -/
  | accessUnitDelimiter
  /-- The end of a sequence. -/
  | endOfSequence
  /-- The end of a bitstream. -/
  | endOfBitstream
  /-- Filler data. -/
  | filler
  /-- Supplemental enhancement information before the slices. -/
  | prefixSei
  /-- Supplemental enhancement information after the slices. -/
  | suffixSei
  /-- A reserved non-VCL type: codes 41 to 47, counted from 41. -/
  | reserved (n : Fin 7)
  /-- An unspecified type: codes 48 to 63, counted from 48. -/
  | unspecified (n : Fin 16)
deriving DecidableEq, Repr

namespace NalType

/-- The type that the low six bits of a number name. -/
def ofCode (value : Nat) : NalType :=
  let code := value % 64
  if vclCode : code < 32 then .vcl ⟨code, vclCode⟩
  else if code = 32 then .vps
  else if code = 33 then .sps
  else if code = 34 then .pps
  else if code = 35 then .accessUnitDelimiter
  else if code = 36 then .endOfSequence
  else if code = 37 then .endOfBitstream
  else if code = 38 then .filler
  else if code = 39 then .prefixSei
  else if code = 40 then .suffixSei
  else if reservedCode : code < 48 then .reserved ⟨code - 41, by omega⟩
  else .unspecified ⟨code - 48, by omega⟩

/-- The six-bit code of a type. -/
def code : NalType → Nat
  | .vcl n => n
  | .vps => 32
  | .sps => 33
  | .pps => 34
  | .accessUnitDelimiter => 35
  | .endOfSequence => 36
  | .endOfBitstream => 37
  | .filler => 38
  | .prefixSei => 39
  | .suffixSei => 40
  | .reserved n => 41 + n
  | .unspecified n => 48 + n

theorem code_lt (t : NalType) : t.code < 64 := by
  cases t <;> simp only [code] <;> omega

theorem code_ofCode_of_lt {n : Nat} (h : n < 64) : (ofCode n).code = n := by
  have all : ∀ m ∈ List.range 64, (ofCode m).code = m := by decide
  exact all n (List.mem_range.mpr h)

/-- Only the low six bits of a number count. -/
theorem ofCode_mod (n : Nat) : ofCode (n % 64) = ofCode n := by
  simp only [ofCode, Nat.mod_mod]

theorem code_ofCode (n : Nat) : (ofCode n).code = n % 64 := by
  rw [← ofCode_mod, code_ofCode_of_lt (Nat.mod_lt _ (by decide))]

theorem ofCode_code (t : NalType) : ofCode t.code = t := by
  cases t with
  | vcl n => revert n; decide
  | reserved n => revert n; decide
  | unspecified n => revert n; decide
  | _ => rfl

/-- The name of a type, as messages write it. -/
def name : NalType → String
  | .vcl n => s!"VCL({n})"
  | .vps => "VPS_NUT"
  | .sps => "SPS_NUT"
  | .pps => "PPS_NUT"
  | .accessUnitDelimiter => "AUD_NUT"
  | .endOfSequence => "EOS_NUT"
  | .endOfBitstream => "EOB_NUT"
  | .filler => "FD_NUT"
  | .prefixSei => "PREFIX_SEI_NUT"
  | .suffixSei => "SUFFIX_SEI_NUT"
  | .reserved n => s!"RSV_NVCL({41 + n.val})"
  | .unspecified n => s!"UNSPEC({48 + n.val})"

/-- Video, sequence and picture parameter sets. -/
def isParameterSet : NalType → Bool
  | .vps | .sps | .pps => true
  | _ => false

/-- Supplemental enhancement information, before or after the slices. -/
def isSei : NalType → Bool
  | .prefixSei | .suffixSei => true
  | _ => false

/-- The types that a configuration record has arrays for, in the order of the arrays. -/
def carried : List NalType := [.vps, .sps, .pps, .prefixSei, .suffixSei]

/-- The place of a type in `carried`, if it has one. -/
def rank? (t : NalType) : Option Nat := carried.findIdx? (· = t)

end NalType

/-- The type that the first byte of a NAL unit announces, if there is a byte. -/
def nalTypeOf? (nal : List UInt8) : Option NalType :=
  nal.head?.map fun b => NalType.ofCode (b.toNat / 2)

end Hevc
