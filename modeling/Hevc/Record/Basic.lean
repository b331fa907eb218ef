import Hevc.NalUnit.NalType
import Hevc.Parallelism
import Hevc.Profile
import Hevc.Record.FrameRate

/-!
# Decoder configuration records

What a decoder has to know before it gets a stream: the profile, tier and level that all parts of
the stream stay within, the sample format, and the parameter sets themselves in arrays, one for
each type of NAL unit.

`push` adds a unit to the array of its type. It keeps the arrays in the order of
`NalType.carried`, with one array for each type, if they were so before.
-/

namespace Hevc

/-- The NAL units of one type in a record. -/
structure NalArray where
  /-- All units of the type are in the array, and none are in the stream. -/
  complete : Bool
  type : NalType
  /-- The units as they stand in a stream, with header and escape bytes. -/
  units : Array (List UInt8)
deriving DecidableEq, Repr

/-- A decoder configuration record (ISO/IEC 14496-15, 8.3.3.1). -/
structure Record where
  /-- The profile, tier and level that cover every parameter set. -/
  profile : Profile
  /-- `min_spatial_segmentation_idc`, 12 bits once the record is final. -/
  minSpatialSegmentation : Nat
  parallelism : Parallelism
  /-- `chroma_format_idc`, 2 bits. -/
  chromaFormat : Nat
  /-- `bit_depth_luma_minus8`, 3 bits. -/
  bitDepthLumaMinus8 : Nat
  /-- `bit_depth_chroma_minus8`, 3 bits. -/
  bitDepthChromaMinus8 : Nat
  /-- The frames in 256 seconds, or 0. -/
  avgFrameRate : Nat
  constantFrameRate : ConstantFrameRate
  /-- `num_temporal_layers`, 3 bits. -/
  numTemporalLayers : Nat
  temporalIdNested : Bool
  /-- The number of bytes of a length field in the stream, less one. -/
  lengthSizeMinusOne : Nat
  arrays : List NalArray
deriving DecidableEq, Repr

namespace Record

/-- The value of `minSpatialSegmentation` before any parameter set restricts it: above every
value that one can carry. -/
def unrestricted : Nat := 4097

/-- The profile that covers nothing yet: every flag that has to be common to all parameter sets
is set. -/
def emptyProfile : Profile :=
  { space := 0, highTier := false, idc := 0, compatibility := 0xffffffff,
    constraints := 0xffffffffffff, level := 0 }

/-- The record of no parameter set. -/
def empty : Record :=
  { profile := emptyProfile, minSpatialSegmentation := unrestricted,
    parallelism := .mixedOrUnknown, chromaFormat := 0, bitDepthLumaMinus8 := 0,
    bitDepthChromaMinus8 := 0, avgFrameRate := 0, constantFrameRate := .unknown,
    numTemporalLayers := 0, temporalIdNested := false, lengthSizeMinusOne := 3, arrays := [] }

/-! ## Arrays -/

/-- Adds a unit at the end of the first array of a type. -/
def appendUnit (type : NalType) (unit : List UInt8) : List NalArray → List NalArray
  | [] => []
  | array :: rest =>
    if array.type = type then { array with units := array.units.push unit } :: rest
    else array :: appendUnit type unit rest

/-- An array belongs behind the types of a rank. -/
def isBehind (rank : Nat) (array : NalArray) : Bool := array.type.rank?.any (rank < ·)

/-- Puts an array in front of the first that belongs behind it. -/
def insertArray (rank : Nat) (new : NalArray) : List NalArray → List NalArray
  | [] => [new]
  | array :: rest =>
    if isBehind rank array then new :: array :: rest else array :: insertArray rank new rest

/-- Adds a unit to the array of its type. Only a new array takes the flag `complete`. A type that
a record cannot carry leaves it as it is. -/
def push (type : NalType) (unit : List UInt8) (complete : Bool) (r : Record) : Bool × Record :=
  match type.rank? with
  | none => (false, r)
  | some rank =>
    if r.arrays.any (·.type = type) then
      (true, { r with arrays := appendUnit type unit r.arrays })
    else (true, { r with arrays := insertArray rank { complete, type, units := #[unit] } r.arrays })

/-! ## Size -/

/-- The number of bytes in front of the arrays. -/
def fixedSize : Nat := 23

/-- The number of bytes of an array: its header and number of units, then each unit after its
length. -/
def arraySize (array : NalArray) : Nat :=
  3 + array.units.toList.foldr (fun unit count => 2 + unit.length + count) 0

/-- The number of bytes of a record. -/
def size (r : Record) : Nat :=
  fixedSize + r.arrays.foldr (fun array count => arraySize array + count) 0

end Record

end Hevc
