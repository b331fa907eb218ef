import Hevc.Bits.Decoder
import Hevc.Bits.Packer
import Hevc.Record.Basic

/-!
# The bytes of a record

The written form of a record: 23 bytes of fields, then the arrays. Every field is reduced to its
width, reserved bits are ones in front of the arrays and zeros inside them. A number of units or
a length that 16 bits cannot hold has no written form; everything before it is written.

Reading ignores the reserved bits. It refuses what has no meaning: another version, a frame rate
code 3, length fields of three bytes and arrays of other types.
-/

namespace Hevc.Record

/-- The version of the written form. -/
def version : Nat := 1

/-! ## Writing -/

/-- A field of a given width. -/
def field (width value : Nat) : Item := .bits (value % (1 <<< width)) width

/-- Reserved bits, all of them ones. -/
def ones (width : Nat) : Item := .bits (1 <<< width - 1) width

/-- A number of 16 bits. -/
def count16 (n : Nat) (tooLarge : Fault) : Item :=
  if n < 1 <<< 16 then .bits n 16 else .refuse tooLarge

/-- The fields in front of the arrays. -/
def fixedItems (r : Record) : List Item :=
  [field 8 version,
    field 2 r.profile.space, .flag r.profile.highTier, field 5 r.profile.idc,
    field 32 r.profile.compatibility, field 48 r.profile.constraints, field 8 r.profile.level,
    ones 4, field 12 r.minSpatialSegmentation,
    ones 6, field 2 r.parallelism.code,
    ones 6, field 2 r.chromaFormat,
    ones 5, field 3 r.bitDepthLumaMinus8,
    ones 5, field 3 r.bitDepthChromaMinus8,
    field 16 r.avgFrameRate, field 2 r.constantFrameRate.code,
    field 3 r.numTemporalLayers, .flag r.temporalIdNested, field 2 r.lengthSizeMinusOne]

/-- A unit after its length. -/
def unitItems (type : NalType) (unit : List UInt8) : List Item :=
  [count16 unit.length (.unitTooLarge type unit.length), .bytes unit]

/-- An array: its header, the number of its units, and the units. -/
def arrayItems (array : NalArray) : List Item :=
  [.flag array.complete, .bits 0 1, field 6 array.type.code,
    count16 array.units.size (.tooManyUnits array.type array.units.size)]
    ++ array.units.toList.flatMap (unitItems array.type)

/-- The most arrays that a record can count. -/
def maxArrays : Nat := 255

/-- A record, to be written. -/
def items (r : Record) : List Item :=
  if maxArrays < r.arrays.length then [.refuse .tooManyArrays]
  else r.fixedItems ++ .bits r.arrays.length 8 :: r.arrays.flatMap arrayItems

/-- Writes a record into a sink. -/
def mux (r : Record) (sink : Sink) : Except Fault Unit × Sink := sink.writeItems r.items

/-- The bytes of a record. -/
def toBytes (r : Record) : Except Fault (List UInt8) :=
  match r.mux (.unbounded .plain) with
  | (.ok _, sink) => .ok sink.bytes
  | (.error fault, _) => .error fault

/-! ## Reading -/

open Decoder

/-- Reads one unit after its length. -/
def unitDecoder : Decoder (List UInt8) := do
  let size ← bits 16
  octets size

/-- Reads the header of an array: its flag and its type. -/
def arrayHeader : Decoder (Bool × NalType) := do
  let complete ← flag
  let _reserved ← bits 1
  let code ← bits 6
  let type := NalType.ofCode code
  if type ∈ NalType.carried then return (complete, type) else .fail (.notCarried type)

/-- Reads an array. -/
def arrayDecoder : Decoder NalArray := do
  let (complete, type) ← arrayHeader
  let count ← bits 16
  let units ← many count unitDecoder
  return { complete, type, units := units.toArray }

/-- Reads the version, which has to be known. -/
def versionDecoder : Decoder Unit := do
  let found ← bits 8
  if found = version then .done () else .fail (.recordVersion found)

/-- Reads a frame rate code, which has to have a meaning. -/
def frameRateDecoder : Decoder ConstantFrameRate := do
  let code ← bits 2
  match ConstantFrameRate.ofCode code with
  | .ok rate => return rate
  | .error fault => .fail fault

/-- Reads the size of length fields, which cannot be three bytes. -/
def lengthSizeDecoder : Decoder Nat := do
  let size ← bits 2
  if size = 2 then .fail .lengthSize else return size

/-- Reads a profile and its level. -/
def profileDecoder : Decoder Profile := do
  let space ← bits 2
  let highTier ← flag
  let idc ← bits 5
  let compatibility ← bits 32
  let constraints ← bits 48
  let level ← bits 8
  return { space, highTier, idc, compatibility, constraints, level }

def decoder : Decoder Record := do
  versionDecoder
  let profile ← profileDecoder
  let _reserved ← bits 4
  let minSpatialSegmentation ← bits 12
  let _reserved ← bits 6
  let parallelism ← bits 2
  let _reserved ← bits 6
  let chromaFormat ← bits 2
  let _reserved ← bits 5
  let bitDepthLumaMinus8 ← bits 3
  let _reserved ← bits 5
  let bitDepthChromaMinus8 ← bits 3
  let avgFrameRate ← bits 16
  let constantFrameRate ← frameRateDecoder
  let numTemporalLayers ← bits 3
  let temporalIdNested ← flag
  let lengthSizeMinusOne ← lengthSizeDecoder
  let arrayCount ← bits 8
  let arrays ← many arrayCount arrayDecoder
  return { profile, minSpatialSegmentation, parallelism := .ofCode parallelism, chromaFormat,
           bitDepthLumaMinus8, bitDepthChromaMinus8, avgFrameRate, constantFrameRate,
           numTemporalLayers, temporalIdNested, lengthSizeMinusOne, arrays }

/-- Reads a record from the front of a buffer, and says how many bytes were taken. -/
def demux (data : List UInt8) : Except Fault Record × Nat :=
  let (result, cursor) := decoder.run (.ofBytes .plain data)
  (result, cursor.source.taken)

end Hevc.Record
