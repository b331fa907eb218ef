import Hevc.NalUnit.Stream
import Hevc.Record.Merge
import Hevc.Record.Serial

/-!
# Building a record from a stream

`build` takes the parameter sets of a stream, in whatever order they come, merges each into one
record and keeps the unit itself. `convert` writes the record; data that is no stream is taken to
be a record already and goes through as it is. Nothing is written of a record that cannot be
built or has no written form.
-/

namespace Hevc.Record

/-- What a record is to hold. -/
structure Options where
  /-- The flag of every array. -/
  complete : Bool
  /-- The record also keeps supplemental enhancement information. -/
  includeSei : Bool
deriving DecidableEq, Repr

/-- Arrays are not declared complete, and supplemental enhancement information is kept. -/
def Options.default : Options := { complete := false, includeSei := true }

/-- The most bytes of a unit that a record can carry. -/
def maxUnitSize : Nat := 65535

/-- Keeps a unit in the array of its type, unless it is too large. -/
def keep (options : Options) (type : NalType) (nal : List UInt8) (r : Record) :
    Except Error Record :=
  if maxUnitSize < nal.length then .error (.invalidData (.unitTooLarge type nal.length))
  else .ok (r.push type nal options.complete).2

/-- Merges a parameter set, if the unit can be read. -/
def mergeReading {α : Type} (merge : α → Record → Record) (reading : Reading α) (r : Record) :
    Except Error Record :=
  reading.result.map fun unit => merge unit.payload r

/-- What the unit means for the record, if it is one that the record carries. -/
def merge? (options : Options) (type : NalType) (nal : List UInt8) (r : Record) :
    Option (Except Error Record) :=
  match type with
  | .vps => some (mergeReading mergeVps (Vps.read nal) r)
  | .sps => some (mergeReading mergeSps (Sps.read nal) r)
  | .pps => some (mergeReading mergePps (Pps.read nal) r)
  | _ => if type.isSei && options.includeSei then some (.ok r) else none

/-- Takes one unit of a stream into a record. -/
def absorb (options : Options) (r : Record) (nal : List UInt8) : Except Error Record :=
  match nalTypeOf? nal with
  | none => .ok r
  | some type =>
    match merge? options type nal r with
    | none => .ok r
    | some (.error e) => .error e
    | some (.ok merged) => merged.keep options type nal

/-- The types of which a record needs a unit. -/
def required : List NalType := [.vps, .sps, .pps]

/-- The first type that a record needs and has no array of. -/
def missing? (r : Record) : Option NalType :=
  required.find? fun type => !r.arrays.any (·.type = type)

/-- The record of a stream. -/
def build (options : Options) (data : List UInt8) : Except Error Record := do
  let r ← (Stream.units data).foldlM (absorb options) empty
  match r.missing? with
  | some type => .error (.invalidData (.missing type))
  | none => .ok r.finalize

/-- Writes bytes into a sink. Whatever goes wrong is the sink's fault. -/
def writeThrough (data : List UInt8) (sink : Sink) : Except Error Unit × Sink :=
  let (result, sink) := sink.write data
  (result.mapError .io, sink)

/-- The bytes of the record of a stream. -/
def buildBytes (options : Options) (data : List UInt8) : Except Error (List UInt8) := do
  let r ← build options data
  r.toBytes.mapError Fault.toError

/-- Writes the record of a stream, or data that is no stream, into a sink. -/
def convert (options : Options) (data : List UInt8) (sink : Sink) : Except Error Unit × Sink :=
  if !startsWithStartCode data then writeThrough data sink
  else
    match buildBytes options data with
    | .ok bytes => writeThrough bytes sink
    | .error e => (.error e, sink)

end Hevc.Record
