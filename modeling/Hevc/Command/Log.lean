import Hevc.Record.Build

/-!
# Log events

What the command reports on its way: events with a level, a text and fields. An event is written
as one line, and only if its level is asked for.
-/

namespace Hevc

/-- How much an event matters. -/
inductive Log.Level where
  | info
  | debug
  | trace
deriving DecidableEq, Repr

/-- One report. -/
structure Log.Event where
  level : Log.Level
  text : String
  /-- The names and the written values of the fields, in order. -/
  fields : List (String × String)
deriving DecidableEq, Repr

namespace Log

/-- The word in front of a line. -/
def Level.word : Level → String
  | .info => "INFO"
  | .debug => "DEBUG"
  | .trace => "TRACE"

/-- How often more reports have to be asked for before a level is shown. -/
def Level.verbosity : Level → Nat
  | .info => 0
  | .debug => 1
  | .trace => 2

/-- The line of an event. -/
def Event.line (e : Event) : String :=
  " ".intercalate (e.level.word :: e.text :: e.fields.map fun (name, value) => s!"{name}={value}")

/-- The lines of the events that a verbosity shows. -/
def lines (verbosity : Nat) (events : List Event) : List String :=
  (events.filter fun e => e.level.verbosity ≤ verbosity).map Event.line

/-! ## Written values -/

/-- A type of NAL unit, by what it holds. -/
def tag : NalType → String
  | .vcl n => s!"Vcl({n.val})"
  | .vps => "VpsNut"
  | .sps => "SpsNut"
  | .pps => "PpsNut"
  | .accessUnitDelimiter => "AudNut"
  | .endOfSequence => "EosNut"
  | .endOfBitstream => "EobNut"
  | .filler => "FdNut"
  | .prefixSei => "PrefixSeiNut"
  | .suffixSei => "SuffixSeiNut"
  | .reserved n => s!"Reserved({41 + n.val})"
  | .unspecified n => s!"Unspecified({48 + n.val})"

/-- A value that may be absent. -/
def optional : Option String → String
  | some value => s!"Some({value})"
  | none => "None"

/-- Numbers in brackets. -/
def list (ns : List Nat) : String := "[" ++ ", ".intercalate (ns.map toString) ++ "]"

/-- A number in hexadecimal digits, at least as many as given. -/
def hex (digits n : Nat) : String :=
  let text := String.ofList (Nat.toDigits 16 n)
  "0x" ++ "".pushn '0' (digits - text.length) ++ text

/-! ## Events -/

/-- A unit was found in a stream. -/
def foundUnit (nal : List UInt8) : Event :=
  { level := .trace
    text := "found NAL unit"
    fields :=
      [("nal_unit_type", optional ((nalTypeOf? nal).map tag)), ("size", toString nal.length)] }

/-- Data is taken to be a record already. -/
def noStartCode (data : List UInt8) : Event :=
  { level := .debug
    text := "no start code, writing data through"
    fields := [("size", toString data.length)] }

/-- A record was built. -/
def builtRecord (r : Record) : Event :=
  { level := .debug
    text := "built hvcC record"
    fields :=
      [("profile_idc", toString r.profile.idc), ("tier_flag", toString r.profile.highTier),
        ("level_idc", toString r.profile.level), ("parallelism_type", r.parallelism.name),
        ("num_temporal_layers", toString r.numTemporalLayers),
        ("arrays", toString r.arrays.length)] }

/-- Extradata is a stream already. -/
def alreadyStream : Event :=
  { level := .debug
    text := "extradata is already Annex-B, nothing to convert"
    fields := [] }

/-- The profile of a record. -/
def profileOf (r : Record) : Event :=
  { level := .info
    text := "profile"
    fields :=
      [("profile_space", toString r.profile.space), ("tier_flag", toString r.profile.highTier),
        ("profile_idc", toString r.profile.idc),
        ("compatibility_flags", hex 8 r.profile.compatibility),
        ("constraint_flags", hex 12 r.profile.constraints),
        ("level_idc", toString r.profile.level)] }

/-- The sample format of a record. -/
def formatOf (r : Record) : Event :=
  { level := .info
    text := "format"
    fields :=
      [("min_spatial_segmentation_idc", toString r.minSpatialSegmentation),
        ("parallelism_type", r.parallelism.name), ("chroma_format_idc", toString r.chromaFormat),
        ("bit_depth_luma", toString (r.bitDepthLumaMinus8 + 8)),
        ("bit_depth_chroma", toString (r.bitDepthChromaMinus8 + 8)),
        ("num_temporal_layers", toString r.numTemporalLayers),
        ("temporal_id_nested", toString r.temporalIdNested),
        ("length_size", toString (r.lengthSizeMinusOne + 1))] }

/-- An array of a record. -/
def arrayOf (array : NalArray) : Event :=
  { level := .info
    text := "array"
    fields :=
      [("nal_unit_type", array.type.name), ("complete", toString array.complete),
        ("sizes", list (array.units.toList.map (·.length)))] }

/-- The fields of a record. -/
def fieldsOf (r : Record) : List Event := profileOf r :: formatOf r :: r.arrays.map arrayOf

/-- The units that are found until one of them cannot be taken into a record. -/
def unitsUntilFault (options : Record.Options) (r : Record) : List (List UInt8) → List Event
  | [] => []
  | nal :: rest =>
    foundUnit nal ::
      match r.absorb options nal with
      | .ok r => unitsUntilFault options r rest
      | .error _ => []

/-- What is reported while the record of a stream is built. -/
def building (options : Record.Options) (data : List UInt8) : List Event :=
  unitsUntilFault options .empty (Stream.units data) ++
    match Record.build options data with
    | .ok r => [builtRecord r]
    | .error _ => []

/-- What is reported while data is converted to a record. -/
def converting (options : Record.Options) (data : List UInt8) : List Event :=
  if startsWithStartCode data then building options data else [noStartCode data]

end Log

end Hevc
