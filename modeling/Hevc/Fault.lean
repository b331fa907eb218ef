import Hevc.NalUnit.NalType

/-!
# Faults

What can go wrong, as causes. `Fault` is the cause itself, `Fault.kind` the class it belongs to
and `Fault.message` its wording; no other module words a fault. `Error` is how the library
reports a fault to its callers: it blames the data, the type of a unit, or the surroundings, and
`Fault.toError` decides which by the kind of the fault.
-/

namespace Hevc

/-- The classes that faults fall into. -/
inductive Fault.Kind where
  /-- The data breaks a rule of the format. -/
  | invalidData
  /-- The data ends too early. -/
  | unexpectedEof
  /-- A value that the caller gave cannot be coded. -/
  | invalidInput
  /-- The sink takes no more bytes. -/
  | brokenPipe
  /-- A file does not exist. -/
  | notFound
  /-- Any other failure of the surroundings. -/
  | other
deriving DecidableEq, Repr

/-- The coded values that are held against a range when they are read; `Element.name` has the
syntax element of each. -/
inductive Element where
  | layerSetCount
  | hrdCount
  | elementalDuration
  | cpbCount
  | spatialSegmentation
  | shortTermSetCount
  | longTermCount
  | deltaRps
  | negativeCount
  | positiveCount
  | negativeDelta
  | positiveDelta
  | predictedNegativeCount
  | predictedPositiveCount
  | matrixDelta
  | dcCoefficient
deriving DecidableEq, Repr

/-- The name that a range message gives an element. -/
def Element.name : Element → String
  | .layerSetCount => "vps_num_layer_sets_minus1"
  | .hrdCount => "vps_num_hrd_parameters"
  | .elementalDuration => "elemental_duration"
  | .cpbCount => "cpb_cnt_minus1"
  | .spatialSegmentation => "min_spatial_segmentation_idc"
  | .shortTermSetCount => "num_short_term_ref_pic_sets"
  | .longTermCount => "num_long_term_ref_pics_sps"
  | .deltaRps => "abs_delta_rps_minus1"
  | .negativeCount => "num_negative_pics"
  | .positiveCount => "num_positive_pics"
  | .negativeDelta => "delta_poc_s0_minus1"
  | .positiveDelta => "delta_poc_s1_minus1"
  | .predictedNegativeCount => "set.num_negative_pics() as u64"
  | .predictedPositiveCount => "set.num_positive_pics() as u64"
  | .matrixDelta => "scaling_list_pred_matrix_id_delta"
  | .dcCoefficient => "scaling_list_dc_coef_minus8"

/-- Why the system refuses to read or to write a file. -/
inductive FileFault where
  /-- Nothing has the name. -/
  | notFound
  /-- The device of the name cannot be reached. -/
  | noDevice
  /-- A path goes on after something that is no directory. -/
  | notDirectory
  /-- The name is that of a directory. -/
  | isDirectory
  /-- There is no room for the content. -/
  | noSpace
  /-- A name, or a path, has too many bytes. -/
  | nameTooLong
  /-- The content never ends. -/
  | outOfMemory
deriving DecidableEq, Repr

/-- The wording of a refusal, with the number that the system gives it. -/
def FileFault.message : FileFault → String
  | .notFound => "No such file or directory (os error 2)"
  | .noDevice => "No such device or address (os error 6)"
  | .notDirectory => "Not a directory (os error 20)"
  | .isDirectory => "Is a directory (os error 21)"
  | .noSpace => "No space left on device (os error 28)"
  | .nameTooLong => "File name too long (os error 36)"
  | .outOfMemory => "out of memory"

/-- Why something failed. -/
inductive Fault where
  /-- The data ended inside a value. -/
  | endOfData
  /-- The data ended inside a run of whole bytes to be skipped. -/
  | endOfSkip
  /-- An Exp-Golomb code has 32 leading zeros or more. -/
  | codeTooLong
  /-- A value has more bits than it is to be written with. -/
  | bitsTooLarge
  /-- A value is beyond the Exp-Golomb codes. -/
  | valueTooLarge
  /-- The sink refused a byte. -/
  | sinkFull
  /-- A coded value is outside its range. -/
  | outOfRange (element : Element) (low high value : Int)
  /-- A NAL unit header begins with a one. -/
  | forbiddenBit
  /-- A NAL unit is not of the type that was asked for. -/
  | unexpectedType (expected found : NalType)
  /-- A constant frame rate code has no meaning. -/
  | constantFrameRate (code : Nat)
  /-- A configuration record has a version other than 1. -/
  | recordVersion (version : Nat)
  /-- A length field of three bytes is announced. -/
  | lengthSize
  /-- A record announces an array of a type that it cannot carry. -/
  | notCarried (type : NalType)
  /-- A record has more arrays than it can count. -/
  | tooManyArrays
  /-- An array has more NAL units than it can count. -/
  | tooManyUnits (type : NalType) (count : Nat)
  /-- A NAL unit is longer than its length field can say. -/
  | unitTooLarge (type : NalType) (size : Nat)
  /-- A payload is longer than the length in front of it can say. -/
  | payloadTooLarge
  /-- A stream has no parameter set of a type. -/
  | missing (type : NalType)
  /-- Extradata ends before its two size fields can. -/
  | extradataTooShort (size : Nat)
  /-- Extradata has a version other than 1. -/
  | extradataVersion (version : Nat)
  /-- A parameter set of extradata is longer than what is left. -/
  | setTooLong (type : NalType) (size left : Nat)
  /-- A sum, a difference, a shift or an index left the range of its machine word. -/
  | arithmetic
  /-- A file cannot be read or written. -/
  | file (cause : FileFault)
  /-- The surroundings failed, in their own words. -/
  | surroundings (kind : Fault.Kind) (text : String)
deriving DecidableEq, Repr

namespace Fault

/-- The class of a fault. -/
def kind : Fault → Kind
  | .endOfData | .endOfSkip => .unexpectedEof
  | .valueTooLarge => .invalidInput
  | .sinkFull => .brokenPipe
  | .file .notFound => .notFound
  | .file _ => .other
  | .surroundings kind _ => kind
  | _ => .invalidData

/-- The name of a parameter set in messages about extradata. -/
def setName : NalType → String
  | .sps => "SPS"
  | .pps => "PPS"
  | type => type.name

/-- The wording of a fault. -/
def message : Fault → String
  | .endOfData => "failed to fill whole buffer"
  | .endOfSkip => "not enough bits left to skip"
  | .codeTooLong => "exp-golomb code too long"
  | .bitsTooLarge => "bits too large to write"
  | .valueTooLarge => "exp-golomb value too large"
  | .sinkFull => "sink full"
  | .outOfRange element low high value =>
    s!"{element.name} is out of range [{low}, {high}]: {value}"
  | .forbiddenBit => "forbidden_zero_bit is not zero"
  | .unexpectedType expected found => s!"expected {expected.name}, found {found.name}"
  | .constantFrameRate code => s!"invalid constant_frame_rate: {code}"
  | .recordVersion version => s!"unsupported configuration version: {version}"
  | .lengthSize => "length_size_minus_one must be 0, 1, or 3"
  | .notCarried type => s!"{type.name} cannot be carried in an hvcC array"
  | .tooManyArrays => "too many NAL unit arrays"
  | .tooManyUnits type count => s!"too many {type.name} NAL units: {count}"
  | .unitTooLarge type size => s!"{type.name} NAL unit too large: {size} bytes"
  | .payloadTooLarge => "NAL unit larger than 4 GiB"
  | .missing type => s!"missing {type.name} NAL unit"
  | .extradataTooShort size => s!"extradata too short: {size} bytes"
  | .extradataVersion version => s!"unsupported extradata version: {version}"
  | .setTooLong type size left => s!"{setName type} size {size} exceeds the {left} bytes left"
  | .arithmetic => "arithmetic out of range"
  | .file cause => cause.message
  | .surroundings _ text => text

end Fault

/-- How the library reports a fault. -/
inductive Error where
  /-- The data is malformed, truncated or incomplete. -/
  | invalidData (cause : Fault)
  /-- A parameter set of one type was read as one of another. -/
  | unexpectedType (expected found : NalType)
  /-- The surroundings failed, most often the sink. -/
  | io (cause : Fault)
deriving DecidableEq, Repr

/-- The report that a fault leads to. The kind alone decides, except that a type that was not
asked for has a report of its own. -/
def Fault.toError (fault : Fault) : Error :=
  match fault with
  | .unexpectedType expected found => .unexpectedType expected found
  | _ =>
    match fault.kind with
    | .invalidData | .unexpectedEof => .invalidData fault
    | _ => .io fault

namespace Error

/-- The data is to blame, not the surroundings. -/
def isInvalidData : Error → Bool
  | .invalidData _ | .unexpectedType _ _ => true
  | .io _ => false

/-- The wording of a report. -/
def message : Error → String
  | .invalidData cause => s!"Invalid data: {cause.message}"
  | .unexpectedType expected found =>
    s!"Unexpected NAL unit type: {(Fault.unexpectedType expected found).message}"
  | .io cause => s!"I/O error: {cause.message}"

end Error

end Hevc
