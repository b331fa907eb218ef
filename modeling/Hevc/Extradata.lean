import Hevc.Fault
import Hevc.NalUnit.Stream
import Hevc.Word

/-!
# Legacy extradata

An older way to hand over one sequence and one picture parameter set: a version, six bytes
without meaning here, and then each set after its length in 16 bits. `toStream` turns it into a
byte stream.
-/

namespace Hevc.Extradata

/-- The fewest bytes: the version, the ignored bytes and two lengths. -/
def minSize : Nat := 11

/-- The version of the layout. -/
def version : UInt8 := 1

/-- The number of bytes in front of the first length. -/
def headerSize : Nat := 7

/-- The set whose length stands at a place, and the place behind the set. -/
def takeSet (type : NalType) (data : List UInt8) (place : Nat) :
    Except Fault (List UInt8 × Nat) :=
  match data.drop place with
  | high :: low :: rest =>
    let size := 256 * high.toNat + low.toNat
    let start := place + 2
    if size ≤ rest.length then .ok (rest.take size, start + size)
    else
      match Word.sub? data.length start with
      | some left => .error (.setTooLong type size left)
      | none => .error .arithmetic
  | _ => .error .endOfData

/-- The two sets of extradata that is long enough. -/
def sets (data : List UInt8) : Except Fault (List UInt8 × List UInt8) := do
  let (sps, place) ← takeSet .sps data headerSize
  let (pps, _) ← takeSet .pps data place
  return (sps, pps)

/-- The stream of the two sets. Data that is a stream already gives nothing: it can be used as
it is. -/
def toStream (data : List UInt8) : Except Error (List UInt8) :=
  if startsWithStartCode data then .ok []
  else if data.length < minSize then
    .error (.invalidData (.extradataTooShort data.length))
  else
    match data.head? with
    | some first =>
      if first ≠ version then .error (.invalidData (.extradataVersion first.toNat))
      else
        match sets data with
        | .ok (sps, pps) => .ok (longStartCode ++ sps ++ longStartCode ++ pps)
        | .error fault => .error fault.toError
    | none => .error (.invalidData .endOfData)

end Hevc.Extradata
