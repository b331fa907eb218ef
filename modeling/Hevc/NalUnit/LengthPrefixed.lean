import Hevc.Bits.Sink
import Hevc.NalUnit.Stream

/-!
# Length-prefixed NAL units

The form in which a length stands in place of a start code. The payload of a unit goes without
its escape bytes then, since nothing has to be found in it.
-/

namespace Hevc

/-- The bytes of a number that is less than `256 ^ count`, the most significant first. -/
def bigEndian (count n : Nat) : List UInt8 :=
  (List.range count).reverse.map fun place => UInt8.ofNat (n >>> (8 * place))

namespace LengthPrefixed

/-- The number of bytes of a length. -/
def lengthBytes : Nat := 4

/-- A payload after its length. -/
def frame (payload : List UInt8) : List UInt8 := bigEndian lengthBytes payload.length ++ payload

/-- The most bytes of a payload that a length can say. -/
def maxPayload : Nat := 1 <<< 32 - 1

/-- The payloads of the units of a stream. -/
def payloads (data : List UInt8) : List (List UInt8) := (Stream.units data).map strip

/-- Continues `write` after `written` bytes. -/
def writeFrom (written : Nat) : List (List UInt8) → Sink → Except Fault Nat × Sink
  | [], s => (.ok written, s)
  | payload :: rest, s =>
    if maxPayload < payload.length then (.error .payloadTooLarge, s)
    else
      match s.write (frame payload) with
      | (.ok _, s) => writeFrom (written + (lengthBytes + payload.length)) rest s
      | (.error fault, s) => (.error fault, s)

/-- Writes each payload of a stream after its length into a sink, and says how many bytes that
is. -/
def write (data : List UInt8) (s : Sink) : Except Fault Nat × Sink :=
  writeFrom 0 (payloads data) s

/-- The frames of a stream in a row. -/
def ofStream (data : List UInt8) : List UInt8 := (write data (.unbounded .plain)).2.bytes

end LengthPrefixed

end Hevc
