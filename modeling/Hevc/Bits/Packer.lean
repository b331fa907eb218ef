import Hevc.Bits.Sink
import Hevc.Word

/-!
# Bit packers

A packer puts bits together to bytes, the most significant bit first, and hands every byte to a
sink as soon as it is complete. What is to be written is a list of items; a packer writes them
one by one, up to the first that fails.

A byte that the sink refused stays with the packer. The packer then holds eight bits, which is
no alignment, and offers the byte again before it takes the next bit; but aligning it adds no bit
and so leaves the byte where it is.

Numbers are held in words of 64 bits. Two things can be asked for that such a word cannot do: twice
the magnitude of the least signed number, and a shift by 64. They fail with `Fault.arithmetic`, and
nothing is written.
-/

namespace Hevc

/-- A writer of bits. -/
structure Packer where
  sink : Sink
  /-- The bits of the incomplete byte, as a number. -/
  pending : Nat
  /-- How many bits are incomplete: at most 7, or 8 after a refusal. -/
  pendingLen : Nat
  /-- The number of bits written, incomplete ones included. -/
  written : Nat

/-- Something to be written. -/
inductive Item where
  /-- The low `count` bits of a number, which has to fit them. -/
  | bits (value count : Nat)
  /-- Bytes as they are. -/
  | bytes (data : List UInt8)
  /-- An unsigned Exp-Golomb code. -/
  | ue (value : Nat)
  /-- A signed Exp-Golomb code. -/
  | se (value : Int)
  /-- Zero bits up to the next byte. -/
  | align
  /-- Nothing: the value that would stand here has no written form. -/
  | refuse (fault : Fault)
deriving DecidableEq, Repr

/-- One bit. -/
def Item.flag (b : Bool) : Item := .bits b.toNat 1

namespace Packer

/-- A packer in front of a sink. -/
def ofSink (sink : Sink) : Packer := { sink, pending := 0, pendingLen := 0, written := 0 }

/-- No bit is pending. -/
def isAligned (p : Packer) : Bool := p.pendingLen = 0

/-- Hands the pending byte over, if it is complete. -/
def settle (p : Packer) : Except Fault Unit × Packer :=
  if p.pendingLen = 8 then
    match p.sink.put (UInt8.ofNat p.pending) with
    | (.ok _, sink) => (.ok (), { p with sink, pending := 0, pendingLen := 0 })
    | (.error fault, sink) => (.error fault, { p with sink })
  else (.ok (), p)

/-- Adds a bit to the incomplete byte. -/
def add (b : Bool) (p : Packer) : Packer :=
  { p with
    pending := 2 * p.pending + b.toNat
    pendingLen := p.pendingLen + 1
    written := p.written + 1 }

/-- Writes one bit. -/
def putBit (b : Bool) (p : Packer) : Except Fault Unit × Packer :=
  match p.settle with
  | (.ok _, p) => (p.add b).settle
  | (.error fault, p) => (.error fault, p)

/-- Writes the low `count` bits of a number, the most significant first. -/
def putBits (value : Nat) : Nat → Packer → Except Fault Unit × Packer
  | 0, p => (.ok (), p)
  | count + 1, p =>
    match p.putBit (value.testBit count) with
    | (.ok _, p) => putBits value count p
    | (.error fault, p) => (.error fault, p)

/-- Writes a number with `count` bits, of which there are 64 at most. Nothing is written of a
number that does not fit. Behind a refused byte there is no room for the first bit, and the number
is shifted by all of its bits. -/
def writeBits (value count : Nat) (p : Packer) : Except Fault Unit × Packer :=
  let count := min count 64
  if count < 64 ∧ value >>> count ≠ 0 then (.error .bitsTooLarge, p)
  else if p.pendingLen = 8 ∧ Word.shr? 64 value count = none then (.error .arithmetic, p)
  else p.putBits value count

/-- Writes bytes from between two bits. -/
def writeOctets : List UInt8 → Packer → Except Fault Unit × Packer
  | [], p => (.ok (), p)
  | b :: rest, p =>
    match p.writeBits b.toNat 8 with
    | (.ok _, p) => writeOctets rest p
    | (.error fault, p) => (.error fault, p)

/-- Hands bytes straight to the sink. Of a write that failed, the bytes are counted that arrived;
an escaped sink does not say how many those are. -/
def passOn (data : List UInt8) (p : Packer) : Except Fault Unit × Packer :=
  match p.sink.write data with
  | (.ok _, sink) => (.ok (), { p with sink, written := p.written + 8 * data.length })
  | (.error fault, sink) =>
    let arrived :=
      match p.sink.coding with
      | .plain => sink.attempts - p.sink.attempts - 1
      | .escaped => 0
    (.error fault, { p with sink, written := p.written + 8 * arrived })

/-- Writes bytes. -/
def writeBytes (data : List UInt8) (p : Packer) : Except Fault Unit × Packer :=
  if p.isAligned then p.passOn data else p.writeOctets data

/-- Writes zero bits up to the next byte. -/
def align (p : Packer) : Except Fault Unit × Packer :=
  if p.isAligned then (.ok (), p) else p.writeBits 0 (8 - p.pendingLen)

/-- The place of a number in the list 0, 1, -1, 2, -2, …. -/
def placeOf (n : Int) : Nat := if n ≤ 0 then 2 * n.natAbs else 2 * n.natAbs - 1

/-- Writes an unsigned Exp-Golomb code. The number with which the codes of a 64-bit word end has
none. -/
def writeUe (value : Nat) (p : Packer) : Except Fault Unit × Packer :=
  if 1 <<< 64 ≤ value + 1 then (.error .valueTooLarge, p)
  else
    let zeros := (value + 1).log2
    match p.writeBits 0 zeros with
    | (.ok _, p) => p.writeBits (value + 1) (zeros + 1)
    | (.error fault, p) => (.error fault, p)

/-- Writes a signed Exp-Golomb code. -/
def writeSe (value : Int) (p : Packer) : Except Fault Unit × Packer :=
  match Word.unsigned? 64 (placeOf value) with
  | some place => p.writeUe place
  | none => (.error .arithmetic, p)

/-- Writes one item. -/
def write : Item → Packer → Except Fault Unit × Packer
  | .bits value count, p => p.writeBits value count
  | .bytes data, p => p.writeBytes data
  | .ue value, p => p.writeUe value
  | .se value, p => p.writeSe value
  | .align, p => p.align
  | .refuse fault, p => (.error fault, p)

/-- Writes items, up to the first that fails. -/
def writeAll : List Item → Packer → Except Fault Unit × Packer
  | [], p => (.ok (), p)
  | item :: rest, p =>
    match p.write item with
    | (.ok _, p) => writeAll rest p
    | (.error fault, p) => (.error fault, p)

/-- Pads the last byte with zeros and gives the sink back. -/
def finish (p : Packer) : Except Fault Unit × Sink :=
  let (result, p) := p.align
  (result, p.sink)

end Packer

/-- Writes items into a sink and pads the last byte with zeros. -/
def Sink.writeItems (items : List Item) (sink : Sink) : Except Fault Unit × Sink :=
  match (Packer.ofSink sink).writeAll items with
  | (.ok _, p) => p.finish
  | (.error fault, p) => (.error fault, p.sink)

end Hevc
