import Hevc.Bits.Source
import Hevc.Fault

/-!
# Bit cursors

A cursor reads a source bit by bit, the most significant bit of a byte first. It holds the byte
it stands in, so the source is always at the byte after it.

Every operation answers with a value or a fault and with the cursor after it, since reading may
go on after a failure: a fault never turns back what was taken. `skip` and the two byte reads
have a fast path that asks the source for whole bytes, and a fault on that path differs from one
met bit by bit only in that the skipped bytes are not counted as consumed.
-/

namespace Hevc

/-- A place in the bits of a source. -/
structure Cursor where
  /-- The bytes after the current one. -/
  source : Source
  /-- The number of bits of the current byte that were read, modulo 8. -/
  bitPos : Nat
  /-- The byte that the next bit comes from, unless the cursor is aligned. -/
  current : UInt8
  /-- The number of bits read or skipped so far. -/
  consumed : Nat
deriving DecidableEq, Repr

namespace Cursor

/-- A cursor at the front of a source. -/
def ofSource (source : Source) : Cursor := { source, bitPos := 0, current := 0, consumed := 0 }

/-- A cursor at the front of a buffer. -/
def ofBytes (coding : Coding) (bytes : List UInt8) : Cursor :=
  ofSource (.ofBytes coding bytes)

/-- The cursor stands between two bytes. -/
def isAligned (c : Cursor) : Bool := c.bitPos = 0

/-- The next bit. An aligned cursor takes a new byte for it. -/
def readBit (c : Cursor) : Except Fault Bool × Cursor :=
  if c.isAligned then
    match c.source.next with
    | (some b, source) =>
      (.ok (b.toNat.testBit 7), { source, bitPos := 1, current := b, consumed := c.consumed + 1 })
    | (none, source) => (.error .endOfData, { c with source })
  else
    (.ok (c.current.toNat.testBit (7 - c.bitPos)),
      { c with bitPos := (c.bitPos + 1) % 8, consumed := c.consumed + 1 })

/-- Continues `readBits` after bits of the value `high`. -/
def readBitsFrom (high : Nat) : Nat → Cursor → Except Fault Nat × Cursor
  | 0, c => (.ok high, c)
  | count + 1, c =>
    match c.readBit with
    | (.ok bit, c) => readBitsFrom (2 * high + bit.toNat) count c
    | (.error fault, c) => (.error fault, c)

/-- The number that the next `count` bits write, of which 64 are read at most. -/
def readBits (count : Nat) (c : Cursor) : Except Fault Nat × Cursor :=
  readBitsFrom 0 (min count 64) c

/-- Passes over `count` bits one by one. -/
def dropBits : Nat → Cursor → Except Fault Unit × Cursor
  | 0, c => (.ok (), c)
  | count + 1, c =>
    match c.readBit with
    | (.ok _, c) => dropBits count c
    | (.error fault, c) => (.error fault, c)

/-- Passes over `count` whole bytes. What is there is taken even if it is too little. -/
def dropBytes (count : Nat) (c : Cursor) : Except Fault Unit × Cursor :=
  let (got, source) := c.source.read count
  if got.length < count then (.error .endOfSkip, { c with source })
  else (.ok (), { c with source, consumed := c.consumed + 8 * count })

/-- Passes over `count` bits: up to the next byte, then whole bytes, then the rest. -/
def skip (count : Nat) (c : Cursor) : Except Fault Unit × Cursor :=
  let lead := if c.isAligned then 0 else min count (8 - c.bitPos)
  match c.dropBits lead with
  | (.error fault, c) => (.error fault, c)
  | (.ok _, c) =>
    match c.dropBytes ((count - lead) / 8) with
    | (.error fault, c) => (.error fault, c)
    | (.ok _, c) => c.dropBits ((count - lead) % 8)

/-- Moves to the next byte, unless the cursor is aligned. -/
def align (c : Cursor) : Cursor :=
  if c.isAligned then c else { c with bitPos := 0, consumed := c.consumed + (8 - c.bitPos) }

/-- Continues a byte read from between two bits, after the bytes that `got` holds in reverse. -/
def readOctetsFrom (got : List UInt8) : Nat → Cursor → Except Fault (List UInt8) × Cursor
  | 0, c => (.ok got.reverse, c)
  | count + 1, c =>
    match c.readBits 8 with
    | (.ok value, c) => readOctetsFrom (UInt8.ofNat value :: got) count c
    | (.error fault, c) => (.error fault, c)

/-- Up to `count` bytes. An aligned cursor hands out what the source has left; any other needs
all of them. -/
def read (count : Nat) (c : Cursor) : Except Fault (List UInt8) × Cursor :=
  if c.isAligned then
    let (got, source) := c.source.read count
    (.ok got, { c with source, consumed := c.consumed + 8 * got.length })
  else readOctetsFrom [] count c

/-- Exactly `count` bytes. What is there is taken even if it is too little. -/
def readExact (count : Nat) (c : Cursor) : Except Fault (List UInt8) × Cursor :=
  match c.read count with
  | (.error fault, c) => (.error fault, c)
  | (.ok got, c) => (if got.length < count then .error .endOfData else .ok got, c)

end Cursor

end Hevc
