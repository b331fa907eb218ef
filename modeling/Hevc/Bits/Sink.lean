import Hevc.Bits.Source
import Hevc.Fault

/-!
# Byte sinks

A sink receives bytes one by one and may refuse any of them. Which attempts it refuses, and with
which fault, is given from outside, so a sink that is never full, one that fails after some bytes
and one that fails now and then are all values of the type. An escaped sink inserts escape bytes on
the way.
-/

namespace Hevc

/-- A receiver of bytes. -/
structure Sink where
  /-- Whether escape bytes are inserted. -/
  coding : Coding
  /-- Whether the sink refuses the byte of an attempt, the attempts being counted from 0. -/
  refuses : Nat → Bool
  /-- What it says when it refuses a byte. -/
  fault : Fault
  /-- How many bytes were offered so far. -/
  attempts : Nat
  /-- What has arrived, the last byte first. -/
  received : List UInt8
  /-- How many zero bytes in a row were written just now. -/
  zeros : Nat

namespace Sink

/-- A sink that takes every byte. -/
def unbounded (coding : Coding) : Sink :=
  { coding, refuses := fun _ => false, fault := .sinkFull, attempts := 0, received := [],
    zeros := 0 }

/-- A sink that takes `capacity` bytes and refuses all others with the given fault. -/
def failing (coding : Coding) (capacity : Nat) (fault : Fault) : Sink :=
  { coding, refuses := fun attempt => capacity ≤ attempt, fault, attempts := 0, received := [],
    zeros := 0 }

/-- A sink that takes `capacity` bytes and is full then. -/
def limited (coding : Coding) (capacity : Nat) : Sink := failing coding capacity .sinkFull

/-- What has arrived. -/
def bytes (s : Sink) : List UInt8 := s.received.reverse

/-- Hands one byte over as it is. -/
def offer (b : UInt8) (s : Sink) : Except Fault Unit × Sink :=
  if s.refuses s.attempts then (.error s.fault, { s with attempts := s.attempts + 1 })
  else (.ok (), { s with attempts := s.attempts + 1, received := b :: s.received })

/-- Hands over a byte of the payload and counts it in the run of zeros. -/
def offerCounted (b : UInt8) (s : Sink) : Except Fault Unit × Sink :=
  match s.offer b with
  | (.ok _, s) => (.ok (), { s with zeros := zeroRun s.zeros b })
  | (.error fault, s) => (.error fault, s)

/-- Writes one byte, after an escape byte if one is due. An escape byte that arrived is not
written again, even if the byte after it was refused. -/
def put (b : UInt8) (s : Sink) : Except Fault Unit × Sink :=
  if s.coding = .escaped ∧ 2 ≤ s.zeros ∧ needsEscape b then
    match s.offer escapeByte with
    | (.ok _, s) => offerCounted b { s with zeros := 0 }
    | (.error fault, s) => (.error fault, s)
  else offerCounted b s

/-- Writes bytes, up to the first that is refused. -/
def write : List UInt8 → Sink → Except Fault Unit × Sink
  | [], s => (.ok (), s)
  | b :: rest, s =>
    match s.put b with
    | (.ok _, s) => write rest s
    | (.error fault, s) => (.error fault, s)

end Sink

end Hevc
