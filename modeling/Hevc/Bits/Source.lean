import Hevc.Escape

/-!
# Byte sources

A source hands out the bytes of a buffer one after the other and counts how many of the buffer it
has taken. An escaped source drops the escape bytes on the way. It takes an escape byte only when
the byte after it is asked for, so the count never runs ahead of what was delivered.
-/

namespace Hevc

/-- Whether the bytes of a buffer are the payload itself or hold escape bytes. -/
inductive Coding where
  | plain
  | escaped
deriving DecidableEq, Repr

/-- A buffer that is read from the front. -/
structure Source where
  /-- How the buffer is coded. -/
  coding : Coding
  /-- What is left of the buffer. -/
  rest : List UInt8
  /-- How many bytes of the buffer were taken, escape bytes included. -/
  taken : Nat
  /-- How many zero bytes in a row were passed just now. -/
  zeros : Nat
deriving DecidableEq, Repr

namespace Source

/-- A source at the front of a buffer. -/
def ofBytes (coding : Coding) (bytes : List UInt8) : Source :=
  { coding, rest := bytes, taken := 0, zeros := 0 }

/-- The next byte is an escape byte. -/
def atEscape (s : Source) (b : UInt8) : Bool :=
  s.coding = .escaped && 2 ≤ s.zeros && b = escapeByte

/-- Takes the next byte of the payload, if there is one. After an escape byte the run of zeros
starts again, so two escape bytes never follow each other. -/
def next (s : Source) : Option UInt8 × Source :=
  match s.rest with
  | [] => (none, s)
  | b :: rest =>
    if s.atEscape b then
      match rest with
      | [] => (none, { s with rest := [], taken := s.taken + 1, zeros := 0 })
      | b :: rest => (some b, { s with rest, taken := s.taken + 2, zeros := zeroRun 0 b })
    else (some b, { s with rest, taken := s.taken + 1, zeros := zeroRun s.zeros b })

/-- Continues `read`, after the bytes that `got` holds in reverse. -/
def readFrom (got : List UInt8) : Nat → Source → List UInt8 × Source
  | 0, s => (got.reverse, s)
  | count + 1, s =>
    match s.next with
    | (some b, s) => readFrom (b :: got) count s
    | (none, s) => (got.reverse, s)

/-- Takes `count` bytes of the payload, or all that is left if that is less. -/
def read (count : Nat) (s : Source) : List UInt8 × Source := readFrom [] count s

end Source

end Hevc
