/-!
# Emulation prevention

Inside a NAL unit two zero bytes are never followed by a byte of at most 3: where the payload has
such a byte, an escape byte 3 is put before it. `escape` inserts the escape bytes and `strip`
removes them. Both walk over the bytes with the number of zero bytes just passed.
-/

namespace Hevc

/-- The byte that is inserted. -/
def escapeByte : UInt8 := 3

/-- A byte that may not follow two zero bytes unescaped. -/
def needsEscape (b : UInt8) : Bool := b ≤ escapeByte

/-- The number of zero bytes in a row after one more byte. -/
def zeroRun (zeros : Nat) (b : UInt8) : Nat := if b = 0 then zeros + 1 else 0

/-- Continues `escape` after `zeros` zero bytes, in front of what `done` holds in reverse. -/
def escapeFrom (zeros : Nat) (done : List UInt8) : List UInt8 → List UInt8
  | [] => done.reverse
  | b :: rest =>
    if 2 ≤ zeros ∧ needsEscape b then escapeFrom (zeroRun 0 b) (b :: escapeByte :: done) rest
    else escapeFrom (zeroRun zeros b) (b :: done) rest

/-- A payload with its escape bytes inserted. -/
def escape (payload : List UInt8) : List UInt8 := escapeFrom 0 [] payload

/-- Continues `strip` after `zeros` zero bytes, in front of what `done` holds in reverse. -/
def stripFrom (zeros : Nat) (done : List UInt8) : List UInt8 → List UInt8
  | [] => done.reverse
  | b :: rest =>
    if 2 ≤ zeros ∧ b = escapeByte then stripFrom 0 done rest
    else stripFrom (zeroRun zeros b) (b :: done) rest

/-- The bytes of a NAL unit without its escape bytes. -/
def strip (nal : List UInt8) : List UInt8 := stripFrom 0 [] nal

end Hevc
