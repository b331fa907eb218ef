import Hevc.Bits.Cursor

/-!
# Decoders

A `Decoder α` is a finite tree of requests for bits: it asks for the next bit, or to pass over
some bits, until it ends with a value or with a fault. What a decoder does with a request is fixed
by the tree alone, and never depends on where the bits come from, so everything about the place
of the bits (positions, escape bytes, the end of the data) is settled once, in `run`.

A syntax structure is a decoder written in `do` notation out of `flag`, `bits`, `skip` and the
Exp-Golomb codes, with `checked` around every sum and index that a machine word or a list has
to hold.
-/

namespace Hevc

/-- A reader of bits, as the tree of its requests. -/
inductive Decoder (α : Type) where
  /-- Ends with a value. -/
  | done (value : α)
  /-- Ends with a fault. -/
  | fail (fault : Fault)
  /-- Asks for the next bit. -/
  | bit (next : Bool → Decoder α)
  /-- Asks to pass over some bits. -/
  | skip (count : Nat) (next : Decoder α)

namespace Decoder

variable {α β : Type}

/-- Goes on with a second decoder where the first ends with a value. -/
def andThen : Decoder α → (α → Decoder β) → Decoder β
  | .done value, f => f value
  | .fail fault, _ => .fail fault
  | .bit next, f => .bit fun b => (next b).andThen f
  | .skip count next, f => .skip count (next.andThen f)

instance : Monad Decoder where
  pure := .done
  bind := andThen

/-- Answers the requests of a decoder from a cursor. -/
def run : Decoder α → Cursor → Except Fault α × Cursor
  | .done value, c => (.ok value, c)
  | .fail fault, c => (.error fault, c)
  | .bit next, c =>
    match c.readBit with
    | (.ok b, c) => (next b).run c
    | (.error fault, c) => (.error fault, c)
  | .skip count next, c =>
    match c.skip count with
    | (.ok _, c) => next.run c
    | (.error fault, c) => (.error fault, c)

/-! ## Small decoders -/

/-- One bit. -/
def flag : Decoder Bool := .bit .done

/-- Passes over `count` bits. -/
def ignore (count : Nat) : Decoder Unit := .skip count (.done ())

/-- Continues `bits` after bits of the value `high`. -/
def bitsFrom (high : Nat) : Nat → Decoder Nat
  | 0 => .done high
  | count + 1 => .bit fun b => bitsFrom (2 * high + b.toNat) count

/-- The number that the next `count` bits write, most significant bit first. -/
def bits (count : Nat) : Decoder Nat := bitsFrom 0 count

/-- The value that a checked computation gives, or the arithmetic fault. -/
def checked : Option α → Decoder α
  | some value => .done value
  | none => .fail .arithmetic

/-- Fails unless the value of an element lies between two bounds. -/
def require (element : Element) (low high value : Int) : Decoder Unit :=
  if low ≤ value ∧ value ≤ high then .done () else .fail (.outOfRange element low high value)

/-- Continues `many` after the values that `got` holds in reverse. -/
def manyFrom (d : Decoder α) (got : List α) : Nat → Decoder (List α)
  | 0 => .done got.reverse
  | count + 1 => d.andThen fun value => manyFrom d (value :: got) count

/-- The values of `count` runs of one decoder. -/
def many (count : Nat) (d : Decoder α) : Decoder (List α) := manyFrom d [] count

/-- One byte. -/
def octet : Decoder UInt8 := (bits 8).andThen fun value => .done (UInt8.ofNat value)

/-- Exactly `count` bytes. -/
def octets (count : Nat) : Decoder (List UInt8) := many count octet

/-- Continues `forEach` after the values that `got` holds in reverse. -/
def forEachFrom (f : α → Decoder β) (got : List β) : List α → Decoder (List β)
  | [] => .done got.reverse
  | x :: xs => (f x).andThen fun value => forEachFrom f (value :: got) xs

/-- The values of one decoder for each member of a list. -/
def forEach (xs : List α) (f : α → Decoder β) : Decoder (List β) := forEachFrom f [] xs

/-- The value of a decoder, if a flag says that it is coded. -/
def when (present : Bool) (d : Decoder α) : Decoder (Option α) :=
  if present then d.andThen fun value => .done (some value) else .done none

/-- The value of a decoder, if it is coded, and otherwise the one that is inferred. -/
def codedOr (coded : Bool) (inferred : α) (d : Decoder α) : Decoder α :=
  if coded then d else .done inferred

/-- A flag, and after it a value if the flag is set. -/
def optional (d : Decoder α) : Decoder (Option α) := flag.andThen fun present => when present d

end Decoder

end Hevc
