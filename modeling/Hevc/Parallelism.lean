/-!
# Parallelism

The ways in which a decoder may work on several parts of a picture at once. The two flags of a
picture parameter set decide on it, and a configuration record keeps it as a code of two bits;
every code has a meaning.
-/

namespace Hevc

/-- How a decoder may work on a picture in parallel (ISO/IEC 14496-15, 8.3.3.1.3). -/
inductive Parallelism where
  /-- Several ways at once, or not known. -/
  | mixedOrUnknown
  /-- By slices. -/
  | slice
  /-- By tiles. -/
  | tile
  /-- By rows of coding tree units. -/
  | entropyCodingSync
deriving DecidableEq, Repr

namespace Parallelism

/-- The two-bit code. -/
def code : Parallelism → Nat
  | .mixedOrUnknown => 0
  | .slice => 1
  | .tile => 2
  | .entropyCodingSync => 3

/-- The type that the low two bits of a number name. -/
def ofCode (value : Nat) : Parallelism :=
  match value % 4 with
  | 0 => .mixedOrUnknown
  | 1 => .slice
  | 2 => .tile
  | _ => .entropyCodingSync

/-- The type that two flags of a picture parameter set allow. -/
def ofFlags (tiles entropyCodingSync : Bool) : Parallelism :=
  match tiles, entropyCodingSync with
  | true, true => .mixedOrUnknown
  | false, true => .entropyCodingSync
  | true, false => .tile
  | false, false => .slice

/-- The name of a type. -/
def name : Parallelism → String
  | .mixedOrUnknown => "MixedOrUnknown"
  | .slice => "Slice"
  | .tile => "Tile"
  | .entropyCodingSync => "EntropyCodingSync"

theorem code_lt (p : Parallelism) : p.code < 4 := by
  cases p <;> decide

theorem ofCode_code (p : Parallelism) : ofCode p.code = p := by
  cases p <;> rfl

theorem code_ofCode (value : Nat) : (ofCode value).code = value % 4 := by
  have small : value % 4 < 4 := Nat.mod_lt value (by decide)
  rw [ofCode]
  generalize value % 4 = code at small ⊢
  obtain rfl | rfl | rfl | rfl : code = 0 ∨ code = 1 ∨ code = 2 ∨ code = 3 := by omega
  all_goals rfl

end Parallelism

end Hevc
