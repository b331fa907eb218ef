/-!
# Machine words

Coded values are held in words of a fixed width. The operations here give the exact result where
it fits and nothing where it does not, so a computation that would leave its word shows.
-/

namespace Hevc.Word

/-- A number that an unsigned word of `width` bits holds. -/
def unsigned? (width n : Nat) : Option Nat := if n < 1 <<< width then some n else none

/-- A number that a signed word of `width + 1` bits holds. -/
def signed? (width : Nat) (n : Int) : Option Int :=
  if -(1 <<< width : Nat) ≤ n ∧ n < (1 <<< width : Nat) then some n else none

/-- A difference of unsigned numbers, unless it is negative. -/
def sub? (m n : Nat) : Option Nat := if n ≤ m then some (m - n) else none

/-- One, shifted left inside a word of `width` bits. -/
def oneShl? (width count : Nat) : Option Nat := if count < width then some (1 <<< count) else none

/-- A number, shifted right inside a word of `width` bits. -/
def shr? (width n count : Nat) : Option Nat := if count < width then some (n >>> count) else none

end Hevc.Word
