import Hevc.Bits.Decoder
import Hevc.Word

/-!
# Reading Exp-Golomb codes

The code of a number `v` is `v + 1` in binary, after one zero less than it has digits. The signed
code lists the numbers as 0, 1, -1, 2, -2, ….

A run of 32 zeros ends the reading at once: no syntax element carries a number above `2 ^ 32 - 2`.
-/

namespace Hevc.Decoder

/-- The longest run of zeros that a code may begin with. -/
def maxLeadingZeros : Nat := 31

/-- The number of zeros before the next one, which is taken too. `left` more are allowed. -/
def leadingZeros (zeros : Nat) : Nat → Decoder Nat
  | 0 => .bit fun b => if b then .done zeros else .fail .codeTooLong
  | left + 1 => .bit fun b => if b then .done zeros else leadingZeros (zeros + 1) left

/-- An unsigned Exp-Golomb code, `ue(v)`. -/
def ue : Decoder Nat := do
  let zeros ← leadingZeros 0 maxLeadingZeros
  let suffix ← bits zeros
  let power ← checked (Word.oneShl? 64 zeros)
  let code ← checked (Word.unsigned? 64 (power + suffix))
  checked (Word.sub? code 1)

/-- The number that stands at a place of the list 0, 1, -1, 2, -2, …. -/
def signedAt (place : Nat) : Int :=
  if place % 2 = 0 then -(place / 2 : Nat) else (place / 2 : Nat) + 1

/-- A signed Exp-Golomb code, `se(v)`. -/
def se : Decoder Int := do
  let place ← ue
  checked (Word.signed? 63 (signedAt place))

end Hevc.Decoder
