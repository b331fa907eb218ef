import Hevc.Word
import Mathlib.Algebra.Group.Int.Defs
import Mathlib.Algebra.GroupWithZero.Nat

/-!
# Values that fit a machine word

* `unsigned?_of_lt`, `signed?_of_natAbs_lt` — a value in range is what the word holds
* `signed?_eq_some` — a word holds no other value than the exact one
* `sub?_of_le`, `oneShl?_of_lt`, `shr?_of_lt` — an operation that stays in range gives the exact
  result
-/

namespace Hevc.Word

theorem unsigned?_of_lt {width n : Nat} (h : n < 2 ^ width) : unsigned? width n = some n := by
  rw [unsigned?, Nat.one_shiftLeft, if_pos h]

theorem signed?_of_natAbs_lt {width : Nat} {n : Int} (h : n.natAbs < 2 ^ width) :
    signed? width n = some n := by
  rw [signed?, Nat.one_shiftLeft, if_pos (by omega)]

theorem signed?_eq_some {width : Nat} {n m : Int} (h : signed? width n = some m) : m = n := by
  unfold signed? at h
  split at h
  · exact (Option.some.inj h).symm
  · exact absurd h (by simp)

theorem sub?_of_le {m n : Nat} (h : n ≤ m) : sub? m n = some (m - n) := by
  rw [sub?, if_pos h]

theorem oneShl?_of_lt {width count : Nat} (h : count < width) :
    oneShl? width count = some (2 ^ count) := by
  rw [oneShl?, Nat.one_shiftLeft, if_pos h]

theorem shr?_of_lt {width n count : Nat} (h : count < width) :
    shr? width n count = some (n / 2 ^ count) := by
  rw [shr?, Nat.shiftRight_eq_div_pow, if_pos h]

end Hevc.Word
