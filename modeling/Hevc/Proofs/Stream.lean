import Hevc.NalUnit.LengthPrefixed
import Hevc.Proofs.Source
import Mathlib.Algebra.GroupWithZero.Nat
import Mathlib.Algebra.Order.BigOperators.Group.List
import Mathlib.Algebra.Order.Group.Nat

/-!
# Splitting a stream

* `Stream.nextUnit?_inside` — a unit is cut out of the stream, between two start codes
* `Stream.unitsFrom_of_none`, `Stream.unitsFrom_of_some` — one step of the splitting
* `LengthPrefixed.sum_payloads_le` — how many bytes the payloads of a stream are with their lengths
-/

namespace Hevc

namespace Stream

theorem length_trimZeros_le (unit : List UInt8) : (trimZeros unit).length ≤ unit.length := by
  have kept := (List.dropWhile_suffix (p := (· = 0)) (l := unit.reverse)).length_le
  unfold trimZeros
  rwa [List.length_reverse] at kept ⊢

/-- What is broken off begins with a start code, unless nothing is. -/
theorem startCode_prefix_breakAtCodeFrom (passed data : List UInt8)
    (h : (breakAtCodeFrom passed data).2 ≠ []) :
    startCode <+: (breakAtCodeFrom passed data).2 := by
  induction data generalizing passed with
  | nil => exact absurd rfl h
  | cons b rest ih =>
    unfold breakAtCodeFrom at h ⊢
    split
    · next code => exact List.isPrefixOf_iff_prefix.mp code
    · next code =>
      rw [if_neg code] at h
      exact ih _ h

/-- What is in front of a unit, its start code, the unit and what follows it have room in a
stream. -/
theorem nextUnit?_inside {data unit rest : List UInt8} (h : nextUnit? data = some (unit, rest)) :
    (breakAtCode data).1.length + startCode.length + unit.length + rest.length ≤ data.length := by
  have whole := length_breakAtCodeFrom [] data
  have code := startCode_prefix_breakAtCodeFrom [] data
  unfold nextUnit? breakAtCode at h
  split at h
  · exact absurd h (by simp)
  · next found =>
    have behind := length_breakAtCodeFrom []
      (List.drop startCode.length (breakAtCodeFrom [] data).2)
    have long := (code found).length_le
    obtain ⟨rfl, rfl⟩ := Prod.mk.inj (Option.some.inj h)
    have trimmed := length_trimZeros_le
      (breakAtCodeFrom [] (List.drop startCode.length (breakAtCodeFrom [] data).2)).1
    rw [List.length_drop] at behind
    rw [List.length_nil] at whole behind
    unfold breakAtCode
    omega

/-! ## Step by step -/

theorem unitsFrom_of_none {data : List UInt8} (h : nextUnit? data = none)
    (found : List (List UInt8)) : unitsFrom found data = found.reverse := by
  unfold unitsFrom
  split
  · rfl
  · next next => exact absurd (h.symm.trans next) (by simp)

theorem unitsFrom_of_some {data unit rest : List UInt8} (h : nextUnit? data = some (unit, rest))
    (found : List (List UInt8)) :
    unitsFrom found data = unitsFrom (if unit.isEmpty then found else unit :: found) rest := by
  rw [unitsFrom]
  split
  · next next => exact absurd (h.symm.trans next) (by simp)
  · next unit' rest' next =>
    obtain ⟨rfl, rfl⟩ := Prod.mk.inj (Option.some.inj (h.symm.trans next))
    rfl

/-- The units of a stream, with four bytes in front of each instead of a start code, are at most
twice as long as the stream. -/
theorem sum_unitsFrom_le (found : List (List UInt8)) (data : List UInt8) :
    ((unitsFrom found data).map fun unit => 4 + unit.length).sum
      ≤ (found.map fun unit => 4 + unit.length).sum + 2 * data.length := by
  induction found, data using unitsFrom.induct with
  | case1 found data last =>
    rw [unitsFrom_of_none last, List.map_reverse, List.sum_reverse]
    omega
  | case2 found data unit rest next ih =>
    have inside := nextUnit?_inside next
    rw [show startCode.length = 3 from rfl] at inside
    rw [unitsFrom_of_some next]
    split at ih
    · next empty =>
      rw [if_pos empty]
      omega
    · next some =>
      rw [List.map_cons, List.sum_cons] at ih
      rw [if_neg some]
      omega

end Stream

namespace LengthPrefixed

/-- The payloads of a stream after their lengths, of which any number is written, are at most
twice as long as the stream. -/
theorem sum_payloads_le {data : List UInt8} {before : List (List UInt8)}
    (h : before <+: payloads data) :
    (before.map fun payload => lengthBytes + payload.length).sum ≤ 2 * data.length := by
  have whole := Stream.sum_unitsFrom_le [] data
  obtain ⟨after, h⟩ := h
  calc (before.map fun payload => lengthBytes + payload.length).sum
      ≤ ((payloads data).map fun payload => lengthBytes + payload.length).sum := by
        rw [← h, List.map_append, List.sum_append]
        exact Nat.le_add_right _ _
    _ ≤ ((Stream.units data).map fun unit => lengthBytes + unit.length).sum := by
        rw [payloads, List.map_map]
        exact List.sum_le_sum fun unit _ => Nat.add_le_add_left (length_strip_le unit) _
    _ ≤ 2 * data.length := by
        rw [List.map_nil, List.sum_nil, Nat.zero_add] at whole
        exact whole

end LengthPrefixed

end Hevc
