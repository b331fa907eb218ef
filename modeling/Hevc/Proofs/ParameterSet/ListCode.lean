import Hevc.Proofs.Elements
import Hevc.Proofs.ParameterSet.ScalingList
import Mathlib.Algebra.Ring.Int.Defs

/-!
# What the list of a matrix is read from

Whatever bits are read as a scaling list were one of its codes: the list follows from the code and
from the lists before it, by a formula that knows nothing of bits. Bits that are refused hold a
value outside its range, or a code is too long or cut off.

* `ListCode.Gives`, `ListCode.Refused` — the list that a code stands for, and why there is none
* `ScalingList.decoder_taken`, `ScalingList.decoder_refused` — reading agrees with both
-/

namespace Hevc

open Decoder

/-! ## Meaning -/

namespace ListCode

/-- The factors that differences lead to, counted from `start`, all modulo 256. -/
def sums (start : Int) (ds : List Int) : List Nat :=
  (List.range ds.length).map fun i => ((start + (ds.take (i + 1)).sum) % 256).toNat

/-- What a list is counted from: its constant component, or 8 where the size has none. -/
def start (dcMinus8 : Option Int) : Int := (dcMinus8.map (· + 8)).getD ScalingList.startFactor

/-- The differences of a list are as many as its factors, and the constant component is there
where the size has one, inside its range. -/
structure Complete (sizeId : Nat) (dcMinus8 : Option Int) (ds : List Int) : Prop where
  count : ds.length = ScalingList.factorCount sizeId
  present : dcMinus8.isSome = ScalingList.hasDc sizeId
  range : ∀ n ∈ dcMinus8, -7 ≤ n ∧ n ≤ 247

/-- The list that a code stands for. `before` holds the lists of the size up to here, the last
first. -/
def Gives (sizeId : Nat) (before : List ScalingList) (l : ScalingList) : ListCode → Prop
  | .differences dcMinus8 ds =>
    Complete sizeId dcMinus8 ds
      ∧ l = { factors := sums (start dcMinus8) ds, dc := dcMinus8.map fun n => (n + 8).toNat }
  | .repeats 0 => l = ScalingList.default sizeId (before.length * ScalingList.matrixStep sizeId)
  | .repeats (back + 1) => before[back]? = some l

/-- What is read in front of a code. -/
inductive Begun (sizeId : Nat) : List Item → Prop
  /-- The code is a distance. -/
  | distance : Begun sizeId [.flag false]
  /-- The code is a constant component. -/
  | constant (h : ScalingList.hasDc sizeId = true) : Begun sizeId [.flag true]
  /-- The code is a difference. -/
  | difference (dcMinus8 : Option Int) (ds : List Int)
      (present : dcMinus8.isSome = ScalingList.hasDc sizeId)
      (more : ds.length < ScalingList.factorCount sizeId) :
      Begun sizeId (frontItems dcMinus8 ++ ds.map .se)

/-- Why bits are refused where a list has to be, with `count` lists of the size before it. -/
inductive Refused (sizeId count : Nat) (bits left : List Bool) : Fault → Prop
  /-- There are no bits. -/
  | noBits (h : bits = []) (none_left : left = []) : Refused sizeId count bits left .endOfData
  /-- A code is too long, or the bits end inside it. -/
  | badCode {fault : Fault} (read : List Item) (behind : List Bool) (begun : Begun sizeId read)
      (h : bits = Item.allBits read ++ behind) (refused : CodeRefused behind left fault) :
      Refused sizeId count bits left fault
  /-- There is no list so far back. -/
  | tooFar (distance : Nat) (far : count < distance)
      (h : bits = Item.allBits [.flag false, .ue distance] ++ left) :
      Refused sizeId count bits left (.outOfRange .matrixDelta 0 count distance)
  /-- The constant component is outside its range. -/
  | outside (n : Int) (out : n < -7 ∨ 247 < n) (present : ScalingList.hasDc sizeId = true)
      (h : bits = Item.allBits [.flag true, .se n] ++ left) :
      Refused sizeId count bits left (.outOfRange .dcCoefficient (-7) 247 n)

theorem Refused.kind {sizeId count : Nat} {bits left : List Bool} {fault : Fault}
    (h : Refused sizeId count bits left fault) :
    fault.kind = .invalidData ∨ fault.kind = .unexpectedEof ∧ left = [] := by
  cases h with
  | noBits _ none_left => exact .inr ⟨rfl, none_left⟩
  | badCode read behind begun h refused =>
    cases refused with
    | ended none_left => exact .inr ⟨rfl, none_left⟩
    | tooLong => exact .inl rfl
  | tooFar => exact .inl rfl
  | outside => exact .inl rfl

theorem allBits_frontItems (dcMinus8 : Option Int) :
    Item.allBits (frontItems dcMinus8)
      = Item.allBits [.flag true]
        ++ Item.allBits (Item.present (fun n => [.se n]) dcMinus8) :=
  Item.allBits_append [.flag true] _

theorem sums_cons (start d : Int) (ds : List Int) :
    sums start (d :: ds) = ((start + d) % 256).toNat :: sums ((start + d) % 256) ds := by
  rw [sums, sums, List.length_cons, List.range_succ_eq_map, List.map_cons, List.map_map]
  congr 1
  · rw [List.take_succ_cons, List.take_zero, List.sum_singleton]
  · refine List.map_congr_left fun i _ => ?_
    rw [Function.comp_apply, List.take_succ_cons, List.sum_cons, Int.emod_add_emod,
      Int.add_assoc]

end ListCode

/-! ## Reading -/

namespace ScalingList

open ListCode

variable {bits left : List Bool} {fault : Fault} {sizeId : Nat}

/-! ### Factors -/

theorem factorsFrom_taken {factor : Int} {got : List Nat} {count : Nat} {factors : List Nat}
    (h : (factorsFrom factor got count).eval bits = (.ok factors, left)) :
    ∃ ds : List Int, ds.length = count ∧ bits = Item.allBits (ds.map .se) ++ left
      ∧ factors = got.reverse ++ sums factor ds := by
  induction count generalizing factor got bits with
  | zero =>
    obtain ⟨same, rfl⟩ := Prod.mk.inj h
    obtain rfl := Except.ok.inj same
    exact ⟨[], rfl, rfl, (List.append_nil _).symm⟩
  | succ count ih =>
    obtain ⟨d, behind, difference, next⟩ := eval_bind_ok_cases h
    obtain ⟨-, rfl⟩ := se_taken difference
    obtain ⟨sum, _, fits, others⟩ := eval_bind_ok_cases next
    obtain ⟨found, rfl⟩ := checked_taken fits
    obtain rfl := Word.signed?_eq_some found
    obtain ⟨ds, length, rfl, rfl⟩ := ih others
    refine ⟨d :: ds, by rw [List.length_cons, length], ?_, ?_⟩
    · exact Item.allBits_singleton_append _ _ _
    · rw [sums_cons, List.reverse_cons, List.append_assoc]
      rfl

/-- Factors are refused for one of their codes, since no sum comes near the end of its word. -/
theorem factorsFrom_refused {factor : Int} (near : 0 ≤ factor ∧ factor < 256) {got : List Nat}
    {count : Nat} (h : (factorsFrom factor got count).eval bits = (.error fault, left)) :
    ∃ (ds : List Int) (behind : List Bool), ds.length < count
      ∧ bits = Item.allBits (ds.map .se) ++ behind ∧ CodeRefused behind left fault := by
  induction count generalizing factor got bits with
  | zero => exact absurd h (by simp [factorsFrom, Decoder.eval])
  | succ count ih =>
    rcases eval_bind_error_cases h with difference | ⟨d, behind, difference, others⟩
    · exact ⟨[], bits, Nat.succ_pos count, rfl, se_refused difference⟩
    · obtain ⟨small, rfl⟩ := se_taken difference
      have fits : Word.signed? 63 (factor + d) = some (factor + d) :=
        Word.signed?_of_natAbs_lt (by omega)
      rw [fits] at others
      obtain ⟨ds, behind', fewer, rfl, refused⟩ := ih (by omega) others
      refine ⟨d :: ds, behind', Nat.succ_lt_succ fewer, ?_, refused⟩
      exact Item.allBits_singleton_append _ _ _

/-! ### Constant components -/

theorem dcFactor_taken {dc : Int} (h : dcFactor.eval bits = (.ok dc, left)) :
    ∃ n : Int, (-7 ≤ n ∧ n ≤ 247) ∧ dc = n + 8 ∧ bits = Item.allBits [.se n] ++ left := by
  obtain ⟨n, behind, code, next⟩ := eval_bind_ok_cases h
  obtain ⟨-, rfl⟩ := se_taken code
  obtain ⟨_, _, within, ends⟩ := eval_bind_ok_cases next
  obtain ⟨range, rfl⟩ := require_taken within
  obtain ⟨found, rfl⟩ := checked_taken ends
  exact ⟨n, range, Word.signed?_eq_some found, rfl⟩

theorem dcFactor_refused (h : dcFactor.eval bits = (.error fault, left)) :
    CodeRefused bits left fault
      ∨ ∃ n : Int, (n < -7 ∨ 247 < n) ∧ fault = .outOfRange .dcCoefficient (-7) 247 n
        ∧ bits = Item.allBits [.se n] ++ left := by
  rcases eval_bind_error_cases h with code | ⟨n, behind, code, next⟩
  · exact .inl (se_refused code)
  · obtain ⟨small, rfl⟩ := se_taken code
    rcases eval_bind_error_cases next with within | ⟨_, _, -, ends⟩
    · obtain ⟨outside, rfl, rfl⟩ := require_refused within
      exact .inr ⟨n, by omega, rfl, rfl⟩
    · have fits : Word.signed? 63 (n + 8) = some (n + 8) :=
        Word.signed?_of_natAbs_lt (by omega)
      rw [fits] at ends
      exact absurd ends (by simp [checked, Decoder.eval])

/-- The constant component, where the size has one. -/
theorem constant_taken {dc : Option Int}
    (h : (when (hasDc sizeId) dcFactor).eval bits = (.ok dc, left)) :
    ∃ dcMinus8 : Option Int, dcMinus8.isSome = hasDc sizeId
      ∧ (∀ n ∈ dcMinus8, -7 ≤ n ∧ n ≤ 247) ∧ dc = dcMinus8.map (· + 8)
      ∧ bits = Item.allBits (Item.present (fun n => [.se n]) dcMinus8) ++ left := by
  cases has : hasDc sizeId with
  | false =>
    rw [has] at h
    obtain ⟨same, rfl⟩ := Prod.mk.inj h
    exact ⟨none, rfl, nofun, (Except.ok.inj same).symm, rfl⟩
  | true =>
    rw [has] at h
    obtain ⟨value, behind, code, ends⟩ := eval_bind_ok_cases h
    obtain ⟨n, range, rfl, rfl⟩ := dcFactor_taken code
    obtain ⟨same, rfl⟩ := Prod.mk.inj ends
    refine ⟨some n, rfl, ?_, (Except.ok.inj same).symm, rfl⟩
    rintro m ⟨⟩
    exact range

theorem constant_refused (h : (when (hasDc sizeId) dcFactor).eval bits = (.error fault, left)) :
    hasDc sizeId = true ∧ dcFactor.eval bits = (.error fault, left) := by
  cases has : hasDc sizeId with
  | false =>
    rw [has] at h
    exact absurd h (by simp [when, Decoder.eval])
  | true =>
    rw [has] at h
    rcases eval_bind_error_cases h with code | ⟨value, behind, -, ends⟩
    · exact ⟨rfl, code⟩
    · exact absurd ends (by simp [Decoder.eval])

/-! ### Lists -/

theorem coded_taken {l : ScalingList} (h : (coded sizeId).eval bits = (.ok l, left)) :
    ∃ (dcMinus8 : Option Int) (ds : List Int), Complete sizeId dcMinus8 ds
      ∧ l = { factors := sums (start dcMinus8) ds, dc := dcMinus8.map fun n => (n + 8).toNat }
      ∧ bits = Item.allBits (Item.present (fun n => [.se n]) dcMinus8)
        ++ (Item.allBits (ds.map .se) ++ left) := by
  obtain ⟨dc, behind, constant, next⟩ := eval_bind_ok_cases h
  obtain ⟨dcMinus8, present, range, rfl, rfl⟩ := constant_taken constant
  obtain ⟨factors, behind', differences, ends⟩ := eval_bind_ok_cases next
  obtain ⟨ds, count, rfl, rfl⟩ := factorsFrom_taken differences
  obtain ⟨same, rfl⟩ := Prod.mk.inj ends
  refine ⟨dcMinus8, ds, ⟨count, present, range⟩, ?_, rfl⟩
  rw [← Except.ok.inj same, Option.map_map]
  rfl

theorem start_near {dcMinus8 : Option Int} (range : ∀ n ∈ dcMinus8, -7 ≤ n ∧ n ≤ 247) :
    0 ≤ start dcMinus8 ∧ start dcMinus8 < 256 := by
  cases dcMinus8 with
  | none => decide
  | some n =>
    have inside := range n rfl
    show 0 ≤ n + 8 ∧ n + 8 < 256
    omega

theorem coded_refused (count : Nat) {behind : List Bool}
    (h : (coded sizeId).eval behind = (.error fault, left))
    (flagged : bits = Item.allBits [.flag true] ++ behind) :
    Refused sizeId count bits left fault := by
  rcases eval_bind_error_cases h with constant | ⟨dc, behind', constant, next⟩
  · obtain ⟨has, code⟩ := constant_refused constant
    rcases dcFactor_refused code with refused | ⟨n, out, rfl, rfl⟩
    · exact .badCode _ behind (.constant has) flagged refused
    · refine .outside n out has ?_
      rw [flagged, Item.allBits_singleton_append]
  · obtain ⟨dcMinus8, present, range, rfl, rfl⟩ := constant_taken constant
    rcases eval_bind_error_cases next with differences | ⟨factors, _, -, ends⟩
    · obtain ⟨ds, behind, fewer, rfl, refused⟩ :=
        factorsFrom_refused (start_near range) differences
      refine .badCode _ behind (.difference dcMinus8 ds present fewer) ?_ refused
      rw [flagged, Item.allBits_append, allBits_frontItems, List.append_assoc, List.append_assoc]
    · exact absurd ends (by simp [pure, Decoder.eval])

theorem repeated_taken {before : List ScalingList} {l : ScalingList}
    (h : (repeated sizeId before).eval bits = (.ok l, left)) :
    ∃ distance, bits = Item.allBits [.ue distance] ++ left
      ∧ (ListCode.repeats distance).Gives sizeId before l := by
  obtain ⟨distance, behind, code, next⟩ := eval_bind_ok_cases h
  obtain ⟨-, rfl⟩ := ue_taken code
  obtain ⟨_, _, within, ends⟩ := eval_bind_ok_cases next
  obtain ⟨-, rfl⟩ := require_taken within
  cases distance with
  | zero =>
    obtain ⟨same, rfl⟩ := Prod.mk.inj ends
    exact ⟨0, rfl, (Except.ok.inj same).symm⟩
  | succ back =>
    obtain ⟨found, rfl⟩ := checked_taken ends
    exact ⟨back + 1, rfl, found⟩

theorem repeated_refused {before : List ScalingList} {behind : List Bool}
    (h : (repeated sizeId before).eval behind = (.error fault, left))
    (flagged : bits = Item.allBits [.flag false] ++ behind) :
    Refused sizeId before.length bits left fault := by
  rcases eval_bind_error_cases h with code | ⟨distance, behind', code, next⟩
  · exact .badCode _ behind .distance flagged (ue_refused code)
  · obtain ⟨-, rfl⟩ := ue_taken code
    rcases eval_bind_error_cases next with within | ⟨_, _, within, ends⟩
    · obtain ⟨outside, rfl, rfl⟩ := require_refused within
      refine .tooFar distance (by omega) ?_
      rw [flagged, Item.allBits_singleton_append]
    · -- a distance inside its range leads to a list that is there
      obtain ⟨inside, rfl⟩ := require_taken within
      cases distance with
      | zero => exact absurd ends (by simp [pure, Decoder.eval])
      | succ back =>
        have there : back < before.length := by omega
        simp only [List.getElem?_eq_getElem there] at ends
        exact absurd ends (by simp [checked, Decoder.eval])

/-- A list was read from one of its codes. -/
theorem decoder_taken {before : List ScalingList} {l : ScalingList}
    (h : (decoder sizeId before).eval bits = (.ok l, left)) :
    ∃ code : ListCode, bits = Item.allBits code.items ++ left ∧ code.Gives sizeId before l := by
  obtain ⟨isCoded, behind, first, next⟩ := eval_bind_ok_cases h
  have flagged := flag_taken first
  cases isCoded with
  | false =>
    obtain ⟨distance, rfl, gives⟩ := repeated_taken next
    refine ⟨.repeats distance, ?_, gives⟩
    rw [flagged, Item.allBits_singleton_append]
    rfl
  | true =>
    obtain ⟨dcMinus8, ds, complete, rfl, rfl⟩ := coded_taken next
    refine ⟨.differences dcMinus8 ds, ?_, complete, rfl⟩
    rw [flagged, ListCode.items, Item.allBits_append, allBits_frontItems, List.append_assoc,
      List.append_assoc]

/-- Bits that are refused hold no list, for a reason that can be told. -/
theorem decoder_refused {before : List ScalingList}
    (h : (decoder sizeId before).eval bits = (.error fault, left)) :
    Refused sizeId before.length bits left fault := by
  rcases eval_bind_error_cases h with first | ⟨isCoded, behind, first, next⟩
  · cases bits with
    | nil =>
      obtain ⟨rfl, rfl⟩ := flag_refused first
      exact .noBits rfl rfl
    | cons b rest => exact absurd first (by simp [flag, Decoder.eval])
  · have flagged := flag_taken first
    cases isCoded with
    | false => exact repeated_refused next flagged
    | true => exact coded_refused before.length next flagged

end ScalingList

end Hevc
