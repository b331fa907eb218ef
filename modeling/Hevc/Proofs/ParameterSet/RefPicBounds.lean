import Hevc.ParameterSet.RefPicSet
import Hevc.Proofs.Safe

/-!
# Bounds of reference picture sets

However its sets are coded, the sequence of them stays small: a set has 16 pictures at most on a
side, and each prediction moves a picture by at most `2 ^ 15`. So no distance comes near the ends
of its machine word, and every place that a prediction looks up is there.

* `explicit_safe`, `predicted_safe` — the bounds of one set, from those of the set before it
* `all_safe` — the bounds of every set, by its place in the sequence
-/

namespace Hevc

open Decoder

namespace RefPicSet

/-- A set with few pictures on either side, none of them further than `limit`. -/
structure Near (limit : Nat) (set : RefPicSet) : Prop where
  negativeCount : set.negative.length ≤ maxPicsPerSide
  positiveCount : set.positive.length ≤ maxPicsPerSide
  negative : ∀ pic ∈ set.negative, pic.delta.natAbs ≤ limit
  positive : ∀ pic ∈ set.positive, pic.delta.natAbs ≤ limit

/-- The furthest that a picture of the set at a place of the sequence can be. -/
def limitAt (place : Nat) : Nat := (maxPicsPerSide + place) * 2 ^ 15

/-! ## Explicit sets -/

theorem sideFrom_safe (element : Element) {sign distance : Int} (unit : sign = 1 ∨ sign = -1)
    {got : List RefPic} {count : Nat} (few : got.length + count ≤ maxPicsPerSide)
    (near : distance.natAbs ≤ got.length * 2 ^ 15)
    (before : ∀ pic ∈ got, pic.delta.natAbs ≤ limitAt 0) :
    (sideFrom element sign distance got count).Safe Fault.OfElement
      (fun pics => pics.length = got.length + count ∧ ∀ pic ∈ pics, pic.delta.natAbs ≤ limitAt 0)
      (count * 64) := by
  induction count generalizing distance got with
  | zero => exact ⟨by simp, fun pic mem => before pic (List.mem_reverse.mp mem)⟩
  | succ count ih =>
    rw [maxPicsPerSide] at few
    unfold sideFrom
    refine (Safe.codeWithin (n := 1 + count * 64) fun value range => ?_).le (by omega)
    rw [show maxDeltaMinus1 = 2 ^ 15 - 1 from rfl] at range
    -- the picture is one step of at most `2 ^ 15` further than the one before it
    have moved : (distance + sign * (value + 1)).natAbs ≤ (got.length + 1) * 2 ^ 15 := by
      rcases unit with rfl | rfl <;> omega
    have inside : (distance + sign * (value + 1)).natAbs ≤ limitAt 0 :=
      Nat.le_trans moved (Nat.mul_le_mul_right _ (by rw [maxPicsPerSide]; omega))
    refine .checked_bind (Word.signed?_of_natAbs_lt (by omega)) ?_
    refine Safe.flag.bind fun used _ => ?_
    refine (ih (by rw [List.length_cons, maxPicsPerSide]; omega)
      (by rw [List.length_cons]; exact moved) ?_).weaken ?_
    · intro pic mem
      rcases List.mem_cons.mp mem with rfl | old
      · exact inside
      · exact before pic old
    · rintro pics ⟨length, all⟩
      exact ⟨by rw [length, List.length_cons]; omega, all⟩

theorem side_safe (element : Element) {sign : Int} (unit : sign = 1 ∨ sign = -1) {count : Nat}
    (few : count ≤ maxPicsPerSide) :
    (side element sign count).Safe Fault.OfElement
      (fun pics => pics.length ≤ maxPicsPerSide ∧ ∀ pic ∈ pics, pic.delta.natAbs ≤ limitAt 0)
      (16 * 64) := by
  have all := @sideFrom_safe element sign 0 unit [] count (by simpa using few) (by decide) (by simp)
  refine (all.weaken ?_).le (Nat.mul_le_mul_right 64 few)
  rintro pics ⟨length, near⟩
  exact ⟨by rw [length, List.length_nil, Nat.zero_add]; exact few, near⟩

theorem picCount_safe (element : Element) :
    (picCount element).Safe Fault.OfElement (· ≤ maxPicsPerSide) 63 :=
  Safe.codeWithin (n := 0) fun count range => Safe.pure (by omega)

theorem explicit_safe :
    explicit.Safe Fault.OfElement (Near (limitAt 0)) [63, 63, 16 * 64, 16 * 64].sum := by
  refine .bind (picCount_safe _) fun negativeCount fewNegative => ?_
  refine .bind (picCount_safe _) fun positiveCount fewPositive => ?_
  refine .bind (side_safe _ (.inr rfl) fewNegative) fun negative onNegative => ?_
  refine .bind (side_safe _ (.inl rfl) fewPositive) fun positive onPositive => ?_
  exact .pure ⟨onNegative.1, onPositive.1, onNegative.2, onPositive.2⟩

/-! ## Predicted sets -/

theorem shift_safe : shift.Safe Fault.OfElement (·.natAbs ≤ 2 ^ 15) [1, 63].sum := by
  refine .bind .flag fun back _ => ?_
  refine .codeWithin fun value range => ?_
  rw [show maxDeltaMinus1 = 2 ^ 15 - 1 from rfl] at range
  have small : ((if back then -1 else 1) * ((value : Int) + 1)).natAbs ≤ 2 ^ 15 := by
    cases back <;> simp <;> omega
  exact Safe.checked (Word.signed?_of_natAbs_lt (by omega)) small

theorem choice_safe : choice.Safe Fault.OfElement (fun _ => True) [1, 1].sum := by
  refine .bind .flag fun used _ => ?_
  exact .bind (.codedOr (fun _ => .flag) fun _ => trivial) fun kept _ => .pure trivial

variable {shift : Int} {limit : Nat}

/-- A place inside the list of flags, and a distance that can be moved. -/
theorem candidate?_isSome (choices : List Choice) {place : Nat} {delta : Int}
    (small : shift.natAbs ≤ 2 ^ 15) (room : limit ≤ 2 ^ 62) (there : place < choices.length)
    (near : delta.natAbs ≤ limit) :
    ∃ c, candidate? shift choices place delta = some c
      ∧ c.pic.delta.natAbs ≤ limit + 2 ^ 15 := by
  have moved : Word.signed? 63 (delta + shift) = some (delta + shift) :=
    Word.signed?_of_natAbs_lt (by omega)
  refine ⟨{ pic := { delta := delta + shift, used := choices[place].used },
            kept := choices[place].kept }, ?_, ?_⟩
  · unfold candidate?
    rw [List.getElem?_eq_getElem there, moved]
    rfl
  · dsimp only
    omega

theorem mapM_isSome {α β : Type} {f : α → Option β} {P : β → Prop} {xs : List α}
    (h : ∀ x ∈ xs, ∃ y, f x = some y ∧ P y) :
    ∃ ys, xs.mapM f = some ys ∧ ys.length = xs.length ∧ ∀ y ∈ ys, P y := by
  induction xs with
  | nil => exact ⟨[], rfl, rfl, by simp⟩
  | cons x rest ih =>
    obtain ⟨y, found, hy⟩ := h x List.mem_cons_self
    obtain ⟨ys, others, length, all⟩ := ih fun z mem => h z (List.mem_cons_of_mem x mem)
    refine ⟨y :: ys, ?_, by simpa using length, by simpa using ⟨hy, all⟩⟩
    simp [List.mapM_cons, found, others]

theorem candidates?_isSome (choices : List Choice) {first : Nat} {pics : List RefPic}
    (small : shift.natAbs ≤ 2 ^ 15) (room : limit ≤ 2 ^ 62)
    (there : first + pics.length ≤ choices.length)
    (near : ∀ pic ∈ pics, pic.delta.natAbs ≤ limit) :
    ∃ cs, candidates? shift choices first pics = some cs ∧ cs.length = pics.length
      ∧ ∀ c ∈ cs, c.pic.delta.natAbs ≤ limit + 2 ^ 15 := by
  have each : ∀ j ∈ List.range pics.length, ∃ c,
      (do let pic ← pics[j]?; candidate? shift choices (first + j) pic.delta) = some c
        ∧ c.pic.delta.natAbs ≤ limit + 2 ^ 15 := by
    intro j mem
    have inside : j < pics.length := List.mem_range.mp mem
    have flags : first + j < choices.length := by omega
    obtain ⟨c, found, moved⟩ :=
      candidate?_isSome choices small room flags (near pics[j] (List.getElem_mem inside))
    refine ⟨c, ?_, moved⟩
    rw [List.getElem?_eq_getElem inside]
    exact found
  obtain ⟨cs, found, length, moved⟩ := mapM_isSome each
  exact ⟨cs, found, by simpa using length, moved⟩

/-- A prediction chooses from what was moved, whichever side it lies on now. -/
theorem choose_near (onSide : Int → Bool) {far near : List Candidate} {own : Candidate}
    (onFar : ∀ c ∈ far, c.pic.delta.natAbs ≤ limit)
    (onNear : ∀ c ∈ near, c.pic.delta.natAbs ≤ limit) (atOwn : own.pic.delta.natAbs ≤ limit) :
    ∀ pic ∈ choose onSide (far.reverse ++ [own] ++ near), pic.delta.natAbs ≤ limit := by
  intro pic mem
  obtain ⟨c, kept, rfl⟩ := List.mem_map.mp mem
  have moved : c ∈ far ∨ c = own ∨ c ∈ near := by simpa using (List.mem_filter.mp kept).1
  rcases moved with mem | rfl | mem
  · exact onFar c mem
  · exact atOwn
  · exact onNear c mem

theorem predicted_safe {reference : RefPicSet} (h : reference.Near limit) (room : limit ≤ 2 ^ 62) :
    (predicted reference).Safe Fault.OfElement (Near (limit + 2 ^ 15)) [64, 33 * 2, 0, 0].sum := by
  have fewNegative := h.negativeCount
  have fewPositive := h.positiveCount
  rw [maxPicsPerSide] at fewNegative fewPositive
  have places : reference.negative.length + reference.positive.length + 1 ≤ 33 := by omega
  refine .bind shift_safe fun shift small => ?_
  refine .bind ((Safe.many choice_safe _).le (Nat.mul_le_mul_right 2 places)) ?_
  rintro choices ⟨count, -⟩
  -- there is one pair of flags for each picture and one more, so no place is outside their list
  have atNegative : 0 + reference.negative.length ≤ choices.length := by omega
  have atPositive : reference.negative.length + reference.positive.length ≤ choices.length := by
    omega
  have atOwn : reference.negative.length + reference.positive.length < choices.length := by omega
  obtain ⟨negative, foundNegative, -, movedNegative⟩ :=
    candidates?_isSome choices small room atNegative h.negative
  obtain ⟨positive, foundPositive, -, movedPositive⟩ :=
    candidates?_isSome choices small room atPositive h.positive
  obtain ⟨own, foundOwn, movedOwn⟩ :=
    candidate?_isSome choices small room atOwn (show Int.natAbs 0 ≤ limit from Nat.zero_le limit)
  refine .checked_bind foundNegative ?_
  refine .checked_bind foundPositive ?_
  refine .checked_bind foundOwn ?_
  refine .bind (.range _ _ _ _) fun _ negativeCount => ?_
  refine .bind (.range _ _ _ _) fun _ positiveCount => ?_
  exact .pure ⟨by omega, by omega,
    choose_near (· < 0) movedPositive movedNegative movedOwn,
    choose_near (0 < ·) movedNegative movedPositive movedOwn⟩

/-! ## The sequence -/

/-- Each set of a sequence is as near as its place allows. -/
def AllNear (sets : List RefPicSet) : Prop :=
  ∀ (place : Nat) (set : RefPicSet), sets[place]? = some set → set.Near (limitAt place)

theorem AllNear.concat {sets : List RefPicSet} {set : RefPicSet} (h : AllNear sets)
    (last : set.Near (limitAt sets.length)) : AllNear (sets ++ [set]) := by
  intro place found at_place
  by_cases old : place < sets.length
  · exact h place found (by rwa [List.getElem?_append_left old] at at_place)
  · rw [List.getElem?_append_right (Nat.le_of_not_lt old)] at at_place
    rw [List.getElem?_singleton] at at_place
    split at at_place
    · next first =>
      obtain rfl := Option.some.inj at_place
      rwa [show place = sets.length by omega]
    · exact absurd at_place (by simp)

theorem Near.mono {set : RefPicSet} {limit' : Nat} (h : set.Near limit) (more : limit ≤ limit') :
    set.Near limit' :=
  { h with
    negative := fun pic mem => Nat.le_trans (h.negative pic mem) more
    positive := fun pic mem => Nat.le_trans (h.positive pic mem) more }

/-- The set behind those that `before` holds in reverse. -/
theorem decoder_safe {before : List RefPicSet} (h : AllNear before.reverse)
    (few : before.length ≤ maxSets) :
    (decoder before.head?).Safe Fault.OfElement (Near (limitAt before.length)) [1, 2174].sum := by
  rw [maxSets] at few
  have explicit : explicit.Safe Fault.OfElement (Near (limitAt before.length)) 2174 :=
    explicit_safe.weaken fun set near => near.mono (by rw [limitAt, limitAt]; omega)
  cases before with
  | nil => exact explicit.le (by decide)
  | cons reference others =>
    have near : reference.Near (limitAt others.length) := h others.length reference (by simp)
    have predicted := predicted_safe near (by rw [limitAt, maxPicsPerSide]; simp at few; omega)
    refine .bind .flag fun isPredicted _ => .ite (fun _ => ?_) fun _ => explicit
    exact (predicted.weaken fun set near => near.mono (by simp [limitAt]; omega)).le (by decide)

theorem allFrom_safe {before : List RefPicSet} {count : Nat} (h : AllNear before.reverse)
    (few : before.length + count ≤ maxSets) :
    (allFrom before count).Safe Fault.OfElement
      (fun sets => sets.length = before.length + count ∧ AllNear sets) (count * 2175) := by
  induction count generalizing before with
  | zero => exact ⟨by simp, h⟩
  | succ count ih =>
    rw [Nat.succ_mul, Nat.add_comm (count * 2175)]
    refine (decoder_safe h (by omega)).bind fun set near => ?_
    have longer : AllNear (set :: before).reverse := by
      rw [List.reverse_cons]
      exact h.concat (by simpa using near)
    refine (ih longer (by rw [List.length_cons]; omega)).weaken ?_
    rintro sets ⟨length, all⟩
    exact ⟨by rw [length, List.length_cons]; omega, all⟩

theorem all_safe {count : Nat} (few : count ≤ maxSets) :
    (all count).Safe Fault.OfElement (fun sets => sets.length = count ∧ AllNear sets)
      (count * 2175) := by
  have first : AllNear [].reverse := fun place set h => absurd h (by simp)
  refine (allFrom_safe first (by simpa using few)).weaken ?_
  rintro sets ⟨length, near⟩
  exact ⟨by simpa using length, near⟩

theorem counted_safe :
    counted.Safe Fault.OfElement (fun sets => sets.length ≤ maxSets ∧ AllNear sets)
      (63 + maxSets * 2175) := by
  refine .codeWithin fun count range => ?_
  have few : count ≤ maxSets := Int.ofNat_le.mp range.2
  refine ((all_safe few).weaken ?_).le (Nat.mul_le_mul_right 2175 few)
  rintro sets ⟨rfl, near⟩
  exact ⟨few, near⟩

end RefPicSet

end Hevc
