import Hevc.Proofs.ParameterSet.RefPicOrder
import Hevc.Proofs.Reads
import Hevc.Written.Sps

/-!
# What a prediction means

A predicted set holds the pictures of an earlier set that it keeps, with the earlier current picture
as one of them: those that lie before the current picture now, and those that lie behind it. Reading
looks the flags up by places and lists the pictures in six runs; what comes out is said here without
places and runs.

* `choose_perm` — the order in which pictures are chosen from does not decide which are chosen
* `predict_predicts`, `Predicts.unique` — the choice holds what is kept and nothing twice, and no
  other set does
* `Near.movable` — no set of a sequence is too far away to be moved
* `predicted_choices` — reading takes the flags that were written, and gives the prediction
-/

namespace Hevc

open Decoder

namespace RefPicSet

variable {shift : Int} {choices : List Choice} {reference : RefPicSet}

/-! ## Meaning -/

/-- The distances of the pictures of a set, and that of its current picture. -/
def distances (set : RefPicSet) : List Int :=
  set.negative.map RefPic.delta ++ set.positive.map RefPic.delta ++ [0]

/-- What a set is predicted from: the pictures of an earlier set and its current picture, each by
its distance and with its flags. -/
def sources (reference : RefPicSet) (choices : List Choice) : List (Int × Choice) :=
  reference.distances.zip choices

/-- The pictures that are kept, moved along. -/
def keptPics (shift : Int) (sources : List (Int × Choice)) : List RefPic :=
  (sources.filter (·.2.kept)).map fun (delta, choice) =>
    { delta := delta + shift, used := choice.used }

/-- A set holds the kept pictures of an earlier one: those before the current picture and those
after it, each side in order. One that falls on the current picture is dropped. -/
structure Predicts (reference : RefPicSet) (shift : Int) (choices : List Choice)
    (set : RefPicSet) : Prop where
  ordered : set.Ordered
  negative : set.negative.Perm ((keptPics shift (reference.sources choices)).filter (·.delta < 0))
  positive : set.positive.Perm ((keptPics shift (reference.sources choices)).filter (0 < ·.delta))

/-! ## Choosing -/

theorem choose_perm (onSide : Int → Bool) {cs others : List Candidate} (h : cs.Perm others) :
    (choose onSide cs).Perm (choose onSide others) := (h.filter _).map _

theorem choose_moved (onSide : Int → Bool) (sources : List (Int × Choice)) :
    choose onSide (sources.map (.moved shift))
      = (keptPics shift sources).filter fun pic => onSide pic.delta := by
  rw [choose, keptPics, List.filter_map, List.filter_map, List.map_map, List.filter_filter]
  rfl

theorem zip_append_drop {α β : Type} (xs ys : List α) {zs : List β} (h : xs.length ≤ zs.length) :
    (xs ++ ys).zip zs = xs.zip zs ++ ys.zip (zs.drop xs.length) := by
  induction xs generalizing zs with
  | nil => rfl
  | cons x rest ih =>
    cases zs with
    | nil => simp at h
    | cons z zs =>
      have others : (rest ++ ys).zip zs = rest.zip zs ++ ys.zip (zs.drop rest.length) :=
        ih (by simpa using h)
      simp [others]

/-- The flags of the current picture are the last ones. -/
theorem moved_sources {negative positive : List Candidate} {own : Candidate}
    (count : choices.length = reference.negative.length + reference.positive.length + 1)
    (negatives : candidates? shift choices 0 reference.negative = some negative)
    (positives : candidates? shift choices reference.negative.length reference.positive
      = some positive)
    (owns : candidate? shift choices (reference.negative.length + reference.positive.length) 0
      = some own) :
    (reference.sources choices).map (.moved shift) = negative ++ positive ++ [own] := by
  obtain ⟨-, rfl⟩ := candidates?_eq_some negatives
  obtain ⟨-, rfl⟩ := candidates?_eq_some positives
  obtain ⟨choice, there, rfl⟩ := candidate?_eq_some owns
  have last : choices.drop (reference.negative.length + reference.positive.length)
      = [choice] := by
    obtain ⟨inside, rfl⟩ := List.getElem?_eq_some_iff.mp there
    rw [List.drop_eq_getElem_cons inside, List.drop_eq_nil_of_le (by omega)]
  have enough : (reference.negative.map (·.delta) ++ reference.positive.map (·.delta)).length
      ≤ choices.length := by
    rw [List.length_append, List.length_map, List.length_map]
    omega
  have enoughNegative : (reference.negative.map (·.delta)).length ≤ choices.length := by
    rw [List.length_append] at enough
    omega
  rw [sources, distances, zip_append_drop _ _ enough, zip_append_drop _ _ enoughNegative,
    List.length_append, List.length_map, List.length_map, last, List.map_append, List.map_append]
  rfl

/-- What a prediction chooses is what is kept, with each picture on its side. -/
theorem predict_predicts (ordered : reference.Ordered) {negative positive : List Candidate}
    {own : Candidate}
    (count : choices.length = reference.negative.length + reference.positive.length + 1)
    (negatives : candidates? shift choices 0 reference.negative = some negative)
    (positives : candidates? shift choices reference.negative.length reference.positive
      = some positive)
    (owns : candidate? shift choices (reference.negative.length + reference.positive.length) 0
      = some own) :
    reference.Predicts shift choices (predict negative positive own) := by
  have moved := moved_sources count negatives positives owns
  have place : own.pic.delta = shift := by
    obtain ⟨choice, -, rfl⟩ := candidate?_eq_some owns
    exact Int.zero_add shift
  have timeline : Timeline negative positive own :=
    .of_moved ordered (deltas_of_candidates? negatives) (deltas_of_candidates? positives) place
  -- each side lists the same candidates from another end
  have falling : (positive.reverse ++ [own] ++ negative).Perm (negative ++ positive ++ [own]) := by
    rw [List.append_assoc negative]
    exact (((List.reverse_perm positive).append_right [own]).append_right negative).trans
      List.perm_append_comm
  have rising : (negative.reverse ++ [own] ++ positive).Perm (negative ++ positive ++ [own]) := by
    rw [List.append_assoc, List.append_assoc]
    exact (List.reverse_perm negative).append List.perm_append_comm
  refine ⟨timeline.predict_ordered, ?_, ?_⟩
  · have chosen := choose_perm (· < 0) falling
    rwa [← moved, choose_moved] at chosen
  · have chosen := choose_perm (0 < ·) rising
    rwa [← moved, choose_moved] at chosen

/-- No two sets are the prediction of the same flags: a side that is in order is known by its
pictures. -/
theorem Predicts.unique {set other : RefPicSet} (h : reference.Predicts shift choices set)
    (h' : reference.Predicts shift choices other) : set = other := by
  have negative : set.negative = other.negative := by
    refine (h.negative.trans h'.negative.symm).eq_of_pairwise ?_ h.ordered.negative
      h'.ordered.negative
    intro p q _ _ further nearer
    omega
  have positive : set.positive = other.positive := by
    refine (h.positive.trans h'.positive.symm).eq_of_pairwise ?_ h.ordered.positive
      h'.ordered.positive
    intro p q _ _ nearer further
    omega
  cases set
  cases other
  rw [RefPicSet.mk.injEq]
  exact ⟨negative, positive⟩

/-! ## Reading -/

theorem shift_reads (some : 1 ≤ shift.natAbs) (small : shift.natAbs ≤ 2 ^ 15) :
    RefPicSet.shift.Reads [.flag (shift < 0), .ue (shift.natAbs - 1)] shift := by
  have moved : (if decide (shift < 0) then -1 else 1) * ((shift.natAbs - 1 : Nat) + 1 : Int)
      = shift := by
    by_cases back : shift < 0
    · simp only [back, decide_true, if_true]
      omega
    · simp only [back, decide_false, Bool.false_eq_true, if_false]
      omega
  have range : (0 : Int) ≤ (shift.natAbs - 1 : Nat)
      ∧ ((shift.natAbs - 1 : Nat) : Int) ≤ maxDeltaMinus1 := by
    rw [show maxDeltaMinus1 = 2 ^ 15 - 1 from rfl]
    omega
  refine (reads_flag _).cons (.inRange range (by decide) (reads_checked ?_))
  rw [moved]
  exact Word.signed?_of_natAbs_lt (by omega)

theorem choice_reads {c : Choice} (inferred : c.used = true → c.kept = true) :
    choice.Reads c.items c := by
  have kept : (codedOr (!c.used) true flag).Reads (if !c.used then [.flag c.kept] else []) c.kept :=
    reads_codedOr (fun _ => reads_flag c.kept) fun used => inferred (by simpa using used)
  exact (reads_flag c.used).cons kept.map

/-- A machine word holds the distance of every picture, once it is moved. -/
def Movable (reference : RefPicSet) (shift : Int) : Prop :=
  ∀ pic ∈ reference.negative ++ reference.positive, (Word.signed? 63 (pic.delta + shift)).isSome

/-- The bounds that every set of a sequence keeps leave room to move it by any coded shift. -/
theorem Near.movable {place : Nat} (near : reference.Near (limitAt place))
    (few : place < maxSets) (small : shift.natAbs ≤ 2 ^ 15) : reference.Movable shift := by
  rw [maxSets] at few
  intro pic mem
  have bound : pic.delta.natAbs ≤ (16 + place) * 2 ^ 15 := by
    rcases List.mem_append.mp mem with mem | mem
    · exact near.negative pic mem
    · exact near.positive pic mem
  rw [Word.signed?_of_natAbs_lt (by omega)]
  rfl

theorem candidate?_of_fits {place : Nat} {delta : Int} (there : place < choices.length)
    (fits : (Word.signed? 63 (delta + shift)).isSome) :
    ∃ c, candidate? shift choices place delta = some c := by
  obtain ⟨moved, found⟩ := Option.isSome_iff_exists.mp fits
  unfold candidate?
  rw [List.getElem?_eq_getElem there, found]
  exact ⟨_, rfl⟩

theorem candidates?_of_fits {first : Nat} {pics : List RefPic}
    (there : first + pics.length ≤ choices.length)
    (fits : ∀ pic ∈ pics, (Word.signed? 63 (pic.delta + shift)).isSome) :
    ∃ cs, candidates? shift choices first pics = some cs := by
  have each : ∀ j ∈ List.range pics.length, ∃ c,
      (do let pic ← pics[j]?; candidate? shift choices (first + j) pic.delta) = some c ∧ True := by
    intro j mem
    have inside : j < pics.length := List.mem_range.mp mem
    have flags : first + j < choices.length := by omega
    obtain ⟨c, found⟩ := candidate?_of_fits flags (fits pics[j] (List.getElem_mem inside))
    refine ⟨c, ?_, trivial⟩
    rw [List.getElem?_eq_getElem inside]
    exact found
  obtain ⟨cs, found, -⟩ := mapM_isSome each
  exact ⟨cs, found⟩

theorem eval_require_count (element : Element) (count : Nat) {α : Type} (d : Decoder α)
    (rest : List Bool) :
    (require element 0 maxPicsPerSide count >>= fun _ => d).eval rest
      = if count ≤ maxPicsPerSide then d.eval rest
        else (.error (.outOfRange element 0 maxPicsPerSide count), rest) := by
  rw [eval_bind, eval_require]
  by_cases few : count ≤ maxPicsPerSide
  · rw [if_pos (by omega), if_pos few]
  · rw [if_neg (by omega), if_neg few]

/-- Reading comes to the prediction, and then looks at the length of each side. -/
theorem eval_predicted (ordered : reference.Ordered) (movable : reference.Movable shift)
    (some : 1 ≤ shift.natAbs) (small : shift.natAbs ≤ 2 ^ 15)
    (count : choices.length = reference.negative.length + reference.positive.length + 1)
    (inferred : ∀ c ∈ choices, c.used = true → c.kept = true) (rest : List Bool) :
    ∃ set, reference.Predicts shift choices set
      ∧ (predicted reference).eval (Item.allBits (predictedItems shift choices) ++ rest)
        = if set.negative.length ≤ maxPicsPerSide then
            if set.positive.length ≤ maxPicsPerSide then (.ok set, rest)
            else (.error (.outOfRange .predictedPositiveCount 0 maxPicsPerSide
              set.positive.length), rest)
          else (.error (.outOfRange .predictedNegativeCount 0 maxPicsPerSide
            set.negative.length), rest) := by
  have atNegative : 0 + reference.negative.length ≤ choices.length := by omega
  have atPositive : reference.negative.length + reference.positive.length ≤ choices.length := by
    omega
  have atOwn : reference.negative.length + reference.positive.length < choices.length := by omega
  have fits : (Word.signed? 63 (0 + shift)).isSome := by
    rw [Word.signed?_of_natAbs_lt (by omega)]
    rfl
  obtain ⟨negative, negatives⟩ :=
    candidates?_of_fits atNegative fun pic mem => movable pic (List.mem_append_left _ mem)
  obtain ⟨positive, positives⟩ :=
    candidates?_of_fits atPositive fun pic mem => movable pic (List.mem_append_right _ mem)
  obtain ⟨own, owns⟩ := candidate?_of_fits atOwn fits
  have flags := reads_many (d := choice) fun c mem => choice_reads (inferred c mem)
  rw [count] at flags
  refine ⟨_, predict_predicts ordered count negatives positives owns, ?_⟩
  unfold predicted
  rw [predictedItems, Item.allBits_append, List.append_assoc,
    eval_bind_ok ((shift_reads some small).eval _), eval_bind_ok (flags.eval rest), negatives,
    positives, owns]
  refine (eval_require_count _ _ _ rest).trans ?_
  rw [eval_require_count]
  rfl

/-- Wherever a cursor stands in front of a written prediction, reading takes what was written and
no more. It gives the prediction, of which there is only one, unless one of its sides is too long.
All sets of a sequence are movable (`Near.movable`). -/
theorem predicted_choices (ordered : reference.Ordered) (movable : reference.Movable shift)
    (some : 1 ≤ shift.natAbs) (small : shift.natAbs ≤ 2 ^ 15)
    (count : choices.length = reference.negative.length + reference.positive.length + 1)
    (inferred : ∀ c ∈ choices, c.used = true → c.kept = true) {c : Cursor} (place : c.bitPos < 8)
    {rest : List Bool} (ahead : c.bits = Item.allBits (predictedItems shift choices) ++ rest) :
    ∃ set c', reference.Predicts shift choices set
      ∧ (∀ other, reference.Predicts shift choices other → other = set) ∧ c'.bits = rest
      ∧ ((set.negative.length ≤ maxPicsPerSide ∧ set.positive.length ≤ maxPicsPerSide
          ∧ (predicted reference).run c = (.ok set, c'))
        ∨ ((maxPicsPerSide < set.negative.length ∨ maxPicsPerSide < set.positive.length)
          ∧ ∃ fault, (predicted reference).run c = (.error fault, c') ∧ fault.OfData)) := by
  obtain ⟨set, predicts, eval⟩ := eval_predicted ordered movable some small count inferred rest
  obtain ⟨c', ran, left, -⟩ := run_eq (predicted reference) place
  rw [ahead, eval] at ran left
  refine ⟨set, c', predicts, fun other predicts' => predicts'.unique predicts, ?_⟩
  by_cases fewNegative : set.negative.length ≤ maxPicsPerSide
  · rw [if_pos fewNegative] at ran left
    by_cases fewPositive : set.positive.length ≤ maxPicsPerSide
    · rw [if_pos fewPositive] at ran left
      exact ⟨left, .inl ⟨fewNegative, fewPositive, ran⟩⟩
    · rw [if_neg fewPositive] at ran left
      exact ⟨left, .inr ⟨.inr (Nat.lt_of_not_le fewPositive), _, ran, rfl, nofun⟩⟩
  · rw [if_neg fewNegative] at ran left
    exact ⟨left, .inr ⟨.inl (Nat.lt_of_not_le fewNegative), _, ran, rfl, nofun⟩⟩

/-- A set with pictures on both sides, to be moved forward: its nearest picture before the current
one comes to lie after it, the next one falls on it, and the last one stays before it. -/
def aroundCurrent : RefPicSet :=
  { negative := [⟨-1, true⟩, ⟨-3, true⟩, ⟨-5, true⟩], positive := [⟨2, false⟩] }

/-- All pictures are kept but the one that was current. -/
def aroundCurrentChoices : List Choice :=
  [⟨true, true⟩, ⟨true, true⟩, ⟨false, true⟩, ⟨true, true⟩, ⟨false, false⟩]

theorem predicted_choices_acrossCurrent :
    aroundCurrent.Ordered ∧ aroundCurrent.Movable 3
      ∧ (∀ c ∈ aroundCurrentChoices, c.used = true → c.kept = true)
      ∧ (Cursor.ofBytes .plain [0x3d, 0x9f]).bits
        = Item.allBits (predictedItems 3 aroundCurrentChoices) ++ List.replicate 5 true
      ∧ aroundCurrent.Predicts 3 aroundCurrentChoices ⟨[⟨-2, false⟩], [⟨2, true⟩, ⟨5, true⟩]⟩
      ∧ ∃ c', c'.bits = List.replicate 5 true
        ∧ (predicted aroundCurrent).run (.ofBytes .plain [0x3d, 0x9f])
          = (.ok ⟨[⟨-2, false⟩], [⟨2, true⟩, ⟨5, true⟩]⟩, c') := by
  have ordered : aroundCurrent.Ordered := ⟨by decide, by decide, by decide, by decide⟩
  have near : aroundCurrent.Near (limitAt 0) := ⟨by decide, by decide, by decide, by decide⟩
  have movable : aroundCurrent.Movable 3 := near.movable (by decide) (by decide)
  have inferred : ∀ c ∈ aroundCurrentChoices, c.used = true → c.kept = true := by decide
  have ahead : (Cursor.ofBytes .plain [0x3d, 0x9f]).bits
      = Item.allBits (predictedItems 3 aroundCurrentChoices) ++ List.replicate 5 true := by
    decide
  have read : ((predicted aroundCurrent).run (.ofBytes .plain [0x3d, 0x9f])).1
      = .ok ⟨[⟨-2, false⟩], [⟨2, true⟩, ⟨5, true⟩]⟩ := rfl
  obtain ⟨set, c', predicts, -, left, result⟩ :=
    predicted_choices ordered movable (by decide) (by decide) rfl inferred (by decide) ahead
  rcases result with ⟨-, -, ran⟩ | ⟨-, fault, ran, -⟩
  · rw [ran] at read
    obtain rfl := Except.ok.inj read
    exact ⟨ordered, movable, inferred, ahead, predicts, c', left, ran⟩
  · rw [ran] at read
    exact absurd read (by simp)

end RefPicSet

end Hevc
