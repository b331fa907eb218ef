import Hevc.Proofs.ParameterSet.RefPicBounds

/-!
# Order of reference picture sets

The pictures of a set before the current one, and those after it, are listed by their distance, the
nearest first. An explicit set is in order because every picture is coded by its distance from the
one before it. A prediction moves an earlier set along: the pictures, and the place of the earlier
current picture between them, keep their order, and choosing from them in that order or in the
opposite one gives the two sides of the new set.

* `explicit_ordered`, `predicted_ordered` — one set, with an earlier one in order
* `Timeline.pairwise`, `Timeline.predict_ordered` — what a prediction chooses from, and its choice
* `all_ordered` — every set of a sequence, with the bounds of its place
-/

namespace Hevc

open Decoder

namespace RefPicSet

/-- Both sides of a set are in order: each picture lies further from the current one than the
picture in front of it, on its own side. -/
structure Ordered (set : RefPicSet) : Prop where
  negative : set.negative.Pairwise (·.delta > ·.delta)
  positive : set.positive.Pairwise (·.delta < ·.delta)
  before : ∀ pic ∈ set.negative, pic.delta < 0
  after : ∀ pic ∈ set.positive, 0 < pic.delta

/-! ## Explicit sets -/

/-- The pictures of one side, in the direction of `sign`, the nearest first. -/
structure Receding (sign : Int) (pics : List RefPic) : Prop where
  apart : pics.Pairwise fun p q => sign * p.delta < sign * q.delta
  ahead : ∀ pic ∈ pics, 0 < sign * pic.delta

theorem sideFrom_receding (element : Element) {sign : Int} (unit : sign = 1 ∨ sign = -1)
    {distance : Int} {got : List RefPic} (before : Receding sign got.reverse)
    (reached : ∀ pic ∈ got, sign * pic.delta ≤ sign * distance) (front : 0 ≤ sign * distance)
    (count : Nat) : (sideFrom element sign distance got count).Ensures (Receding sign) := by
  induction count generalizing distance got with
  | zero => exact before
  | succ count ih =>
    unfold sideFrom
    refine .bind_any fun value => .bind_any fun _ => .bind (.checked _) fun moved found => ?_
    obtain rfl := Word.signed?_eq_some found
    refine .bind_any fun used => ?_
    -- whatever the sign is, the picture lies `value + 1` further than the one before it
    have further : sign * (distance + sign * (value + 1)) = sign * distance + (value + 1) := by
      rcases unit with rfl | rfl <;> omega
    refine ih ⟨?_, ?_⟩ ?_ ?_
    · rw [List.reverse_cons, List.pairwise_append]
      refine ⟨before.apart, List.pairwise_singleton _ _, ?_⟩
      intro p mem q last
      have near := reached p (List.mem_reverse.mp mem)
      rw [List.mem_singleton.mp last, further]
      omega
    · intro pic mem
      simp only [List.reverse_cons, List.mem_append, List.mem_singleton] at mem
      rcases mem with old | rfl
      · exact before.ahead pic old
      · rw [further]
        omega
    · intro pic mem
      rcases List.mem_cons.mp mem with rfl | old
      · exact Int.le_refl _
      · have near := reached pic old
        rw [further]
        omega
    · rw [further]
      omega

theorem side_receding (element : Element) {sign : Int} (unit : sign = 1 ∨ sign = -1)
    (count : Nat) : (side element sign count).Ensures (Receding sign) := by
  refine sideFrom_receding element unit ⟨.nil, ?_⟩ ?_ ?_ count
  · simp
  · simp
  · simp

theorem explicit_ordered : explicit.Ensures Ordered := by
  refine .bind_any fun negativeCount => .bind_any fun positiveCount => ?_
  refine .bind (side_receding _ (.inr rfl) _) fun negative onNegative => ?_
  refine .bind (side_receding _ (.inl rfl) _) fun positive onPositive => ?_
  refine .pure ⟨?_, ?_, ?_, ?_⟩
  · exact onNegative.apart.imp fun h => by omega
  · exact onPositive.apart.imp fun h => by omega
  · intro pic mem
    have ahead := onNegative.ahead pic mem
    omega
  · intro pic mem
    have ahead := onPositive.ahead pic mem
    omega

/-! ## Moved pictures -/

variable {shift : Int} {choices : List Choice}

/-- A picture of an earlier set, given by its distance, moved along with its flags. -/
def Candidate.moved (shift : Int) (source : Int × Choice) : Candidate :=
  { pic := { delta := source.1 + shift, used := source.2.used }, kept := source.2.kept }

theorem candidate?_eq_some {place : Nat} {delta : Int} {c : Candidate}
    (h : candidate? shift choices place delta = some c) :
    ∃ choice, choices[place]? = some choice ∧ c = .moved shift (delta, choice) := by
  unfold candidate? at h
  obtain ⟨choice, there, h⟩ := Option.bind_eq_some_iff.mp h
  obtain ⟨moved, found, h⟩ := Option.bind_eq_some_iff.mp h
  obtain rfl := Word.signed?_eq_some found
  exact ⟨choice, there, (Option.some.inj h).symm⟩

theorem mapM_eq_some {α β : Type} {f : α → Option β} {xs : List α} {ys : List β}
    (h : xs.mapM f = some ys) : ys.length = xs.length ∧ ∀ i : Nat, ys[i]? = xs[i]?.bind f := by
  induction xs generalizing ys with
  | nil =>
    obtain rfl : [] = ys := Option.some.inj h
    exact ⟨rfl, fun _ => rfl⟩
  | cons x rest ih =>
    rw [List.mapM_cons] at h
    obtain ⟨y, first, h⟩ := Option.bind_eq_some_iff.mp h
    obtain ⟨others, found, h⟩ := Option.bind_eq_some_iff.mp h
    obtain rfl := Option.some.inj h
    obtain ⟨length, each⟩ := ih found
    refine ⟨by simp [length], fun i => ?_⟩
    cases i with
    | zero => exact first.symm
    | succ i => exact each i

/-- The candidates of one side are its pictures, moved along, with the flags from their place on. -/
theorem candidates?_eq_some {first : Nat} {pics : List RefPic} {cs : List Candidate}
    (h : candidates? shift choices first pics = some cs) :
    cs.length = pics.length
      ∧ cs = ((pics.map (·.delta)).zip (choices.drop first)).map (.moved shift) := by
  obtain ⟨length, each⟩ := mapM_eq_some h
  rw [List.length_range] at length
  refine ⟨length, List.ext_getElem? fun i => ?_⟩
  rw [List.getElem?_map]
  by_cases inside : i < pics.length
  · have found := each i
    rw [List.getElem?_range inside, List.getElem?_eq_getElem (by omega), Option.bind_some,
      List.getElem?_eq_getElem inside] at found
    obtain ⟨choice, there, same⟩ := candidate?_eq_some found.symm
    have source : ((pics.map (·.delta)).zip (choices.drop first))[i]?
        = some (pics[i].delta, choice) := by
      rw [List.getElem?_zip_eq_some, List.getElem?_map, List.getElem?_eq_getElem inside,
        List.getElem?_drop]
      exact ⟨rfl, there⟩
    rw [List.getElem?_eq_getElem (by omega), source, same]
    rfl
  · have short : ((pics.map (·.delta)).zip (choices.drop first)).length ≤ i := by
      rw [List.length_zip, List.length_map]
      omega
    rw [List.getElem?_eq_none (by omega), List.getElem?_eq_none short]
    rfl

theorem deltas_of_candidates? {first : Nat} {pics : List RefPic} {cs : List Candidate}
    (h : candidates? shift choices first pics = some cs) :
    cs.map (·.pic.delta) = pics.map (·.delta + shift) := by
  obtain ⟨length, same⟩ := candidates?_eq_some h
  have enough : (pics.map (·.delta)).length ≤ (choices.drop first).length := by
    rw [same] at length
    simp only [List.length_map, List.length_zip] at length ⊢
    omega
  have sources := congrArg (List.map (· + shift)) (List.map_fst_zip enough)
  rw [same, List.map_map]
  simpa [Function.comp_def, Candidate.moved] using sources

/-! ## Predicted sets -/

/-- Moved pictures lie in order around the place of the earlier current picture. -/
structure Timeline (negative positive : List Candidate) (own : Candidate) : Prop where
  downward : negative.Pairwise (·.pic.delta > ·.pic.delta)
  upward : positive.Pairwise (·.pic.delta < ·.pic.delta)
  before : ∀ c ∈ negative, c.pic.delta < own.pic.delta
  after : ∀ c ∈ positive, own.pic.delta < c.pic.delta

namespace Timeline

variable {negative positive : List Candidate} {own : Candidate}

/-- Moving a set along keeps its order. -/
theorem of_moved {reference : RefPicSet} (ordered : reference.Ordered)
    (negatives : negative.map (·.pic.delta) = reference.negative.map (·.delta + shift))
    (positives : positive.map (·.pic.delta) = reference.positive.map (·.delta + shift))
    (place : own.pic.delta = shift) : Timeline negative positive own := by
  refine ⟨?_, ?_, fun c mem => ?_, fun c mem => ?_⟩
  · rw [← List.pairwise_map (f := fun c : Candidate => c.pic.delta) (R := (· > ·)), negatives,
      List.pairwise_map]
    exact ordered.negative.imp fun h => by omega
  · rw [← List.pairwise_map (f := fun c : Candidate => c.pic.delta) (R := (· < ·)), positives,
      List.pairwise_map]
    exact ordered.positive.imp fun h => by omega
  · have moved := List.mem_map_of_mem (f := fun c : Candidate => c.pic.delta) mem
    rw [negatives] at moved
    obtain ⟨pic, old, same⟩ := List.mem_map.mp moved
    have side := ordered.before pic old
    omega
  · have moved := List.mem_map_of_mem (f := fun c : Candidate => c.pic.delta) mem
    rw [positives] at moved
    obtain ⟨pic, old, same⟩ := List.mem_map.mp moved
    have side := ordered.after pic old
    omega

theorem pairwise (h : Timeline negative positive own) :
    (positive.reverse ++ [own] ++ negative).Pairwise (·.pic.delta > ·.pic.delta) := by
  simp only [List.pairwise_append, List.pairwise_reverse, List.mem_append, List.mem_reverse,
    List.mem_singleton]
  refine ⟨⟨h.upward, List.pairwise_singleton _ _, ?_⟩, h.downward, ?_⟩
  · rintro c mem _ rfl
    exact h.after c mem
  · rintro c (mem | rfl) d mem'
    · exact Int.lt_trans (h.before d mem') (h.after c mem)
    · exact h.before d mem'

/-- The near side of a prediction is chosen from what was moved in falling order, the far side in
rising order, whichever side the pictures came from. -/
theorem predict_ordered (h : Timeline negative positive own) :
    (predict negative positive own).Ordered := by
  have rising : (negative.reverse ++ [own] ++ positive).Pairwise (·.pic.delta < ·.pic.delta) := by
    have turned := List.pairwise_reverse.mpr h.pairwise
    simpa using turned
  refine ⟨?_, ?_, fun pic mem => ?_, fun pic mem => ?_⟩
  · exact List.pairwise_map.mpr (h.pairwise.filter _)
  · exact List.pairwise_map.mpr (rising.filter _)
  · obtain ⟨c, chosen, rfl⟩ := List.mem_map.mp mem
    have side := (List.mem_filter.mp chosen).2
    simp only [Bool.and_eq_true, decide_eq_true_eq] at side
    exact side.1
  · obtain ⟨c, chosen, rfl⟩ := List.mem_map.mp mem
    have side := (List.mem_filter.mp chosen).2
    simp only [Bool.and_eq_true, decide_eq_true_eq] at side
    exact side.1

end Timeline

theorem predicted_ordered {reference : RefPicSet} (h : reference.Ordered) :
    (predicted reference).Ensures Ordered := by
  refine .bind_any fun shift => .bind_any fun choices => ?_
  refine .bind (.checked _) fun negative foundNegative => ?_
  refine .bind (.checked _) fun positive foundPositive => ?_
  refine .bind (.checked _) fun own foundOwn => ?_
  obtain ⟨choice, -, rfl⟩ := candidate?_eq_some foundOwn
  refine .bind_any fun _ => .bind_any fun _ => .pure (Timeline.predict_ordered ?_)
  exact .of_moved h (deltas_of_candidates? foundNegative) (deltas_of_candidates? foundPositive)
    (Int.zero_add shift)

/-! ## The sequence -/

theorem decoder_ordered {reference? : Option RefPicSet} (h : ∀ r ∈ reference?, r.Ordered) :
    (decoder reference?).Ensures Ordered := by
  cases reference? with
  | none => exact explicit_ordered
  | some reference =>
    refine .bind_any fun isPredicted => ?_
    cases isPredicted with
    | false => exact explicit_ordered
    | true => exact predicted_ordered (h reference rfl)

theorem allFrom_ordered {before : List RefPicSet} (h : ∀ set ∈ before, set.Ordered)
    (count : Nat) : (allFrom before count).Ensures fun sets => ∀ set ∈ sets, set.Ordered := by
  induction count generalizing before with
  | zero =>
    intro set mem
    exact h set (List.mem_reverse.mp mem)
  | succ count ih =>
    unfold allFrom
    refine .bind (decoder_ordered fun r mem => h r (List.mem_of_mem_head? mem)) ?_
    intro set ordered
    refine ih fun other mem => ?_
    rcases List.mem_cons.mp mem with rfl | old
    · exact ordered
    · exact h other old

/-- However the sets of a sequence are coded, each of them is in order, and has no more and no
further pictures than its place allows. -/
theorem all_ordered {count : Nat} (few : count ≤ maxSets) {c c' : Cursor}
    {sets : List RefPicSet} (read : (all count).run c = (.ok sets, c')) :
    sets.length = count
      ∧ ∀ (place : Nat) (set : RefPicSet), sets[place]? = some set →
          set.Ordered ∧ set.Near (limitAt place) := by
  obtain ⟨length, near⟩ := (all_safe few).ensures.of_run_eq read
  have ordered := (@allFrom_ordered [] (by simp) count).of_run_eq read
  refine ⟨length, fun place set found => ⟨?_, near place set found⟩⟩
  exact ordered set (List.mem_of_getElem? found)

/-- An explicit set, one that is moved forward across the current picture, one that is moved back
so that a picture falls on the current one, and an explicit set without pictures. -/
def mixedSets : List UInt8 := [0x6b, 0x45, 0x95, 0xbf, 0x2b]

theorem all_ordered_mixed :
    4 ≤ maxSets ∧ ∃ sets c', (all 4).run (.ofBytes .plain mixedSets) = (.ok sets, c')
      ∧ sets.map (·.negative.map (·.delta)) = [[-1, -3], [-1], [-1, -2], []]
      ∧ sets.map (·.positive.map (·.delta)) = [[2], [1, 2, 4], [3], []]
      ∧ ∀ (place : Nat) (set : RefPicSet), sets[place]? = some set →
          set.Ordered ∧ set.Near (limitAt place) := by
  have few : 4 ≤ maxSets := by decide
  have read : ((all 4).run (.ofBytes .plain mixedSets)).1
      = .ok [⟨[⟨-1, true⟩, ⟨-3, false⟩], [⟨2, true⟩]⟩,
          ⟨[⟨-1, false⟩], [⟨1, true⟩, ⟨2, false⟩, ⟨4, true⟩]⟩,
          ⟨[⟨-1, false⟩, ⟨-2, true⟩], [⟨3, true⟩]⟩, ⟨[], []⟩] := rfl
  exact ⟨few, _, _, Prod.ext read rfl, rfl, rfl, (all_ordered few (Prod.ext read rfl)).2⟩

end RefPicSet

end Hevc
