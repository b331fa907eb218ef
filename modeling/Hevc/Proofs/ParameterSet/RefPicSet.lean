import Hevc.Proofs.Reads
import Hevc.Written.Sps

/-!
# Round trip of reference pictures

Reference picture sets are written explicitly: each picture of a side by its distance from the one
before it, which the coded values have to grow by.

* `RefPicSet.explicit_reads` — one set is read back from its written form
* `RefPicSet.counted_reads`, `LongTermPic.all_reads` — all sets and all long-term candidates
-/

namespace Hevc

open Decoder

namespace RefPicSet

/-! ## One side -/

/-- The pictures of a side lie one behind the other in the direction of `sign`, the first behind
`distance`, and none is further from the one before it than can be coded. -/
def SideCoded (sign distance : Int) : List RefPic → Prop
  | [] => True
  | pic :: rest =>
    1 ≤ sign * (pic.delta - distance) ∧ sign * (pic.delta - distance) ≤ maxDeltaMinus1 + 1
      ∧ SideCoded sign pic.delta rest

/-- One coded distance leads to the next picture. -/
theorem distance_step {sign distance delta : Int} (unit : sign = 1 ∨ sign = -1)
    (ahead : 1 ≤ sign * (delta - distance)) :
    distance + sign * (((sign * (delta - distance) - 1).toNat : Nat) + 1) = delta := by
  rcases unit with rfl | rfl <;> omega

/-- The distances stay inside a machine word, since there are few pictures on a side. -/
theorem sideFrom_reads {element : Element} {sign : Int} (unit : sign = 1 ∨ sign = -1)
    {pics : List RefPic} (got : List RefPic) {distance : Int} (h : SideCoded sign distance pics)
    (near : distance.natAbs + pics.length * 2 ^ 15 < 2 ^ 63) :
    (sideFrom element sign distance got pics.length).Reads (sideItems sign distance pics)
      (got.reverse ++ pics) := by
  induction pics generalizing got distance with
  | nil =>
    rw [List.append_nil]
    exact reads_pure got.reverse
  | cons pic rest ih =>
    -- `near` leaves room for every picture to come, and this one uses its share
    obtain ⟨ahead, most, others⟩ := h
    have next := distance_step unit ahead
    rw [maxDeltaMinus1] at most
    rw [List.length_cons] at near
    have moved : pic.delta.natAbs ≤ distance.natAbs + 2 ^ 15 := by
      rcases unit with rfl | rfl <;> omega
    have inside : Word.signed? 63
        (distance + sign * (((sign * (pic.delta - distance) - 1).toNat : Nat) + 1))
          = some pic.delta := by
      rw [next]
      exact Word.signed?_of_natAbs_lt (by omega)
    refine .inRange (by rw [maxDeltaMinus1]; omega) (by decide) ?_
    refine (reads_checked inside).step ?_
    refine (reads_flag pic.used).cons ?_
    have all := ih (pic :: got) others (by omega)
    rwa [List.reverse_cons, List.append_assoc] at all

/-! ## Sets -/

/-- A set that can be written explicitly. -/
structure Coded (set : RefPicSet) : Prop where
  negativeCount : set.negative.length ≤ maxPicsPerSide
  positiveCount : set.positive.length ≤ maxPicsPerSide
  negative : SideCoded (-1) 0 set.negative
  positive : SideCoded 1 0 set.positive

theorem picCount_reads {element : Element} {count : Nat} (h : count ≤ maxPicsPerSide) :
    (picCount element).Reads [.ue count] count := by
  rw [maxPicsPerSide] at h
  exact .inRange (by rw [maxPicsPerSide]; omega) (by decide) (reads_pure count)

theorem side_reads {element : Element} {sign : Int} (unit : sign = 1 ∨ sign = -1)
    {pics : List RefPic} (h : SideCoded sign 0 pics) (few : pics.length ≤ maxPicsPerSide) :
    (side element sign pics.length).Reads (sideItems sign 0 pics) pics := by
  rw [maxPicsPerSide] at few
  exact sideFrom_reads unit [] h (by omega)

theorem explicit_reads {set : RefPicSet} (h : set.Coded) : explicit.Reads set.items set := by
  rw [items, List.append_assoc]
  refine (picCount_reads h.negativeCount).cons ?_
  refine (picCount_reads h.positiveCount).cons ?_
  refine (side_reads (.inr rfl) h.negative h.negativeCount).bind ?_
  exact (side_reads (.inl rfl) h.positive h.positiveCount).map

/-- The next set, after all of `before`. Only the first has no flag in front of it. -/
theorem decoder_reads {set : RefPicSet} (before : List RefPicSet) (h : set.Coded) :
    (decoder before.head?).Reads (set.itemsAt before.length) set := by
  cases before with
  | nil => exact explicit_reads h
  | cons last others =>
    rw [itemsAt, if_pos (by rw [List.length_cons]; omega)]
    exact (reads_flag false).cons (explicit_reads h)

theorem allFrom_reads {sets : List RefPicSet} (before : List RefPicSet)
    (h : ∀ set ∈ sets, set.Coded) :
    (allFrom before sets.length).Reads
      ((sets.zipIdx before.length).flatMap fun (set, place) => set.itemsAt place)
      (before.reverse ++ sets) := by
  induction sets generalizing before with
  | nil =>
    rw [List.append_nil]
    exact reads_pure before.reverse
  | cons set rest ih =>
    have others := ih (set :: before) fun other mem => h other (List.mem_cons_of_mem _ mem)
    rw [List.reverse_cons, List.append_assoc] at others
    exact (decoder_reads before (h set List.mem_cons_self)).bind others

theorem counted_reads {sets : List RefPicSet} (few : sets.length ≤ maxSets)
    (h : ∀ set ∈ sets, set.Coded) : counted.Reads (allItems sets) sets := by
  rw [maxSets] at few
  exact .inRange (by rw [maxSets]; omega) (by decide) (allFrom_reads [] h)

end RefPicSet

/-! ## Long-term candidates -/

namespace LongTermPic

/-- The most candidates. -/
def maxPics : Nat := 32

theorem decoder_reads {width : Nat} {pic : LongTermPic} (h : pic.pocLsb < 2 ^ width)
    (narrow : width ≤ 64) : (decoder width).Reads (pic.items width) pic := by
  refine (reads_bits h narrow).cons ?_
  exact (reads_flag pic.used).map

theorem all_reads {log2MaxPocLsbMinus4 : Nat} {pics : List LongTermPic}
    (few : pics.length ≤ maxPics)
    (h : ∀ pic ∈ pics, pic.pocLsb < 2 ^ pocBits log2MaxPocLsbMinus4) :
    (all log2MaxPocLsbMinus4).Reads (allItems log2MaxPocLsbMinus4 pics) pics := by
  have narrow : pocBits log2MaxPocLsbMinus4 ≤ 64 := by
    rw [pocBits]
    omega
  rw [maxPics] at few
  refine .inRange (by omega) (by decide) ?_
  exact reads_many fun pic mem => decoder_reads (h pic mem) narrow

end LongTermPic

end Hevc
