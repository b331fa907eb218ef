import Hevc.Proofs.Delimited
import Mathlib.Data.List.DropRight

/-!
# Cutting a stream at its start codes

The units of a stream, said without walking over it: the stream is cut at every place where a start
code begins, and of what stands between the places the zero bytes at the end are left away.

* `Stream.pieces_cons`, `Stream.pieces_startCode` — the pieces of a stream and those of its rest
* `Stream.splits` — one step of the splitting takes one piece
* `Stream.unitsFrom_pieces`, `Stream.flatMap_pieces` — all of them take all, and nothing is lost
* `Stream.units_exact` — the units are what is left of the pieces, and units that are joined by
  start codes are found again
-/

namespace Hevc.Stream

/-! ## Places -/

/-- The places where a start code begins. -/
def places (data : List UInt8) : List Nat :=
  (List.range data.length).filter fun place => startCode <+: data.drop place

/-- Where a stream is cut: at every start code, and at its end. -/
def cuts (data : List UInt8) : List Nat := places data ++ [data.length]

/-- The bytes behind the start code at one place, up to another place. -/
def between (data : List UInt8) (start stop : Nat) : List UInt8 :=
  (data.take stop).drop (start + startCode.length)

/-- The bytes between each cut and the next. -/
def pieces (data : List UInt8) : List (List UInt8) :=
  List.zipWith (between data) (cuts data) (cuts data).tail

theorem places_cons (b : UInt8) (rest : List UInt8) :
    places (b :: rest)
      = (if startCode <+: b :: rest then [0] else []) ++ (places rest).map (· + 1) := by
  unfold places
  rw [List.length_cons, List.range_succ_eq_map, List.filter_cons, List.filter_map]
  simp only [List.drop_zero, decide_eq_true_eq]
  split <;> rfl

theorem places_of_not_front {b : UInt8} {rest : List UInt8} (h : ¬startCode <+: b :: rest) :
    places (b :: rest) = (places rest).map (· + 1) := by
  rw [places_cons, if_neg h, List.nil_append]

theorem cuts_of_not_front {b : UInt8} {rest : List UInt8} (h : ¬startCode <+: b :: rest) :
    cuts (b :: rest) = (cuts rest).map (· + 1) := by
  rw [cuts, cuts, places_of_not_front h, List.map_append]
  rfl

/-- No start code begins inside another. -/
theorem cuts_startCode (rest : List UInt8) :
    cuts (startCode ++ rest) = 0 :: (cuts rest).map (· + startCode.length) := by
  have first : startCode <+: 0 :: 0 :: 1 :: rest := List.prefix_append startCode rest
  have second : ¬startCode <+: 0 :: 1 :: rest := by simp [startCode, List.cons_prefix_cons]
  have third : ¬startCode <+: 1 :: rest := by simp [startCode, List.cons_prefix_cons]
  show places (0 :: 0 :: 1 :: rest) ++ [(0 :: 0 :: 1 :: rest).length] = _
  rw [places_cons, if_pos first, places_of_not_front second, places_of_not_front third, cuts,
    List.map_append, List.map_map, List.map_map]
  rfl

/-- A stream is broken at the first cut. -/
theorem breakAtCode_cut (data : List UInt8) :
    ∃ first others, cuts data = first :: others ∧ (breakAtCode data).1 = data.take first := by
  induction data with
  | nil => exact ⟨0, [], rfl, rfl⟩
  | cons b rest ih =>
    by_cases h : startCode <+: b :: rest
    · obtain ⟨behind, whole⟩ := h
      rw [← whole, cuts_startCode, breakAtCode_of_front (List.prefix_append _ _)]
      exact ⟨0, _, rfl, rfl⟩
    · obtain ⟨first, others, found, front⟩ := ih
      rw [cuts_of_not_front h, breakAtCode_cons h, found, front]
      exact ⟨first + 1, others.map (· + 1), rfl, rfl⟩

/-! ## Pieces -/

theorem between_append (front rest : List UInt8) (start stop : Nat) :
    between (front ++ rest) (start + front.length) (stop + front.length)
      = between rest start stop := by
  unfold between
  rw [Nat.add_comm stop, List.take_length_add_append, Nat.add_comm start, Nat.add_assoc,
    List.drop_length_add_append]

/-- What is put in front of a stream moves its pieces. -/
theorem zipWith_between_append (front rest : List UInt8) :
    List.zipWith (between (front ++ rest)) ((cuts rest).map (· + front.length))
        ((cuts rest).tail.map (· + front.length))
      = pieces rest := by
  rw [List.zipWith_map]
  simp only [between_append]
  rfl

theorem pieces_cons {b : UInt8} {rest : List UInt8} (h : ¬startCode <+: b :: rest) :
    pieces (b :: rest) = pieces rest := by
  rw [pieces, cuts_of_not_front h, ← List.map_tail]
  exact zipWith_between_append [b] rest

theorem pieces_startCode (rest : List UInt8) :
    pieces (startCode ++ rest) = (breakAtCode rest).1 :: pieces rest := by
  obtain ⟨first, others, found, front⟩ := breakAtCode_cut rest
  have moved := zipWith_between_append startCode rest
  have head : between (startCode ++ rest) 0 (first + startCode.length) = rest.take first := by
    unfold between
    rw [Nat.add_comm first, List.take_length_add_append, Nat.zero_add, List.drop_left]
  rw [pieces, cuts_startCode, List.tail_cons, front, ← head, ← moved, found]
  rfl

theorem pieces_breakAtCode (data : List UInt8) : pieces (breakAtCode data).2 = pieces data := by
  induction data with
  | nil => rfl
  | cons b rest ih =>
    by_cases h : startCode <+: b :: rest
    · rw [breakAtCode_of_front h]
    · rw [breakAtCode_cons h, pieces_cons h, ih]

/-! ## The splitting -/

/-- One step of the splitting: there is no piece, or the first one is taken, and the stream goes on
with the next start code. -/
inductive Splits (data : List UInt8) : Prop where
  | none (next : nextUnit? data = none) (pieces : pieces data = [])
      (behind : (breakAtCode data).2 = [])
  | some {piece rest : List UInt8} (next : nextUnit? data = some (trimZeros piece, rest))
      (pieces : Stream.pieces data = piece :: Stream.pieces rest)
      (behind : (breakAtCode data).2 = startCode ++ (piece ++ rest))
      (front : (breakAtCode rest).2 = rest)

theorem splits (data : List UInt8) : Splits data := by
  cases found : (breakAtCode data).2 with
  | nil =>
    refine .none ?_ ?_ found
    · rw [nextUnit?, found]
    · rw [← pieces_breakAtCode, found]
      rfl
  | cons b code =>
    have front : startCode <+: (breakAtCode data).2 :=
      startCode_prefix_breakAtCodeFrom [] data (by rw [← breakAtCode, found]; simp)
    obtain ⟨behind, whole⟩ := front
    refine @Splits.some data (breakAtCode behind).1 (breakAtCode behind).2 ?_ ?_ ?_
      (breakAtCode_snd_snd behind)
    · rw [nextUnit?, ← whole]
      rfl
    · rw [← pieces_breakAtCode data, ← whole, pieces_startCode, pieces_breakAtCode]
    · rw [← whole, breakAtCode_join]

/-- What is left of the pieces without the zero bytes at their ends, if anything is. -/
def trimmed (parts : List (List UInt8)) : List (List UInt8) :=
  (parts.map (List.rdropWhile (· = 0))).filter (· ≠ [])

theorem trimmed_cons (part : List UInt8) (parts : List (List UInt8)) :
    trimmed (part :: parts)
      = if (trimZeros part).isEmpty then trimmed parts else trimZeros part :: trimmed parts := by
  have same : List.rdropWhile (· = 0) part = trimZeros part := rfl
  rw [trimmed, List.map_cons, same, List.filter_cons]
  cases trimZeros part <;> rfl

theorem unitsFrom_pieces (found : List (List UInt8)) (data : List UInt8) :
    unitsFrom found data = found.reverse ++ trimmed (pieces data) := by
  induction found, data using unitsFrom.induct with
  | case1 found data last =>
    rcases splits data with ⟨-, pieces, -⟩ | ⟨next, -, -, -⟩
    · rw [unitsFrom_of_none last, pieces]
      exact (List.append_nil _).symm
    · exact absurd (last.symm.trans next) (by simp)
  | case2 found data unit rest next ih =>
    rcases splits data with ⟨last, -, -⟩ | ⟨next', pieces, -, -⟩
    · exact absurd (next.symm.trans last) (by simp)
    · obtain ⟨rfl, rfl⟩ := Prod.mk.inj (Option.some.inj (next.symm.trans next'))
      rw [unitsFrom_of_some next, pieces, trimmed_cons]
      split at ih
      · next empty => rw [if_pos empty, if_pos empty, ih]
      · next some => rw [if_neg some, if_neg some, ih, List.reverse_cons, List.append_assoc]; rfl

/-- Nothing is lost but what is in front of the first start code. -/
theorem flatMap_pieces (data : List UInt8) :
    (pieces data).flatMap (startCode ++ ·) = (breakAtCode data).2 := by
  rcases splits data with ⟨-, pieces, behind⟩ | ⟨next, pieces, behind, front⟩
  · rw [pieces, behind]
    rfl
  · rw [pieces, behind, List.flatMap_cons, flatMap_pieces, front, List.append_assoc]
termination_by data.length
decreasing_by exact length_nextUnit? next

/-- A unit behind a start code, and zero bytes behind the unit. -/
def block (part : List UInt8 × Nat) : List UInt8 :=
  startCode ++ (part.1 ++ List.replicate part.2 0)

/-- A piece is what is left of it and zero bytes. -/
theorem exists_block (piece : List UInt8) :
    ∃ zeros, block (List.rdropWhile (· = 0) piece, zeros) = startCode ++ piece := by
  refine ⟨(List.rtakeWhile (· = 0) piece).length, ?_⟩
  have zeros : ∀ b ∈ List.rtakeWhile (· = 0) piece, b = 0 := by
    intro b mem
    have passes := List.mem_rtakeWhile_imp mem
    exact of_decide_eq_true passes
  rw [block, ← List.eq_replicate_of_mem zeros, List.rdropWhile_append_rtakeWhile]

theorem exists_blocks (parts : List (List UInt8)) :
    ∃ blocks : List (List UInt8 × Nat), blocks.flatMap block = parts.flatMap (startCode ++ ·)
      ∧ blocks.map (·.1) = parts.map (List.rdropWhile (· = 0)) := by
  induction parts with
  | nil => exact ⟨[], rfl, rfl⟩
  | cons part parts ih =>
    obtain ⟨zeros, whole⟩ := exists_block part
    obtain ⟨blocks, others, units⟩ := ih
    refine ⟨(List.rdropWhile (· = 0) part, zeros) :: blocks, ?_, ?_⟩
    · rw [List.flatMap_cons, List.flatMap_cons, whole, others]
    · rw [List.map_cons, List.map_cons, units]

/-- A stream is cut at every start code; its units are the pieces without the zero bytes at their
ends, as far as anything is left of them, and only these zero bytes, the start codes and what is in
front of them are lost. Each step takes a start code at least. Units that are joined by start codes
of any length, with zero bytes at the end, are found again. -/
theorem units_exact :
    (∀ data, Stream.units data
        = ((pieces data).map (List.rdropWhile (· = 0))).filter (· ≠ []))
      ∧ (∀ data, ∀ unit ∈ Stream.units data, IsUnit unit)
      ∧ (∀ data, ∃ (garbage : List UInt8) (blocks : List (List UInt8 × Nat)),
          ¬startCode <:+: garbage
          ∧ data = garbage ++ blocks.flatMap block
          ∧ Stream.units data = (blocks.map (·.1)).filter (· ≠ []))
      ∧ (∀ data, ∀ step ∈ nextUnit? data, step.2.length + startCode.length ≤ data.length)
      ∧ ∀ parts trailing, (∀ part ∈ parts, IsCode part.1 ∧ IsUnit part.2) →
          Stream.units (delimited parts ++ List.replicate trailing 0) = parts.map (·.2) := by
  have cut : ∀ data, Stream.units data
      = ((pieces data).map (List.rdropWhile (· = 0))).filter (· ≠ []) := unitsFrom_pieces []
  refine ⟨cut, fun data unit mem => isUnit_of_mem mem, fun data => ?_, ?_, ?_⟩
  · obtain ⟨blocks, whole, units⟩ := exists_blocks (pieces data)
    refine ⟨(breakAtCode data).1, blocks, codeFree_breakAtCode data, ?_, ?_⟩
    · rw [whole, flatMap_pieces, breakAtCode_join]
    · rw [cut, units]
  · rintro data ⟨unit, rest⟩ next
    have inside := nextUnit?_inside next
    show rest.length + startCode.length ≤ data.length
    omega
  · intro parts trailing usual
    exact units_delimited_zeros (fun part mem => (usual part mem).1)
      (fun part mem => (usual part mem).2) trailing

/-- A unit behind a code of three bytes and one behind a code of six, the second with zero bytes
inside it, and three zero bytes at the end. -/
theorem units_exact_longCode :
    (∀ part ∈ [([0, 0, 1], [0x40, 1]), ([0, 0, 0, 0, 0, 1], [0, 0, 3, 1])],
        IsCode part.1 ∧ IsUnit part.2)
      ∧ Stream.units (delimited [([0, 0, 1], [0x40, 1]), ([0, 0, 0, 0, 0, 1], [0, 0, 3, 1])]
          ++ List.replicate 3 0) = [[0x40, 1], [0, 0, 3, 1]] := by
  have usual : ∀ part ∈ [([0, 0, 1], [0x40, 1]), ([0, 0, 0, 0, 0, 1], [0, 0, 3, 1])],
      IsCode part.1 ∧ IsUnit part.2 := by
    intro part mem
    simp only [List.mem_cons, List.not_mem_nil, or_false] at mem
    rcases mem with rfl | rfl
    · exact ⟨⟨2, by decide, rfl⟩, ⟨by decide, by decide, by decide⟩⟩
    · exact ⟨⟨5, by decide, rfl⟩, ⟨by decide, by decide, by decide⟩⟩
  exact ⟨usual, units_exact.2.2.2.2 _ 3 usual⟩

end Hevc.Stream
