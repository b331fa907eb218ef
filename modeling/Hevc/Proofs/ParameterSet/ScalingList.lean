import Hevc.Proofs.Reads
import Hevc.Written.Sps

/-!
# Round trip of scaling lists

Every list is written by its differences. A factor is read as the one before it and the
difference, modulo 256.

* `ScalingList.coded_reads` — one list is read back from its differences
* `ScalingLists.decoder_reads` — the lists of all sizes are read back from their written form
* `ScalingLists.decoder_ensures` — whatever lists are read, they have as many factors as their sizes
-/

namespace Hevc

open Decoder

namespace ScalingList

/-! ## Factors -/

/-- A difference leads from one factor to the next. -/
theorem factor_step {next : Nat} (factor : Int) (h : next < 256) :
    (factor + (next - factor).bmod 256) % 256 = next := by
  rw [Int.bmod]
  split <;> omega

theorem factorsFrom_reads {factors : List Nat} (got : List Nat) {factor : Int}
    (start : 0 ≤ factor ∧ factor < 256) (h : ∀ f ∈ factors, f < 256) :
    (factorsFrom factor got factors.length).Reads (differences factor factors)
      (got.reverse ++ factors) := by
  induction factors generalizing got factor with
  | nil =>
    rw [List.append_nil]
    exact reads_pure got.reverse
  | cons next rest ih =>
    have small : next < 256 := h next List.mem_cons_self
    have low : -128 ≤ ((next : Int) - factor).bmod 256 := Int.le_bmod (by decide)
    have high : ((next : Int) - factor).bmod 256 < 128 := Int.bmod_lt (by decide)
    have step := factor_step factor small
    have inside : Word.signed? 63 (factor + ((next : Int) - factor).bmod 256)
        = some (factor + ((next : Int) - factor).bmod 256) :=
      Word.signed?_of_natAbs_lt (by omega)
    have others := @ih (next :: got) (next : Int) (by omega)
      fun f mem => h f (List.mem_cons_of_mem _ mem)
    refine (reads_se (by omega)).cons ?_
    refine (reads_checked inside).step ?_
    rw [List.reverse_cons, List.append_assoc] at others
    rw [step]
    exact others

/-! ## Lists -/

/-- A list of a size: its factors fill a byte, and it has a constant component where the size
codes one. -/
structure Coded (sizeId : Nat) (l : ScalingList) : Prop where
  length : l.factors.length = factorCount sizeId
  factors : ∀ f ∈ l.factors, f < 256
  dcPresent : l.dc.isSome = hasDc sizeId
  dc : ∀ dc ∈ l.dc, 1 ≤ dc ∧ dc < 256

theorem dcFactor_reads {dc : Nat} (h : 1 ≤ dc ∧ dc < 256) :
    dcFactor.Reads [.se (dc - 8)] (Int.ofNat dc) := by
  refine (reads_se (by omega)).cons ?_
  refine (reads_require (by omega)).then ?_
  have inside : Word.signed? 63 ((dc : Int) - 8 + 8) = some (dc : Int) := by
    rw [Int.sub_add_cancel]
    exact Word.signed?_of_natAbs_lt (by omega)
  exact reads_checked inside

theorem coded_reads {sizeId : Nat} {l : ScalingList} (h : l.Coded sizeId) :
    (coded sizeId).Reads
      (Item.present (fun (dc : Nat) => [.se (dc - 8)]) l.dc
        ++ differences ((l.dc.map Int.ofNat).getD startFactor) l.factors) l := by
  have start : 0 ≤ (l.dc.map Int.ofNat).getD startFactor
      ∧ (l.dc.map Int.ofNat).getD startFactor < 256 := by
    cases hd : l.dc with
    | none => decide
    | some dc => exact ⟨Int.natCast_nonneg dc, Int.ofNat_lt.mpr (h.dc dc hd).2⟩
  have same : (l.dc.map Int.ofNat).map Int.toNat = l.dc := by
    cases l.dc <;> rfl
  rw [coded, ← h.dcPresent, ← h.length]
  refine (reads_whenAs fun dc mem => dcFactor_reads (h.dc dc mem)).bind ?_
  rw [same]
  exact (factorsFrom_reads [] start h.factors).map

theorem decoder_reads {sizeId : Nat} {l : ScalingList} (before : List ScalingList)
    (h : l.Coded sizeId) : (decoder sizeId before).Reads l.items l :=
  (reads_flag true).cons (coded_reads h)

/-! ## The lists of one size -/

theorem ofSizeFrom_reads {sizeId : Nat} {ls : List ScalingList} (before : List ScalingList)
    (h : ∀ l ∈ ls, l.Coded sizeId) :
    (ofSizeFrom sizeId before ls.length).Reads (ls.flatMap items) (before.reverse ++ ls) := by
  induction ls generalizing before with
  | nil =>
    rw [List.append_nil]
    exact reads_pure before.reverse
  | cons l rest ih =>
    have others := ih (l :: before) fun other mem => h other (List.mem_cons_of_mem _ mem)
    rw [List.reverse_cons, List.append_assoc] at others
    exact (decoder_reads before (h l List.mem_cons_self)).bind others

/-- The lists of a size, one for each coded matrix. -/
structure SizeCoded (sizeId : Nat) (ls : List ScalingList) : Prop where
  length : ls.length = matrixCount sizeId
  coded : ∀ l ∈ ls, l.Coded sizeId

theorem ofSize_reads {sizeId : Nat} {ls : List ScalingList} (h : SizeCoded sizeId ls) :
    (ofSize sizeId).Reads (ls.flatMap items) ls := by
  rw [ofSize, ← h.length]
  exact ofSizeFrom_reads [] h.coded

end ScalingList

/-! ## All lists -/

namespace ScalingLists

open ScalingList

/-- The lists of the four sizes. -/
structure Coded (lists : ScalingLists) : Prop where
  length : lists.sizes.length = 4
  sizes : ∀ sizeId ls, lists.sizes[sizeId]? = some ls → SizeCoded sizeId ls

theorem decoder_reads {lists : ScalingLists} (h : lists.Coded) :
    decoder.Reads lists.items lists := by
  have ids : lists.sizes.zipIdx.map Prod.snd = [0, 1, 2, 3] := by
    rw [List.zipIdx_map_snd, h.length]
    rfl
  have sizes : lists.sizes.zipIdx.map Prod.fst = lists.sizes := List.zipIdx_map_fst _ _
  have all := reads_forEach fun x (mem : x ∈ lists.sizes.zipIdx) =>
    ofSize_reads (h.sizes x.2 x.1 (List.mem_zipIdx_iff_getElem?.mp mem))
  have written : lists.sizes.zipIdx.flatMap (fun x => x.1.flatMap ScalingList.items)
      = lists.items := by
    rw [items, ← List.flatMap_map Prod.fst, sizes]
  rw [ids, sizes, written] at all
  exact all.map

/-- Lists that have the same factor everywhere. -/
def flat : ScalingLists :=
  { sizes := (List.range 4).map fun sizeId =>
      List.replicate (matrixCount sizeId)
        { factors := List.replicate (factorCount sizeId) flatFactor
          dc := if hasDc sizeId then some flatFactor else none } }

theorem coded_flat : flat.Coded where
  length := by rw [flat, List.length_map, List.length_range]
  sizes := by
    intro sizeId ls h
    rw [flat, List.getElem?_map] at h
    obtain ⟨id, here, rfl⟩ := Option.map_eq_some_iff.mp h
    obtain ⟨bound, same⟩ := List.getElem?_eq_some_iff.mp here
    rw [List.getElem_range] at same
    subst same
    refine ⟨List.length_replicate, fun l mem => ?_⟩
    rw [List.eq_of_mem_replicate mem]
    refine ⟨List.length_replicate, fun f mem => ?_, ?_, fun dc mem => ?_⟩
    · rw [List.eq_of_mem_replicate mem]
      decide
    · cases hasDc sizeId <;> rfl
    · dsimp only at mem
      split at mem
      · obtain rfl := Option.some.inj mem
        decide
      · exact absurd mem (by simp)

end ScalingLists

/-! ## Whatever is read -/

namespace ScalingList

variable {sizeId : Nat}

theorem factorsFrom_ensures {factor : Int} {got : List Nat} (small : ∀ f ∈ got, f < 256)
    (count : Nat) :
    (factorsFrom factor got count).Ensures fun factors =>
      factors.length = got.length + count ∧ ∀ f ∈ factors, f < 256 := by
  induction count generalizing factor got with
  | zero => exact ⟨by simp, fun f mem => small f (List.mem_reverse.mp mem)⟩
  | succ count ih =>
    refine .bind_any fun difference => .bind_any fun sum => ?_
    refine (ih fun f mem => ?_).mono fun factors => ?_
    · rcases List.mem_cons.mp mem with rfl | mem
      · omega
      · exact small f mem
    · rintro ⟨length, all⟩
      exact ⟨by rw [length, List.length_cons]; omega, all⟩

theorem dcFactor_ensures : dcFactor.Ensures fun dc => 1 ≤ dc ∧ dc < 256 := by
  refine .bind_any fun n => .bind (.require _ _ _ _) fun _ range => ?_
  refine (Ensures.checked _).mono fun dc found => ?_
  rw [Word.signed?_eq_some found]
  omega

theorem coded_ensures (sizeId : Nat) : (coded sizeId).Ensures (Coded sizeId) := by
  have constant : (when (hasDc sizeId) dcFactor).Ensures fun dc =>
      dc.isSome = hasDc sizeId ∧ ∀ d ∈ dc, 1 ≤ d ∧ d < 256 := by
    cases hasDc sizeId with
    | false => exact ⟨rfl, nofun⟩
    | true =>
      refine .bind dcFactor_ensures fun dc range => .pure ⟨rfl, ?_⟩
      rintro d ⟨⟩
      exact range
  refine constant.bind fun dc known => ?_
  refine .bind (factorsFrom_ensures (by simp) _) fun factors sized => .pure ⟨?_, sized.2, ?_, ?_⟩
  · rw [sized.1, List.length_nil, Nat.zero_add]
  · rw [Option.isSome_map, known.1]
  · intro d mem
    obtain ⟨value, found, rfl⟩ := Option.map_eq_some_iff.mp mem
    have range := known.2 value found
    omega

theorem factorCount_of_pos (h : sizeId ≠ 0) : factorCount sizeId = 64 := by
  have power : 2 ^ 6 ≤ 2 ^ (4 + 2 * sizeId) := Nat.pow_le_pow_right (by decide) (by omega)
  rw [factorCount, Nat.one_shiftLeft]
  omega

theorem default_coded (sizeId matrixId : Nat) : (default sizeId matrixId).Coded sizeId := by
  have intra : defaultIntra.length = 64 ∧ ∀ f ∈ defaultIntra, f < 256 := by decide
  have flat : ∀ f ∈ List.replicate 16 flatFactor, f < 256 := by decide
  have inter : defaultInter.length = 64 ∧ ∀ f ∈ defaultInter, f < 256 := by decide
  have factors : (default sizeId matrixId).factors.length = factorCount sizeId
      ∧ ∀ f ∈ (default sizeId matrixId).factors, f < 256 := by
    by_cases smallest : sizeId = 0
    · subst smallest
      exact ⟨rfl, flat⟩
    · rw [factorCount_of_pos smallest, default, if_neg smallest]
      split
      · exact intra
      · exact inter
  refine ⟨factors.1, factors.2, ?_, fun dc mem => ?_⟩
  · unfold default
    cases hasDc sizeId <;> rfl
  · unfold default at mem
    cases has : hasDc sizeId with
    | false =>
      rw [has] at mem
      exact absurd mem (by simp)
    | true =>
      rw [has] at mem
      obtain rfl := Option.some.inj mem
      decide

theorem repeated_ensures {before : List ScalingList} (h : ∀ l ∈ before, l.Coded sizeId) :
    (repeated sizeId before).Ensures (Coded sizeId) := by
  refine .bind_any fun distance => .bind_any fun _ => ?_
  cases distance with
  | zero => exact .pure (default_coded sizeId _)
  | succ back =>
    exact (Ensures.checked _).mono fun l found => h l (List.mem_of_getElem? found)

theorem decoder_ensures {before : List ScalingList} (h : ∀ l ∈ before, l.Coded sizeId) :
    (decoder sizeId before).Ensures (Coded sizeId) := by
  refine .bind_any fun isCoded => ?_
  cases isCoded with
  | false => exact repeated_ensures h
  | true => exact coded_ensures sizeId

theorem ofSizeFrom_ensures {before : List ScalingList} (h : ∀ l ∈ before, l.Coded sizeId)
    (count : Nat) :
    (ofSizeFrom sizeId before count).Ensures fun ls =>
      ls.length = before.length + count ∧ ∀ l ∈ ls, l.Coded sizeId := by
  induction count generalizing before with
  | zero => exact ⟨by simp, fun l mem => h l (List.mem_reverse.mp mem)⟩
  | succ count ih =>
    refine .bind (decoder_ensures h) fun l coded => (ih fun other mem => ?_).mono fun ls => ?_
    · rcases List.mem_cons.mp mem with rfl | mem
      · exact coded
      · exact h other mem
    · rintro ⟨length, all⟩
      exact ⟨by rw [length, List.length_cons]; omega, all⟩

theorem ofSize_ensures (sizeId : Nat) : (ofSize sizeId).Ensures (SizeCoded sizeId) := by
  refine (ofSizeFrom_ensures (by simp) _).mono fun ls known => ⟨?_, known.2⟩
  rw [known.1, List.length_nil, Nat.zero_add]

end ScalingList

/-- Lists that were read have a factor for every place of their size, and a constant component where
the size has one. -/
theorem ScalingLists.decoder_ensures : ScalingLists.decoder.Ensures ScalingLists.Coded := by
  refine .bind (P := fun sizes => ScalingLists.Coded ⟨sizes⟩) ?_ fun sizes coded => .pure coded
  refine .bind (ScalingList.ofSize_ensures 0) fun ls₀ coded₀ => ?_
  refine .bind (ScalingList.ofSize_ensures 1) fun ls₁ coded₁ => ?_
  refine .bind (ScalingList.ofSize_ensures 2) fun ls₂ coded₂ => ?_
  refine .bind (ScalingList.ofSize_ensures 3) fun ls₃ coded₃ => .pure ⟨rfl, ?_⟩
  intro sizeId ls found
  match sizeId with
  | 0 => exact Option.some.inj found ▸ coded₀
  | 1 => exact Option.some.inj found ▸ coded₁
  | 2 => exact Option.some.inj found ▸ coded₂
  | 3 => exact Option.some.inj found ▸ coded₃
  | _ + 4 => exact absurd found (by simp)

end Hevc
