import Hevc.Proofs.NalUnit
import Hevc.Proofs.ParameterSet.ListCode

/-!
# What the matrices of a sequence are read from

The lists of all matrices are read one after another, each from its own code. The 64 places of every
matrix, and its constant component, follow from these codes: a list that is coded counts up its
differences, one that repeats another has all that the other has, and what is not coded is 0.

* `Decodes` — a decoder reads a code for each of some matrices, or it is refused at one of them
* `ScalingList.ofSizeFrom_decodes`, `ScalingLists.decoder_decodes` — the matrices of a size, and all
* `ScalingLists.means_of_given`, `ScalingLists.filled_of_coded` — the places of a matrix whose code
  is known, and those that no code has to do with
* `ScalingLists.matrices_of_run` — the places of all matrices, or why there are none
-/

namespace Hevc

open Decoder ScalingList

/-! ## Codes of several matrices -/

/-- Whatever is read, it is read from the codes of some matrices in a row, and `gives` tells what
they stand for. Bits are refused at one of the matrices, behind the codes of those before it. -/
structure Decodes {α : Type} (d : Decoder α) (matrices : List (Nat × Nat))
    (gives : List MatrixCode → α → Prop) : Prop where
  taken : ∀ {bits left : List Bool} {value : α}, d.eval bits = (.ok value, left) →
    ∃ codes : List MatrixCode, codes.map MatrixCode.matrix = matrices
      ∧ bits = Item.allBits (codes.flatMap MatrixCode.items) ++ left ∧ gives codes value
  refused : ∀ {bits left : List Bool} {fault : Fault}, d.eval bits = (.error fault, left) →
    ∃ (codes : List MatrixCode) (matrix : Nat × Nat) (behind : List Bool),
      codes.map MatrixCode.matrix ++ [matrix] <+: matrices
        ∧ bits = Item.allBits (codes.flatMap MatrixCode.items) ++ behind
        ∧ ListCode.Refused matrix.1 (matrix.2 / matrixStep matrix.1) behind left fault

namespace Decodes

variable {α β : Type} {d : Decoder α} {matrices others : List (Nat × Nat)}
  {gives : List MatrixCode → α → Prop}

theorem pure {value : α} (h : gives [] value) : Decodes (Pure.pure value) [] gives := by
  refine ⟨fun eval => ?_, fun eval => absurd eval (by simp [Pure.pure, Decoder.eval])⟩
  obtain ⟨same, rfl⟩ := Prod.mk.inj eval
  obtain rfl := Except.ok.inj same
  exact ⟨[], rfl, rfl, h⟩

theorem mono {gives' : List MatrixCode → α → Prop} (h : Decodes d matrices gives)
    (weaker : ∀ codes value, codes.map MatrixCode.matrix = matrices → gives codes value →
      gives' codes value) : Decodes d matrices gives' := by
  refine ⟨fun eval => ?_, h.refused⟩
  obtain ⟨codes, known, read, given⟩ := h.taken eval
  exact ⟨codes, known, read, weaker codes _ known given⟩

theorem bind {f : α → Decoder β} {gives' : List MatrixCode → β → Prop}
    (first : Decodes d matrices gives)
    (second : ∀ codes value, gives codes value →
      Decodes (f value) others fun codes' value' => gives' (codes ++ codes') value') :
    Decodes (d >>= f) (matrices ++ others) gives' := by
  refine ⟨fun eval => ?_, fun eval => ?_⟩
  · obtain ⟨value, behind, one, two⟩ := eval_bind_ok_cases eval
    obtain ⟨codes, known, rfl, given⟩ := first.taken one
    obtain ⟨codes', known', rfl, given'⟩ := (second codes value given).taken two
    refine ⟨codes ++ codes', by rw [List.map_append, known, known'], ?_, given'⟩
    rw [List.flatMap_append, Item.allBits_append, List.append_assoc]
  · rcases eval_bind_error_cases eval with one | ⟨value, behind, one, two⟩
    · obtain ⟨codes, matrix, behind, known, read, refused⟩ := first.refused one
      exact ⟨codes, matrix, behind, known.trans (List.prefix_append _ _), read, refused⟩
    · obtain ⟨codes, known, rfl, given⟩ := first.taken one
      obtain ⟨codes', matrix, behind', known', rfl, refused⟩ :=
        (second codes value given).refused two
      refine ⟨codes ++ codes', matrix, behind', ?_, ?_, refused⟩
      · rw [List.map_append, known, List.append_assoc]
        exact (List.prefix_append_right_inj matrices).mpr known'
      · rw [List.flatMap_append, Item.allBits_append, List.append_assoc]

end Decodes

/-! ## One size -/

/-- The list of a matrix, among the lists of its size, is what its code stands for behind the lists
in front of it. -/
def MatrixCode.Given (ls : List ScalingList) (x : MatrixCode) : Prop :=
  ∃ (place : Nat) (l : ScalingList), x.matrixId = place * matrixStep x.sizeId
    ∧ ls[place]? = some l ∧ x.code.Gives x.sizeId (ls.take place).reverse l

namespace ScalingList

variable {sizeId : Nat}

theorem matrixStep_pos (sizeId : Nat) : 0 < matrixStep sizeId := by
  unfold matrixStep
  split <;> decide

theorem decoder_decodes (sizeId : Nat) (before : List ScalingList) :
    Decodes (decoder sizeId before) [(sizeId, before.length * matrixStep sizeId)]
      fun codes l => ∀ behind, ∀ x ∈ codes, x.Given (before.reverse ++ l :: behind) := by
  refine ⟨@fun bits left l eval => ?_, fun eval => ?_⟩
  · obtain ⟨code, read, gives⟩ := decoder_taken eval
    refine ⟨[⟨sizeId, before.length * matrixStep sizeId, code⟩], rfl, ?_, ?_⟩
    · rw [List.flatMap_singleton]
      exact read
    · intro behind x mem
      obtain rfl := List.mem_singleton.mp mem
      refine ⟨before.length, l, rfl, ?_, ?_⟩
      · rw [← List.length_reverse, List.getElem?_append_right (Nat.le_refl _), Nat.sub_self]
        rfl
      · rwa [List.take_left' List.length_reverse, List.reverse_reverse]
  · refine ⟨[], _, _, List.prefix_rfl, rfl, ?_⟩
    rw [Nat.mul_div_cancel _ (matrixStep_pos sizeId)]
    exact decoder_refused eval

/-- The induction is on the matrices that are left; the lists that were read stay where they are. -/
theorem ofSizeFrom_decodes (sizeId : Nat) (before : List ScalingList) (count : Nat) :
    Decodes (ofSizeFrom sizeId before count)
      ((List.range' before.length count).map fun place => (sizeId, place * matrixStep sizeId))
      fun codes ls => before.reverse <+: ls ∧ ∀ x ∈ codes, x.Given ls := by
  induction count generalizing before with
  | zero => exact .pure ⟨List.prefix_rfl, nofun⟩
  | succ count ih =>
    refine .bind (decoder_decodes sizeId before) fun codes l given => ?_
    refine (ih (l :: before)).mono fun codes' ls _ others => ?_
    obtain ⟨⟨behind, rfl⟩, given'⟩ := others
    rw [List.reverse_cons, List.append_assoc] at given' ⊢
    refine ⟨List.prefix_append _ _, fun x mem => ?_⟩
    rcases List.mem_append.mp mem with mem | mem
    · exact given behind x mem
    · exact given' x mem

theorem ofSize_decodes (sizeId : Nat) :
    Decodes (ofSize sizeId) (ScalingList.matrices sizeId) fun codes ls =>
      ∀ x ∈ codes, x.sizeId = sizeId ∧ x.Given ls := by
  have all := ofSizeFrom_decodes sizeId [] (matrixCount sizeId)
  rw [List.length_nil, ← List.range_eq_range'] at all
  refine all.mono fun codes ls known given x mem => ⟨?_, given.2 x mem⟩
  have own := List.mem_map_of_mem (f := MatrixCode.matrix) mem
  rw [known] at own
  obtain ⟨place, -, same⟩ := List.mem_map.mp own
  exact (congrArg Prod.fst same).symm

end ScalingList

/-! ## All sizes -/

namespace ScalingLists

theorem forEachFrom_decodes (got : List (List ScalingList)) (count : Nat) :
    Decodes (forEachFrom ofSize got (List.range' got.length count))
      ((List.range' got.length count).flatMap ScalingList.matrices) fun codes sizes =>
        got.reverse <+: sizes
          ∧ ∀ x ∈ codes, ∃ ls, sizes[x.sizeId]? = some ls ∧ x.Given ls := by
  induction count generalizing got with
  | zero => exact .pure ⟨List.prefix_rfl, nofun⟩
  | succ count ih =>
    refine .bind (ofSize_decodes got.length) fun codes ls given => ?_
    refine (ih (ls :: got)).mono fun codes' sizes _ others => ?_
    obtain ⟨⟨behind, rfl⟩, given'⟩ := others
    rw [List.reverse_cons, List.append_assoc] at given' ⊢
    refine ⟨List.prefix_append _ _, fun x mem => ?_⟩
    rcases List.mem_append.mp mem with mem | mem
    · obtain ⟨own, listed⟩ := given x mem
      refine ⟨ls, ?_, listed⟩
      rw [own, ← List.length_reverse, List.getElem?_append_right (Nat.le_refl _), Nat.sub_self]
      rfl
    · exact given' x mem

theorem decoder_decodes :
    Decodes decoder ScalingLists.matrices fun codes lists =>
      ∀ x ∈ codes, ∃ ls, lists.sizes[x.sizeId]? = some ls ∧ x.Given ls := by
  rw [← List.append_nil ScalingLists.matrices]
  exact .bind (forEachFrom_decodes [] 4) fun codes sizes given =>
    .pure fun x mem => given.2 x (by simpa using mem)

end ScalingLists

/-! ## Places of matrices -/

/-- What the places of a matrix hold for its code: they count up the differences, or they are those
of the default list, or all that an earlier matrix has is repeated. -/
def MatrixCode.Means (lists : ScalingLists) (x : MatrixCode) : Prop :=
  match x.code with
  | .differences dcMinus8 ds =>
    ListCode.Complete x.sizeId dcMinus8 ds
      ∧ (∀ n ∈ dcMinus8, (lists.dc x.sizeId x.matrixId : Int) = n + 8)
      ∧ ∀ i < factorCount x.sizeId, (lists.factors x.sizeId x.matrixId)[i]?
        = some (((if hasDc x.sizeId then (lists.dc x.sizeId x.matrixId : Int) else startFactor)
          + (ds.take (i + 1)).sum) % 256).toNat
  | .repeats 0 =>
    (∀ i < factorCount x.sizeId, (lists.factors x.sizeId x.matrixId)[i]?
        = (default x.sizeId x.matrixId).factors[i]?)
      ∧ (hasDc x.sizeId = true → lists.dc x.sizeId x.matrixId = flatFactor)
  | .repeats (back + 1) =>
    ∃ reference, x.matrixId = reference + (back + 1) * matrixStep x.sizeId
      ∧ lists.factors x.sizeId x.matrixId = lists.factors x.sizeId reference
      ∧ lists.dc x.sizeId x.matrixId = lists.dc x.sizeId reference

namespace ScalingLists

/-- What no code has to do with is 0, and constant components are no more than a byte holds. -/
structure Filled (lists : ScalingLists) : Prop where
  places : ∀ sizeId matrixId, (lists.factors sizeId matrixId).length = 64
  zero : ∀ sizeId matrixId i,
    (sizeId, matrixId) ∉ ScalingLists.matrices ∨ factorCount sizeId ≤ i → i < 64 →
      (lists.factors sizeId matrixId)[i]? = some 0
  dc : ∀ sizeId matrixId, (sizeId, matrixId) ∈ ScalingLists.matrices → hasDc sizeId = true →
    1 ≤ lists.dc sizeId matrixId ∧ lists.dc sizeId matrixId ≤ 255
  noDc : ∀ sizeId matrixId,
    (sizeId, matrixId) ∉ ScalingLists.matrices ∨ hasDc sizeId = false →
      lists.dc sizeId matrixId = 0

variable {lists : ScalingLists} {sizeId matrixId : Nat}

theorem mem_matrices :
    (sizeId, matrixId) ∈ ScalingLists.matrices
      ↔ sizeId < 4 ∧ ∃ place < matrixCount sizeId, matrixId = place * matrixStep sizeId := by
  constructor
  · intro mem
    obtain ⟨size, few, own⟩ := List.mem_flatMap.mp mem
    obtain ⟨place, inside, same⟩ := List.mem_map.mp own
    obtain ⟨rfl, rfl⟩ := Prod.mk.inj same
    have known : size < 4 := by
      simp only [List.mem_cons, List.not_mem_nil, or_false] at few
      omega
    exact ⟨known, place, List.mem_range.mp inside, rfl⟩
  · rintro ⟨few, place, inside, rfl⟩
    refine List.mem_flatMap.mpr ⟨sizeId, ?_, List.mem_map.mpr ⟨place, ?_, rfl⟩⟩
    · simp only [List.mem_cons, List.not_mem_nil, or_false]
      omega
    · exact List.mem_range.mpr inside

example : ScalingList.matrices 3 = [(3, 0), (3, 3)] := rfl

theorem list?_eq {ls : List ScalingList} (here : lists.sizes[sizeId]? = some ls) (place : Nat) :
    lists.list? sizeId (place * matrixStep sizeId) = ls[place]? := by
  rw [list?, Nat.mul_mod_left, if_pos rfl, here, Nat.mul_div_cancel _ (matrixStep_pos sizeId)]
  rfl

/-- A matrix has a list where one is coded for it, and nowhere else. -/
theorem list?_cases (h : lists.Coded) (sizeId matrixId : Nat) :
    ((sizeId, matrixId) ∈ ScalingLists.matrices
        ∧ ∃ l, lists.list? sizeId matrixId = some l ∧ l.Coded sizeId)
      ∨ ((sizeId, matrixId) ∉ ScalingLists.matrices ∧ lists.list? sizeId matrixId = none) := by
  by_cases known : (sizeId, matrixId) ∈ ScalingLists.matrices
  · obtain ⟨few, place, inside, rfl⟩ := mem_matrices.mp known
    have here := List.getElem?_eq_getElem (show sizeId < lists.sizes.length from h.length ▸ few)
    have size := h.sizes sizeId _ here
    have found := List.getElem?_eq_getElem (show place < _ from size.length ▸ inside)
    exact .inl ⟨known, _, (list?_eq here place).trans found, size.coded _ (List.getElem_mem _)⟩
  · refine .inr ⟨known, Option.eq_none_iff_forall_ne_some.mpr fun l listed => known ?_⟩
    unfold list? at listed
    split at listed
    · next whole =>
      obtain ⟨ls, here, found⟩ := Option.bind_eq_some_iff.mp listed
      have few : sizeId < 4 := h.length ▸ (List.getElem?_eq_some_iff.mp here).1
      have inside := (List.getElem?_eq_some_iff.mp found).1
      rw [(h.sizes sizeId ls here).length] at inside
      have multiple := Nat.div_mul_cancel (Nat.dvd_of_mod_eq_zero whole)
      exact mem_matrices.mpr ⟨few, _, inside, multiple.symm⟩
    · exact absurd listed (by simp)

theorem factors_of_some {l : ScalingList} (h : lists.list? sizeId matrixId = some l) :
    lists.factors sizeId matrixId = l.factors ++ List.replicate (64 - l.factors.length) 0 := by
  rw [factors, h]
  rfl

theorem factors_of_none (h : lists.list? sizeId matrixId = none) :
    lists.factors sizeId matrixId = List.replicate 64 0 := by
  rw [factors, h]
  rfl

theorem dc_of_some {l : ScalingList} (h : lists.list? sizeId matrixId = some l) :
    lists.dc sizeId matrixId = l.dc.getD 0 := by
  rw [dc, h]
  rfl

theorem dc_of_none (h : lists.list? sizeId matrixId = none) : lists.dc sizeId matrixId = 0 := by
  rw [dc, h]
  rfl

theorem filled_of_coded (h : lists.Coded) : lists.Filled where
  places sizeId matrixId := by
    rcases list?_cases h sizeId matrixId with ⟨-, l, found, coded⟩ | ⟨-, none⟩
    · have few : factorCount sizeId ≤ 64 := Nat.min_le_left _ _
      rw [factors_of_some found, List.length_append, List.length_replicate, coded.length]
      omega
    · rw [factors_of_none none, List.length_replicate]
  zero sizeId matrixId i uncoded inside := by
    rcases list?_cases h sizeId matrixId with ⟨known, l, found, coded⟩ | ⟨-, none⟩
    · have behind : l.factors.length ≤ i := by
        rw [coded.length]
        exact uncoded.resolve_left (not_not_intro known)
      rw [factors_of_some found, List.getElem?_append_right behind,
        List.getElem?_replicate_of_lt (by omega)]
    · rw [factors_of_none none, List.getElem?_replicate_of_lt inside]
  dc sizeId matrixId known has := by
    rcases list?_cases h sizeId matrixId with ⟨-, l, found, coded⟩ | ⟨unknown, -⟩
    · obtain ⟨d, constant⟩ := Option.isSome_iff_exists.mp (coded.dcPresent.trans has)
      have range := coded.dc d constant
      rw [dc_of_some found, constant, Option.getD_some]
      omega
    · exact absurd known unknown
  noDc sizeId matrixId uncoded := by
    rcases list?_cases h sizeId matrixId with ⟨known, l, found, coded⟩ | ⟨-, none⟩
    · have absent : l.dc = none := by
        rw [← Option.not_isSome_iff_eq_none, coded.dcPresent,
          uncoded.resolve_left (not_not_intro known)]
        exact Bool.false_ne_true
      rw [dc_of_some found, absent, Option.getD_none]
    · exact dc_of_none none

/-! ### From lists to places -/

theorem differences_means {l : ScalingList} {dcMinus8 : Option Int} {ds : List Int}
    {before : List ScalingList} (found : lists.list? sizeId matrixId = some l)
    (gives : (ListCode.differences dcMinus8 ds).Gives sizeId before l) :
    MatrixCode.Means lists ⟨sizeId, matrixId, .differences dcMinus8 ds⟩ := by
  obtain ⟨complete, rfl⟩ := gives
  have constant : ∀ n ∈ dcMinus8, (lists.dc sizeId matrixId : Int) = n + 8 := by
    rintro n ⟨⟩
    have range := complete.range n rfl
    rw [dc_of_some found]
    show ((n + 8).toNat : Int) = n + 8
    omega
  have start : ListCode.start dcMinus8
      = if hasDc sizeId then (lists.dc sizeId matrixId : Int) else startFactor := by
    rw [← complete.present]
    cases dcMinus8 with
    | none => rfl
    | some n => exact (constant n rfl).symm
  refine ⟨complete, constant, fun i inside => ?_⟩
  have few : i < ds.length := by
    rw [complete.count]
    exact inside
  have counted : i < (ListCode.sums (ListCode.start dcMinus8) ds).length := by
    rwa [ListCode.sums, List.length_map, List.length_range]
  rw [← start, factors_of_some found, List.getElem?_append_left counted, ListCode.sums,
    List.getElem?_map, List.getElem?_range few]
  rfl

theorem default_means
    (found : lists.list? sizeId matrixId = some (default sizeId matrixId)) :
    MatrixCode.Means lists ⟨sizeId, matrixId, .repeats 0⟩ := by
  have coded := default_coded sizeId matrixId
  refine ⟨fun i inside => ?_, fun has => ?_⟩
  · rw [factors_of_some found, List.getElem?_append_left (by rwa [coded.length])]
  · have constant : (default sizeId matrixId).dc = some flatFactor := if_pos has
    rw [dc_of_some found, constant, Option.getD_some]

/-- A code of a matrix says what its places hold. -/
theorem means_of_given {ls : List ScalingList} {x : MatrixCode}
    (here : lists.sizes[x.sizeId]? = some ls) (given : x.Given ls) : x.Means lists := by
  obtain ⟨sizeId, matrixId, code⟩ := x
  obtain ⟨place, l, own, found, gives⟩ := given
  obtain rfl : matrixId = place * matrixStep sizeId := own
  have inside : place < ls.length := (List.getElem?_eq_some_iff.mp found).1
  have length : (ls.take place).length = place := by
    rw [List.length_take]
    omega
  have listed := (list?_eq here place).trans found
  match code with
  | .differences dcMinus8 ds => exact differences_means listed gives
  | .repeats 0 =>
    obtain rfl : l = default sizeId (place * matrixStep sizeId) := by
      have same : l = default sizeId ((ls.take place).reverse.length * matrixStep sizeId) := gives
      rwa [List.length_reverse, length] at same
    exact default_means listed
  | .repeats (back + 1) =>
    -- the list so far back among those in front of the matrix is that of an earlier one
    have earlier : (ls.take place).reverse[back]? = some l := gives
    have near : back < place := by
      have bound := (List.getElem?_eq_some_iff.mp earlier).1
      rwa [List.length_reverse, length] at bound
    rw [List.getElem?_reverse (by rwa [length]), length, List.getElem?_take_of_lt (by omega)]
      at earlier
    have reference := (list?_eq here (place - 1 - back)).trans earlier
    refine ⟨(place - 1 - back) * matrixStep sizeId, ?_, ?_, ?_⟩
    · show place * matrixStep sizeId = _
      rw [← Nat.add_mul]
      congr 1
      omega
    · exact (factors_of_some listed).trans (factors_of_some reference).symm
    · exact (dc_of_some listed).trans (dc_of_some reference).symm

/-! ## Runs -/

/-- Wherever a cursor stands, the lists that are read from it were the codes of all matrices in
their order, and the places of each matrix are what its code means. If the lists are refused, it is
at one of the matrices, for a value outside its range or for a code that is too long or cut off. -/
theorem matrices_of_run {c : Cursor} (place : c.bitPos < 8) :
    (∀ lists c', decoder.run c = (.ok lists, c') →
      (∃ codes : List MatrixCode, codes.map MatrixCode.matrix = ScalingLists.matrices
        ∧ c.bits = Item.allBits (codes.flatMap MatrixCode.items) ++ c'.bits
        ∧ ∀ x ∈ codes, x.Means lists)
      ∧ lists.Filled)
    ∧ ∀ fault c', decoder.run c = (.error fault, c') →
      ∃ (codes : List MatrixCode) (matrix : Nat × Nat) (behind : List Bool),
        codes.map MatrixCode.matrix ++ [matrix] <+: ScalingLists.matrices
          ∧ c.bits = Item.allBits (codes.flatMap MatrixCode.items) ++ behind
          ∧ ListCode.Refused matrix.1 (matrix.2 / matrixStep matrix.1) behind c'.bits fault
          ∧ (fault.kind = .invalidData ∨ fault.kind = .unexpectedEof ∧ c'.bits = []) := by
  obtain ⟨c₁, ran, left, -⟩ := run_eq decoder place
  refine ⟨fun lists c' read => ?_, fun fault c' read => ?_⟩
  · obtain ⟨ok, rfl⟩ := Prod.mk.inj (ran.symm.trans read)
    have eval : decoder.eval c.bits = (.ok lists, c₁.bits) := Prod.ext ok left.symm
    obtain ⟨codes, known, bits, given⟩ := decoder_decodes.taken eval
    refine ⟨⟨codes, known, bits, fun x mem => ?_⟩, filled_of_coded (decoder_ensures.of_eval eval)⟩
    obtain ⟨ls, here, listed⟩ := given x mem
    exact means_of_given here listed
  · obtain ⟨error, rfl⟩ := Prod.mk.inj (ran.symm.trans read)
    obtain ⟨codes, matrix, behind, known, bits, refused⟩ :=
      decoder_decodes.refused (Prod.ext error left.symm)
    exact ⟨codes, matrix, behind, known, bits, refused, refused.kind⟩

/-- The first list counts up to 10 and the next one repeats it, an inner one has the constant
component 10 and is repeated too, and so is the first list of the largest size. The others are
default lists: 16 everywhere, the one of intra matrices or that of inter matrices. -/
def mixedMatrices : List UInt8 :=
  [0x93, 0xff, 0xf9, 0x2a, 0xaa, 0xab, 0x27, 0xff, 0xff, 0xff, 0xff, 0xff, 0xff, 0xff, 0xf9, 0x2a,
    0x90]

theorem matrices_of_run_mixed :
    (∃ lists c', decoder.run (.ofBytes .plain mixedMatrices) = (.ok lists, c')
      ∧ (lists.factors 0 1 = List.replicate 16 10 ++ List.replicate 48 0 ∧ lists.dc 2 1 = 10)
      ∧ (lists.factors 0 2 = List.replicate 16 16 ++ List.replicate 48 0
        ∧ lists.factors 1 0 = defaultIntra ∧ lists.factors 1 3 = defaultInter
        ∧ lists.factors 2 3 = defaultInter ∧ lists.dc 2 3 = 16)
      ∧ (∃ codes : List MatrixCode, codes.map MatrixCode.matrix = ScalingLists.matrices
        ∧ ∀ x ∈ codes, x.Means lists) ∧ lists.Filled)
    ∧ ∃ c', decoder.run (.ofBytes .plain [0x2f]) = (.error (.outOfRange .matrixDelta 0 0 1), c')
      ∧ ∃ (matrix : Nat × Nat) (behind : List Bool),
        ListCode.Refused matrix.1 (matrix.2 / matrixStep matrix.1) behind c'.bits
          (.outOfRange .matrixDelta 0 0 1) := by
  refine ⟨?_, ?_⟩
  · have read : ((decoder.run (.ofBytes .plain mixedMatrices)).1.toOption.map fun lists =>
        ([lists.factors 0 1, lists.factors 0 2, lists.factors 1 0, lists.factors 1 3,
          lists.factors 2 3], [lists.dc 2 1, lists.dc 2 3]))
        = some ([List.replicate 16 10 ++ List.replicate 48 0,
          List.replicate 16 16 ++ List.replicate 48 0, defaultIntra, defaultInter, defaultInter],
          [10, 16]) := by
      decide +kernel
    obtain ⟨lists, found, values⟩ := Option.map_eq_some_iff.mp read
    simp only [Prod.mk.injEq, List.cons.injEq, and_true] at values
    obtain ⟨⟨first, flat, intra, inter, larger⟩, constant, flatConstant⟩ := values
    have ran : decoder.run (.ofBytes .plain mixedMatrices)
        = (.ok lists, (decoder.run (.ofBytes .plain mixedMatrices)).2) :=
      Prod.ext (toOption_ok found) rfl
    obtain ⟨⟨codes, known, -, means⟩, filled⟩ := (matrices_of_run (by decide)).1 lists _ ran
    exact ⟨lists, _, ran, ⟨first, constant⟩, ⟨flat, intra, inter, larger, flatConstant⟩,
      ⟨codes, known, means⟩, filled⟩
  · have ran : decoder.run (.ofBytes .plain [0x2f])
        = (.error (.outOfRange .matrixDelta 0 0 1), (decoder.run (.ofBytes .plain [0x2f])).2) :=
      Prod.ext rfl rfl
    obtain ⟨-, matrix, behind, -, -, refused, -⟩ := (matrices_of_run (by decide)).2 _ _ ran
    exact ⟨_, ran, matrix, behind, refused⟩

end ScalingLists

end Hevc
