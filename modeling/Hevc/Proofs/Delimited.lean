import Hevc.Proofs.Escape
import Hevc.Proofs.Stream
import Mathlib.Data.List.TakeWhile

/-!
# Units behind start codes

A unit can be put behind a start code of any length and is found again, if no start code begins
inside it and its last byte is not zero. The units of a stream are of this kind, and so is every
escaped payload that does not end in a zero byte.

* `Stream.breakAtCode_append` — no start code begins in such a unit, whatever follows it
* `Stream.units_delimited`, `Stream.units_delimited_zeros` — units behind start codes are the units
  of the stream, also in front of zero bytes
* `Stream.isUnit_of_mem` — the units of a stream can be put behind start codes
* `Stream.isUnit_escape` — escaped payloads can
-/

namespace Hevc

namespace Stream

/-- Bytes that are found again behind a start code, and from which nothing is trimmed. -/
structure IsUnit (unit : List UInt8) : Prop where
  codeFree : ¬startCode <:+: unit
  nonempty : unit ≠ []
  last : unit.getLast? ≠ some 0

/-- The two start codes. -/
def startCodes : List (List UInt8) := [startCode, longStartCode]

/-- A one behind two zero bytes or more. -/
def IsCode (code : List UInt8) : Prop := ∃ count ≥ 2, code = List.replicate count 0 ++ [1]

theorem isCode_of_mem {code : List UInt8} (h : code ∈ startCodes) : IsCode code := by
  simp only [startCodes, List.mem_cons, List.not_mem_nil, or_false] at h
  rcases h with rfl | rfl
  · exact ⟨2, by decide, rfl⟩
  · exact ⟨3, by decide, rfl⟩

/-- Units, each behind its start code. -/
def delimited (parts : List (List UInt8 × List UInt8)) : List UInt8 :=
  parts.flatMap fun (code, unit) => code ++ unit

@[simp] theorem delimited_cons (code unit : List UInt8) (parts : List (List UInt8 × List UInt8)) :
    delimited ((code, unit) :: parts) = code ++ (unit ++ delimited parts) := by
  simp [delimited]

/-! ## Breaking at a start code -/

theorem breakAtCodeFrom_eq (passed data : List UInt8) :
    breakAtCodeFrom passed data
      = (passed.reverse ++ (breakAtCode data).1, (breakAtCode data).2) := by
  induction data generalizing passed with
  | nil => simp [breakAtCode, breakAtCodeFrom]
  | cons b rest ih =>
    unfold breakAtCode breakAtCodeFrom
    split
    · simp
    · rw [ih (b :: passed), ih [b]]
      simp

theorem breakAtCode_of_front {data : List UInt8} (h : startCode <+: data) :
    breakAtCode data = ([], data) := by
  cases data with
  | nil => rfl
  | cons b rest =>
    unfold breakAtCode breakAtCodeFrom
    rw [if_pos (List.isPrefixOf_iff_prefix.mpr h)]
    rfl

theorem breakAtCode_cons {b : UInt8} {rest : List UInt8} (h : ¬startCode <+: b :: rest) :
    breakAtCode (b :: rest) = (b :: (breakAtCode rest).1, (breakAtCode rest).2) := by
  rw [breakAtCode, breakAtCodeFrom, if_neg (mt List.isPrefixOf_iff_prefix.mp h),
    breakAtCodeFrom_eq]
  rfl

/-- Nothing is lost where a stream is broken. -/
theorem breakAtCode_join (data : List UInt8) :
    (breakAtCode data).1 ++ (breakAtCode data).2 = data := by
  induction data with
  | nil => rfl
  | cons b rest ih =>
    by_cases h : startCode <+: b :: rest
    · rw [breakAtCode_of_front h]
      rfl
    · rw [breakAtCode_cons h, List.cons_append, ih]

/-- Breaking at the place where a stream was broken changes nothing. -/
theorem breakAtCode_snd_snd (data : List UInt8) :
    (breakAtCode (breakAtCode data).2).2 = (breakAtCode data).2 := by
  cases h : (breakAtCode data).2 with
  | nil => rfl
  | cons b rest =>
    have code : startCode <+: (breakAtCode data).2 :=
      startCode_prefix_breakAtCodeFrom [] data (by rw [← breakAtCode, h]; simp)
    rw [← h, breakAtCode_of_front code]

/-- Of zero bytes in front of a start code, the last two belong to it. -/
theorem breakAtCode_zeros (count : Nat) (rest : List UInt8) :
    breakAtCode (List.replicate count 0 ++ (startCode ++ rest))
      = (List.replicate count 0, startCode ++ rest) := by
  induction count with
  | zero => exact breakAtCode_of_front (List.prefix_append startCode rest)
  | succ count ih =>
    have later : ¬startCode <+: 0 :: (List.replicate count 0 ++ (startCode ++ rest)) := by
      cases count with
      | zero => simp [startCode, List.cons_prefix_cons]
      | succ count => cases count <;> simp [startCode, List.replicate_succ, List.cons_prefix_cons]
    rw [List.replicate_succ, List.cons_append, breakAtCode_cons later, ih]

theorem breakAtCode_code {code : List UInt8} (h : IsCode code) (rest : List UInt8) :
    (∀ b ∈ (breakAtCode (code ++ rest)).1, b = 0)
      ∧ (breakAtCode (code ++ rest)).2 = startCode ++ rest := by
  obtain ⟨count, enough, rfl⟩ := h
  obtain ⟨more, rfl⟩ := Nat.exists_eq_add_of_le' enough
  have split : List.replicate (more + 2) 0 ++ [1] ++ rest
      = List.replicate more 0 ++ (startCode ++ rest) := by
    rw [List.replicate_add, List.append_assoc, List.append_assoc]
    rfl
  rw [split, breakAtCode_zeros]
  exact ⟨fun b mem => List.eq_of_mem_replicate mem, rfl⟩

/-- Zero bytes alone hold no start code. -/
theorem breakAtCode_replicate (count : Nat) :
    breakAtCode (List.replicate count 0) = (List.replicate count 0, []) := by
  induction count with
  | zero => rfl
  | succ count ih =>
    have none : ¬startCode <+: 0 :: List.replicate count 0 := by
      rw [← List.replicate_succ]
      intro code
      have last : (1 : UInt8) ∈ startCode := by decide
      exact absurd (List.eq_of_mem_replicate (code.subset last)) (by decide)
    rw [List.replicate_succ, breakAtCode_cons none, ih]

/-! ## Units in front of anything -/

/-- Neither does a start code begin inside a unit, nor with its last bytes. -/
theorem IsUnit.not_prefix_append {unit : List UInt8} (h : IsUnit unit) (rest : List UInt8) :
    ¬startCode <+: unit ++ rest := by
  intro code
  match unit, h with
  | [], h => exact h.nonempty rfl
  | [b], h =>
    obtain ⟨rfl, -⟩ := List.cons_prefix_cons.mp code
    exact h.last rfl
  | [b, c], h =>
    obtain ⟨-, code⟩ := List.cons_prefix_cons.mp code
    obtain ⟨rfl, -⟩ := List.cons_prefix_cons.mp code
    exact h.last rfl
  | b :: c :: d :: unit, h =>
    have inside := List.prefix_of_prefix_length_le code (List.prefix_append _ rest)
      (by simp [startCode])
    exact h.codeFree inside.isInfix

theorem breakAtCode_append {unit : List UInt8} (h : IsUnit unit) (rest : List UInt8) :
    breakAtCode (unit ++ rest) = (unit ++ (breakAtCode rest).1, (breakAtCode rest).2) := by
  induction unit with
  | nil => exact absurd rfl h.nonempty
  | cons b unit ih =>
    have first := h.not_prefix_append rest
    rw [List.cons_append] at first ⊢
    rw [breakAtCode_cons first]
    cases unit with
    | nil => rfl
    | cons c unit =>
      have others : IsUnit (c :: unit) :=
        ⟨fun inside => h.codeFree (List.infix_cons inside), by simp, h.last⟩
      rw [ih others]
      rfl

/-- Of a unit, and zeros of the next start code behind it, only these are trimmed. -/
theorem trimZeros_append {unit zeros : List UInt8} (h : IsUnit unit) (all : ∀ b ∈ zeros, b = 0) :
    trimZeros (unit ++ zeros) = unit := by
  obtain ⟨b, last⟩ := Option.ne_none_iff_exists'.mp (mt List.getLast?_eq_none_iff.mp h.nonempty)
  obtain ⟨front, rfl⟩ := List.getLast?_eq_some_iff.mp last
  have stays : b ≠ 0 := by
    rintro rfl
    exact h.last last
  have goes : zeros.reverse.dropWhile (· = 0) = [] := by
    rw [List.dropWhile_eq_nil_iff]
    intro c mem
    exact decide_eq_true (all c (List.mem_reverse.mp mem))
  unfold trimZeros
  rw [List.reverse_append, List.dropWhile_append, goes]
  simp [stays]

/-! ## Units behind start codes -/

theorem nextUnit?_breakAtCode (data : List UInt8) :
    nextUnit? (breakAtCode data).2 = nextUnit? data := by
  unfold nextUnit?
  rw [breakAtCode_snd_snd]

/-- What is in front of the first start code plays no part. -/
theorem unitsFrom_breakAtCode (found : List (List UInt8)) (data : List UInt8) :
    unitsFrom found (breakAtCode data).2 = unitsFrom found data := by
  have same := nextUnit?_breakAtCode data
  cases next : nextUnit? data with
  | none => rw [unitsFrom_of_none next, unitsFrom_of_none (same.trans next)]
  | some found => rw [unitsFrom_of_some next, unitsFrom_of_some (same.trans next)]

theorem nextUnit?_append {code unit rest : List UInt8} (hc : IsCode code) (h : IsUnit unit)
    (zeros : ∀ b ∈ (breakAtCode rest).1, b = 0) :
    nextUnit? (code ++ (unit ++ rest)) = some (unit, (breakAtCode rest).2) := by
  unfold nextUnit?
  rw [(breakAtCode_code hc _).2]
  show some (trimZeros (breakAtCode (unit ++ rest)).1, (breakAtCode (unit ++ rest)).2) = _
  rw [breakAtCode_append h, trimZeros_append h zeros]

section

variable {parts : List (List UInt8 × List UInt8)}

theorem zeros_of_delimited (codes : ∀ part ∈ parts, IsCode part.1) (trailing : Nat) :
    ∀ b ∈ (breakAtCode (delimited parts ++ List.replicate trailing 0)).1, b = 0 := by
  cases parts with
  | nil =>
    intro b mem
    rw [delimited, List.flatMap_nil, List.nil_append, breakAtCode_replicate] at mem
    exact List.eq_of_mem_replicate mem
  | cons part parts =>
    obtain ⟨code, unit⟩ := part
    rw [delimited_cons, List.append_assoc]
    exact (breakAtCode_code (codes _ List.mem_cons_self) _).1

theorem unitsFrom_delimited (codes : ∀ part ∈ parts, IsCode part.1)
    (units : ∀ part ∈ parts, IsUnit part.2) (trailing : Nat) (found : List (List UInt8)) :
    unitsFrom found (delimited parts ++ List.replicate trailing 0)
      = found.reverse ++ parts.map (·.2) := by
  induction parts generalizing found with
  | nil =>
    have last : nextUnit? (List.replicate trailing 0) = none := by
      rw [nextUnit?, breakAtCode_replicate]
    rw [List.map_nil, List.append_nil, delimited, List.flatMap_nil, List.nil_append,
      unitsFrom_of_none last]
  | cons part parts ih =>
    obtain ⟨code, unit⟩ := part
    obtain ⟨here, codes⟩ := List.forall_mem_cons.mp codes
    obtain ⟨first, units⟩ := List.forall_mem_cons.mp units
    have next := nextUnit?_append here first (zeros_of_delimited codes trailing)
    have some : unit.isEmpty = false := by simpa using first.nonempty
    -- the zero bytes in front of the next start code are left behind, and missed by nobody
    rw [delimited_cons, List.append_assoc, List.append_assoc, unitsFrom_of_some next, some,
      if_neg Bool.false_ne_true, unitsFrom_breakAtCode, ih codes units]
    simp

/-- Units behind start codes of any length are the units of the stream, and zero bytes at its end
are not part of the last. -/
theorem units_delimited_zeros (codes : ∀ part ∈ parts, IsCode part.1)
    (units : ∀ part ∈ parts, IsUnit part.2) (trailing : Nat) :
    Stream.units (delimited parts ++ List.replicate trailing 0) = parts.map (·.2) :=
  unitsFrom_delimited codes units trailing []

/-- Units behind start codes of either length are the units of the stream. -/
theorem units_delimited (codes : ∀ part ∈ parts, part.1 ∈ startCodes)
    (units : ∀ part ∈ parts, IsUnit part.2) : Stream.units (delimited parts) = parts.map (·.2) := by
  have all := units_delimited_zeros (fun part mem => isCode_of_mem (codes part mem)) units 0
  rwa [List.replicate_zero, List.append_nil] at all

end

/-- Bytes without a zero byte can be put behind a start code. -/
theorem isUnit_of_nonzero {unit : List UInt8} (some : unit ≠ []) (nonzero : ∀ b ∈ unit, b ≠ 0) :
    IsUnit unit where
  codeFree := fun inside => nonzero 0 (inside.subset (by decide)) rfl
  nonempty := some
  last := fun zero => nonzero 0 (List.mem_of_getLast? zero) rfl

/-! ## The units of a stream -/

theorem codeFree_breakAtCode (data : List UInt8) : ¬startCode <:+: (breakAtCode data).1 := by
  induction data with
  | nil => simp [breakAtCode, breakAtCodeFrom, startCode]
  | cons b rest ih =>
    by_cases h : startCode <+: b :: rest
    · simp [breakAtCode_of_front h, startCode]
    · rw [breakAtCode_cons h, List.infix_cons_iff]
      rintro (code | code)
      · -- a start code in front of the place would have been found in the stream
        refine h (code.trans ?_)
        rw [List.cons_prefix_cons]
        exact ⟨rfl, (breakAtCode rest).2, breakAtCode_join rest⟩
      · exact ih code

theorem trimZeros_front (unit : List UInt8) : trimZeros unit <+: unit := by
  have kept := List.dropWhile_suffix (p := (· = 0)) (l := unit.reverse)
  rw [← List.reverse_prefix, List.reverse_reverse] at kept
  exact kept

theorem getLast?_trimZeros (unit : List UInt8) : (trimZeros unit).getLast? ≠ some 0 := by
  intro zero
  unfold trimZeros at zero
  rw [List.getLast?_reverse] at zero
  have kept := List.head?_dropWhile_not (· = 0) unit.reverse
  rw [zero] at kept
  exact absurd kept (by simp)

theorem isUnit_of_nextUnit? {data unit rest : List UInt8} (h : nextUnit? data = some (unit, rest))
    (some : unit ≠ []) : IsUnit unit := by
  unfold nextUnit? at h
  split at h
  · exact absurd h (by simp)
  · obtain ⟨rfl, rfl⟩ := Prod.mk.inj (Option.some.inj h)
    refine ⟨fun code => ?_, some, getLast?_trimZeros _⟩
    exact codeFree_breakAtCode _ (code.trans (trimZeros_front _).isInfix)

theorem isUnit_of_mem_unitsFrom {found : List (List UInt8)} {data : List UInt8}
    (before : ∀ unit ∈ found, IsUnit unit) : ∀ unit ∈ unitsFrom found data, IsUnit unit := by
  induction found, data using unitsFrom.induct with
  | case1 found data last =>
    rw [unitsFrom_of_none last]
    intro unit mem
    exact before unit (List.mem_reverse.mp mem)
  | case2 found data unit rest next ih =>
    rw [unitsFrom_of_some next]
    split at ih
    · next empty =>
      rw [if_pos empty]
      exact ih before
    · next nonempty =>
      rw [if_neg nonempty]
      refine ih (List.forall_mem_cons.mpr ⟨isUnit_of_nextUnit? next ?_, before⟩)
      simpa using nonempty

/-- The units of a stream can be put behind start codes again. -/
theorem isUnit_of_mem {data unit : List UInt8} (h : unit ∈ Stream.units data) : IsUnit unit :=
  isUnit_of_mem_unitsFrom (by simp) unit h

/-! ## Escaped payloads -/

/-- The last byte of a payload is also the last one of its escaped form. -/
theorem getLast?_escapeFrom (zeros : Nat) (payload : List UInt8) :
    (escapeFrom zeros [] payload).getLast? = payload.getLast? := by
  induction payload generalizing zeros with
  | nil => rfl
  | cons b rest ih =>
    by_cases due : 2 ≤ zeros ∧ needsEscape b
    · rw [escapeFrom_cons_escape due, List.getLast?_cons_cons, List.getLast?_cons, ih,
        List.getLast?_cons]
    · rw [escapeFrom_cons due, List.getLast?_cons, ih, List.getLast?_cons]

/-- An escaped payload can be put behind a start code, unless it ends in a zero byte. -/
theorem isUnit_escape {payload : List UInt8} (nonempty : payload ≠ [])
    (last : payload.getLast? ≠ some 0) : IsUnit (escape payload) := by
  have same : (escape payload).getLast? = payload.getLast? := getLast?_escapeFrom 0 payload
  refine ⟨(escaped_escape payload).guarded 1 (by decide), fun empty => nonempty ?_, same ▸ last⟩
  rw [empty, eq_comm] at same
  exact List.getLast?_eq_none_iff.mp same

end Stream

end Hevc
