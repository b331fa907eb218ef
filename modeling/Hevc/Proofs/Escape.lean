import Hevc.Proofs.Sink
import Hevc.Proofs.Source

/-!
# Escaped bytes

`Escaped` says which bytes are the escaped form of a payload, and says so without `escape`: what
may follow two zero bytes, and what has to follow an escape byte.

* `escaped_escape` — the escaped form of a payload is of this kind
* `escape_strip` — bytes of this kind are the escaped form of what `strip` leaves of them
* `escape_exact` — the same for what is written through a sink, in any number of writes
-/

namespace Hevc

/-- Bytes with escape bytes behind two zero bytes where they have to be, and only there. -/
structure Escaped (bytes : List UInt8) : Prop where
  /-- A byte that could be mistaken does not follow two zero bytes. -/
  guarded : ∀ b < 3, ¬[0, 0, b] <:+: bytes
  /-- What looks like an escape byte is followed by a byte that needs one. -/
  needed : ∀ rest, [0, 0, 3] ++ rest <:+ bytes → ∃ b ≤ 3, rest.head? = some b

namespace Escaped

variable {b : UInt8} {bytes : List UInt8}

theorem of_suffix {bytes rest : List UInt8} (h : Escaped bytes) (suffix : rest <:+ bytes) :
    Escaped rest :=
  ⟨fun b small inside => h.guarded b small (inside.trans suffix.isInfix),
    fun more inside => h.needed more (inside.trans suffix)⟩

/-- What may stand behind two zero bytes. -/
def Follows (b : UInt8) (bytes : List UInt8) : Prop := 3 < b ∨ b = 3 ∧ ∃ c ≤ 3, bytes.head? = some c

theorem follows (h : Escaped (0 :: 0 :: b :: bytes)) : Follows b bytes := by
  by_cases large : b ≤ 3
  · rcases UInt8.lt_or_eq_of_le large with small | rfl
    · exact absurd (List.prefix_append [0, 0, b] bytes).isInfix (h.guarded b small)
    · exact .inr ⟨rfl, h.needed bytes (List.suffix_refl _)⟩
  · exact .inl (UInt8.not_le.mp large)

/-- One more byte in front, where it does not complete two zero bytes. -/
theorem cons (h : Escaped bytes) (front : ∀ rest, b :: bytes ≠ 0 :: 0 :: rest) :
    Escaped (b :: bytes) := by
  refine ⟨fun c small inside => ?_, fun rest inside => ?_⟩
  · rcases List.infix_cons_iff.mp inside with ⟨rest, here⟩ | inside
    · exact front _ here.symm
    · exact h.guarded c small inside
  · rcases List.suffix_cons_iff.mp inside with here | inside
    · exact absurd here.symm (front _)
    · exact h.needed rest inside

theorem cons_of_ne (h : Escaped bytes) (nonzero : b ≠ 0) : Escaped (b :: bytes) :=
  h.cons fun _ same => nonzero (List.cons.inj same).1

/-- A zero byte in front of another byte. -/
theorem cons_zero (h : Escaped (b :: bytes)) (nonzero : b ≠ 0) : Escaped (0 :: b :: bytes) :=
  h.cons fun _ same => nonzero (List.cons.inj (List.cons.inj same).2).1

/-- Two zero bytes in front of what may stand behind them. -/
theorem cons_zeros (h : Escaped (b :: bytes)) (nonzero : b ≠ 0) (follows : Follows b bytes) :
    Escaped (0 :: 0 :: b :: bytes) := by
  have one := h.cons_zero nonzero
  refine ⟨fun c small inside => ?_, fun rest inside => ?_⟩
  · rcases List.infix_cons_iff.mp inside with here | inside
    · obtain rfl : c = b := by simpa [List.cons_prefix_cons] using here
      rcases follows with large | ⟨rfl, -⟩
      · exact UInt8.lt_asymm small large
      · exact UInt8.lt_irrefl _ small
    · exact one.guarded c small inside
  · rcases List.suffix_cons_iff.mp inside with here | inside
    · obtain ⟨rfl, rfl⟩ : 3 = b ∧ rest = bytes := by simpa using here
      rcases follows with large | ⟨-, due⟩
      · exact absurd large (UInt8.lt_irrefl _)
      · exact due
    · exact one.needed rest inside

end Escaped

/-! ## Zero bytes that were passed -/

theorem needsEscape_iff {b : UInt8} : needsEscape b = true ↔ b ≤ 3 := decide_eq_true_iff

/-- A byte that stands behind two zero bytes without an escape byte. -/
theorem lt_of_free {zeros : Nat} {b : UInt8} (free : ¬(2 ≤ zeros ∧ needsEscape b))
    (enough : 2 ≤ zeros) : 3 < b :=
  UInt8.not_le.mp fun small => free ⟨enough, needsEscape_iff.mpr small⟩

/-- Two zero bytes are the most that are ever passed. -/
theorem zeroRun_le {zeros : Nat} {b : UInt8} (free : ¬(2 ≤ zeros ∧ needsEscape b)) :
    zeroRun zeros b ≤ 2 := by
  unfold zeroRun
  split
  · next zero =>
    refine Nat.lt_of_not_le fun enough => ?_
    exact absurd (zero ▸ lt_of_free free enough) (by decide)
  · exact Nat.zero_le 2

theorem replicate_zeroRun (zeros : Nat) (bytes : List UInt8) :
    List.replicate (zeroRun zeros 0) 0 ++ bytes = List.replicate zeros 0 ++ 0 :: bytes := by
  rw [zeroRun, if_pos rfl, List.replicate_succ', List.append_assoc]
  rfl

theorem zeroRun_of_ne (zeros : Nat) {b : UInt8} (nonzero : b ≠ 0) : zeroRun zeros b = 0 :=
  if_neg nonzero

/-- Bytes without a zero byte have nothing to be stripped of. -/
theorem strip_of_nonzero {nal : List UInt8} (nonzero : ∀ b ∈ nal, b ≠ 0) : strip nal = nal := by
  unfold strip
  induction nal with
  | nil => rfl
  | cons b rest ih =>
    obtain ⟨first, others⟩ := List.forall_mem_cons.mp nonzero
    rw [stripFrom_cons (by omega), zeroRun_of_ne _ first, ih others]

/-! ## Escaping and stripping -/

theorem escaped_zeros {zeros : Nat} (few : zeros ≤ 2) : Escaped (List.replicate zeros 0) := by
  refine ⟨fun b _ inside => ?_, fun rest inside => ?_⟩
  all_goals
    have long := inside.length_le
    simp only [List.length_append, List.length_replicate, List.length_cons] at long
    omega

/-- One more byte in front of what is escaped behind it. -/
theorem Escaped.cons_zeroRun {zeros : Nat} {b : UInt8} {bytes : List UInt8}
    (h : Escaped (List.replicate (zeroRun zeros b) 0 ++ bytes)) : Escaped (b :: bytes) := by
  by_cases zero : b = 0
  · rw [zero, replicate_zeroRun] at h
    rw [zero]
    exact h.of_suffix (List.suffix_append _ _)
  · rw [zeroRun_of_ne zeros zero] at h
    exact cons_of_ne h zero

/-- Behind the zero bytes that were passed, escaping goes on as it has to. -/
theorem escaped_escapeFrom {zeros : Nat} (few : zeros ≤ 2) (payload : List UInt8) :
    Escaped (List.replicate zeros 0 ++ escapeFrom zeros [] payload) := by
  induction payload generalizing zeros with
  | nil =>
    rw [escapeFrom, List.reverse_nil, List.append_nil]
    exact escaped_zeros few
  | cons b rest ih =>
    by_cases due : 2 ≤ zeros ∧ needsEscape b
    · obtain rfl : zeros = 2 := Nat.le_antisymm few due.1
      have behind := (ih (zeroRun_le (show ¬(2 ≤ 0 ∧ needsEscape b) by omega))).cons_zeroRun
      have escaped : Escaped (escapeByte :: b :: escapeFrom (zeroRun 0 b) [] rest) :=
        behind.cons_of_ne (by decide)
      rw [escapeFrom_cons_escape due]
      exact escaped.cons_zeros (by decide) (.inr ⟨rfl, b, needsEscape_iff.mp due.2, rfl⟩)
    · have passed := ih (zeroRun_le due)
      rw [escapeFrom_cons due]
      by_cases zero : b = 0
      · rw [zero] at passed ⊢
        rwa [replicate_zeroRun] at passed
      · have behind := passed.cons_zeroRun
        obtain rfl | rfl | rfl : zeros = 0 ∨ zeros = 1 ∨ zeros = 2 := by omega
        · exact behind
        · exact behind.cons_zero zero
        · exact behind.cons_zeros zero (.inl (lt_of_free due (Nat.le_refl 2)))

theorem escaped_escape (payload : List UInt8) : Escaped (escape payload) :=
  escaped_escapeFrom (Nat.zero_le 2) payload

/-- Behind the same zero bytes, escaping undoes stripping. -/
theorem escapeFrom_stripFrom {zeros : Nat} (few : zeros ≤ 2) {bytes : List UInt8}
    (h : Escaped (List.replicate zeros 0 ++ bytes)) :
    escapeFrom zeros [] (stripFrom zeros [] bytes) = bytes := by
  induction bytes generalizing zeros with
  | nil => rfl
  | cons b rest ih =>
    have follows : 2 ≤ zeros → Escaped.Follows b rest := by
      intro enough
      obtain rfl : zeros = 2 := Nat.le_antisymm few enough
      exact h.follows
    by_cases due : 2 ≤ zeros ∧ b = escapeByte
    · obtain ⟨enough, rfl⟩ := due
      rcases follows enough with large | ⟨-, c, small, first⟩
      · exact absurd large (by decide)
      · -- the byte that needs the escape byte is the next one
        obtain ⟨more, rfl⟩ := List.head?_eq_some_iff.mp first
        have behind := ih (Nat.zero_le 2)
          (h.of_suffix ⟨List.replicate zeros 0 ++ [escapeByte], by simp⟩)
        rw [stripFrom_cons (by omega), escapeFrom_cons (by omega)] at behind
        rw [stripFrom_cons_escape ⟨enough, rfl⟩, stripFrom_cons (by omega),
          escapeFrom_cons_escape ⟨enough, needsEscape_iff.mpr small⟩]
        exact congrArg (escapeByte :: ·) behind
    · have free : ¬(2 ≤ zeros ∧ needsEscape b) := by
        rintro ⟨enough, small⟩
        rcases follows enough with large | ⟨same, -⟩
        · exact absurd large (UInt8.not_lt.mpr (needsEscape_iff.mp small))
        · exact due ⟨enough, same⟩
      have passed : Escaped (List.replicate (zeroRun zeros b) 0 ++ rest) := by
        by_cases zero : b = 0
        · rw [zero] at h ⊢
          rwa [replicate_zeroRun]
        · rw [zeroRun_of_ne zeros zero]
          exact h.of_suffix ⟨List.replicate zeros 0 ++ [b], by simp⟩
      rw [stripFrom_cons due, escapeFrom_cons free, ih (zeroRun_le free) passed]

theorem escape_strip {bytes : List UInt8} (h : Escaped bytes) : escape (strip bytes) = bytes :=
  escapeFrom_stripFrom (Nat.zero_le 2) h

/-! ## Writing -/

/-- Writing inserts escape bytes in one way, however the payload is divided, and in that way only:
the escaped forms are the bytes that are `Escaped`, and `strip` turns each into its payload. A sink
that fails receives the front of the escaped form, whichever of the writes fail. -/
theorem escape_exact :
    (∀ pieces, ((Sink.unbounded .escaped).writeEach pieces).bytes = escape pieces.flatten)
      ∧ (∀ payload, strip (escape payload) = payload)
      ∧ (∀ bytes, Escaped bytes ↔ escape (strip bytes) = bytes)
      ∧ (∀ bytes, Escaped bytes ↔ ∃ payload, escape payload = bytes)
      ∧ ∀ capacity fault pieces,
          ((Sink.failing .escaped capacity fault).writeEach pieces).bytes
            = (escape pieces.flatten).take capacity := by
  refine ⟨Sink.bytes_writeEach_unbounded, strip_escape, fun bytes => ⟨escape_strip, fun same => ?_⟩,
    fun bytes => ⟨fun h => ⟨_, escape_strip h⟩, ?_⟩, Sink.bytes_writeEach_failing⟩
  · rw [← same]
    exact escaped_escape _
  · rintro ⟨payload, rfl⟩
    exact escaped_escape payload

/-- The escape byte finds the last place, and what is written later does not arrive. -/
example :
    ((Sink.failing .escaped 3 .sinkFull).writeEach [[0], [0, 1], [2]]).bytes = [0, 0, 3] := by
  decide

end Hevc
