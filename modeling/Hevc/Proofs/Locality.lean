import Hevc.Proofs.Decoder

/-!
# What a reading depends on

A source takes an escape byte only along with the byte after it, so the bytes that it has taken are
the fewest that give what it has handed out. What follows them plays no part, and without the last
of them there is less to hand out.

* `Source.exists_takes` — the bytes of the buffer that go with the front of the payload
* `Decoder.run_local` — a value is read from the bytes that were taken, whatever follows them, and
  from no fewer
-/

namespace Hevc

namespace Source

/-! ## Taking bytes -/

/-- The bytes `used` at the front of a buffer are what has to be taken to hand out `got`, and the
source is at `s'` then. -/
structure Takes (s : Source) (got used : List UInt8) (s' : Source) : Prop where
  rest : s.rest = used ++ s'.rest
  taken : s'.taken = s.taken + used.length
  /-- Whatever follows, as many requests lead behind the bytes. -/
  moves : ∀ rest, advance got.length { s with rest := used ++ rest } = { s' with rest }
  /-- Whatever follows, the payload begins with what is handed out. -/
  payload : ∀ rest,
    Source.payload { s with rest := used ++ rest } = got ++ Source.payload { s' with rest }
  /-- Fewer bytes give less. -/
  cut : ∀ front, front <+: used → front.length < used.length →
    Source.payload { s with rest := front } <+: got
      ∧ (Source.payload { s with rest := front }).length < got.length

theorem Takes.refl (s : Source) : s.Takes [] [] s where
  rest := rfl
  taken := rfl
  moves := fun _ => rfl
  payload := fun _ => rfl
  cut := fun _ _ fewer => absurd fewer (Nat.not_lt_zero _)

theorem Takes.trans {s s' s'' : Source} {got got' used used' : List UInt8}
    (h : s.Takes got used s') (h' : s'.Takes got' used' s'') :
    s.Takes (got ++ got') (used ++ used') s'' where
  rest := by rw [h.rest, h'.rest, List.append_assoc]
  taken := by
    rw [h'.taken, h.taken, List.length_append]
    omega
  moves := by
    intro rest
    rw [List.length_append, ← advance_add, List.append_assoc, h.moves, h'.moves]
  payload := by
    intro rest
    rw [List.append_assoc, h.payload, h'.payload, List.append_assoc]
  cut := by
    intro front short fewer
    -- the cut is inside the first part, or it is behind it
    by_cases inside : front.length < used.length
    · have first : front <+: used :=
        List.prefix_of_prefix_length_le short (List.prefix_append used used') (Nat.le_of_lt inside)
      obtain ⟨before, less⟩ := h.cut front first inside
      refine ⟨before.trans (List.prefix_append got got'), ?_⟩
      rw [List.length_append]
      omega
    · have behind : used <+: front :=
        List.prefix_of_prefix_length_le (List.prefix_append used used') short
          (Nat.le_of_not_lt inside)
      obtain ⟨front', rfl⟩ := behind
      rw [List.length_append, List.length_append] at fewer
      obtain ⟨before, less⟩ :=
        h'.cut front' ((List.prefix_append_right_inj used).mp short) (by omega)
      rw [h.payload, List.length_append, List.length_append]
      exact ⟨(List.prefix_append_right_inj got).mpr before, by omega⟩

theorem payload_of_next {s s' : Source} {b : UInt8} (h : s.next = (some b, s')) :
    s.payload = b :: s'.payload := by
  have head := next_fst s
  have tail := payload_next s
  rw [h] at head tail
  cases hp : s.payload with
  | nil => rw [hp] at head; exact absurd head (by simp)
  | cons c rest =>
    rw [hp] at head tail
    obtain rfl : b = c := Option.some.inj head
    rw [tail, List.tail_cons]

theorem payload_of_next_none {s : Source} (h : s.next.1 = none) : s.payload = [] := by
  rw [next_fst] at h
  exact List.head?_eq_none_iff.mp h

/-- A request takes a byte, or an escape byte and the byte after it. -/
theorem takes_of_next {s s' : Source} {b : UInt8} {used : List UInt8}
    (rest : s.rest = used ++ s'.rest) (taken : s'.taken = s.taken + used.length)
    (moves : ∀ rest, next { s with rest := used ++ rest } = (some b, { s' with rest }))
    (cut : ∀ front, front <+: used → front.length < used.length →
      (next { s with rest := front }).1 = none) : s.Takes [b] used s' where
  rest := rest
  taken := taken
  moves := fun rest => congrArg Prod.snd (moves rest)
  payload := fun rest => payload_of_next (moves rest)
  cut := by
    intro front short fewer
    rw [payload_of_next_none (cut front short fewer)]
    exact ⟨List.nil_prefix, Nat.one_pos⟩

theorem takes_plain {coding : Coding} {b : UInt8} {rest : List UInt8} {taken zeros : Nat}
    (escape : (Source.mk coding (b :: rest) taken zeros).atEscape b = false) :
    (Source.mk coding (b :: rest) taken zeros).Takes [b] [b]
      ⟨coding, rest, taken + 1, zeroRun zeros b⟩ := by
  refine takes_of_next rfl rfl (fun rest => next_cons rfl escape) fun front short fewer => ?_
  rw [List.length_singleton, Nat.lt_one_iff, List.length_eq_zero_iff] at fewer
  rw [fewer]
  rfl

theorem takes_escaped {coding : Coding} {c b : UInt8} {rest : List UInt8} {taken zeros : Nat}
    (escape : (Source.mk coding (c :: b :: rest) taken zeros).atEscape c = true) :
    (Source.mk coding (c :: b :: rest) taken zeros).Takes [b] [c, b]
      ⟨coding, rest, taken + 2, zeroRun 0 b⟩ := by
  -- whatever is behind it, the byte is one to be passed over
  have skips : ∀ bytes, (Source.mk coding bytes taken zeros).atEscape c = true := fun _ => escape
  refine takes_of_next rfl rfl (fun rest => ?_) fun front short fewer => ?_
  · simp only [next, List.cons_append, skips, if_true, List.nil_append]
  · cases front with
    | nil => rfl
    | cons e others =>
      obtain ⟨rfl, -⟩ := List.cons_prefix_cons.mp short
      have none : others = [] := by
        simp only [List.length_cons, List.length_nil] at fewer
        exact List.eq_nil_of_length_eq_zero (by omega)
      rw [none]
      simp only [next, skips, if_true]

theorem takes_next {s : Source} {b : UInt8} (h : s.next.1 = some b) :
    ∃ used, s.Takes [b] used s.next.2 := by
  obtain ⟨coding, rest, taken, zeros⟩ := s
  cases rest with
  | nil => exact absurd h (by simp [next])
  | cons c rest =>
    cases escape : (Source.mk coding (c :: rest) taken zeros).atEscape c with
    | false =>
      rw [next_cons rfl escape] at h ⊢
      obtain rfl : c = b := Option.some.inj h
      exact ⟨[c], takes_plain escape⟩
    | true =>
      cases rest with
      | nil => simp only [next, escape, if_true] at h; exact absurd h (by simp)
      | cons d rest =>
        have moves : next ⟨coding, c :: d :: rest, taken, zeros⟩
            = (some d, ⟨coding, rest, taken + 2, zeroRun 0 d⟩) := by
          simp only [next, escape, if_true]
        rw [moves] at h ⊢
        obtain rfl : d = b := Option.some.inj h
        exact ⟨[c, d], takes_escaped escape⟩

/-- The bytes that go with the front of the payload. -/
theorem exists_takes {count : Nat} {s : Source} (h : count ≤ s.payload.length) :
    ∃ used, s.Takes (s.payload.take count) used (s.advance count) := by
  induction count generalizing s with
  | zero => exact ⟨[], .refl s⟩
  | succ count ih =>
    have head := next_fst s
    have tail := payload_next s
    cases hp : s.payload with
    | nil => rw [hp] at h; exact absurd h (by simp)
    | cons b rest =>
      rw [hp] at head tail h
      obtain ⟨used, first⟩ := takes_next head
      obtain ⟨used', others⟩ := ih (s := s.next.2) (by
        rw [tail]
        exact Nat.le_of_succ_le_succ h)
      rw [tail] at others
      exact ⟨used ++ used', first.trans others⟩

end Source

namespace Decoder

variable {α : Type} {d : Decoder α} {coding : Coding} {bytes : List UInt8} {value : α}

/-- A value comes from the bytes that were taken for it, and fewer than eight bits of them are
left. -/
theorem exists_used (ok : (d.run (.ofBytes coding bytes)).1 = .ok value) :
    ∃ got used front, (Source.ofBytes coding bytes).Takes got used
        (d.run (.ofBytes coding bytes)).2.source
      ∧ front.length < 8
      ∧ ∀ other, d.eval (Bits.ofBytes got ++ other) = (.ok value, front ++ other) := by
  generalize hp : (Source.ofBytes coding bytes).payload = payload
  rw [run_ofBytes_fst, hp] at ok
  generalize hl : (d.eval (Bits.ofBytes payload)).2 = left
  have ends : d.eval (Bits.ofBytes payload) = (.ok value, left) := Prod.ext ok hl
  have few := length_eval_le d (Bits.ofBytes payload)
  rw [hl, Bits.length_ofBytes] at few
  have place := run_ofBytes_source (hp ▸ ends)
  rw [hp] at place
  -- the bytes of the payload that no bit was taken of are left whole
  generalize hc : payload.length - left.length / 8 = count at place
  obtain ⟨used, takes⟩ := Source.exists_takes (s := Source.ofBytes coding bytes)
    (show count ≤ (Source.ofBytes coding bytes).payload.length by rw [hp]; omega)
  rw [hp, ← place] at takes
  have split : Bits.ofBytes payload
      = Bits.ofBytes (payload.take count) ++ Bits.ofBytes (payload.drop count) := by
    rw [← Bits.ofBytes_append, List.take_append_drop]
  have whole : (Bits.ofBytes (payload.drop count)).length = 8 * (left.length / 8) := by
    rw [Bits.length_ofBytes, List.length_drop]
    omega
  rw [split] at ends
  obtain ⟨front, same, all⟩ := eval_local ends (by omega)
  refine ⟨payload.take count, used, front, takes, ?_, all⟩
  have lengths := congrArg List.length same
  rw [List.length_append, whole] at lengths
  omega

section Used

variable {got used : List UInt8} {front : List Bool} {s : Source}

/-- The bytes that go with a value give it whatever follows them, and leave what follows. -/
theorem run_followed (takes : (Source.ofBytes coding bytes).Takes got used s)
    (short : front.length < 8)
    (all : ∀ other, d.eval (Bits.ofBytes got ++ other) = (.ok value, front ++ other))
    (more : List UInt8) :
    (d.run (.ofBytes coding (used ++ more))).1 = .ok value
      ∧ (d.run (.ofBytes coding (used ++ more))).2.source = { s with rest := more } := by
  have payload : (Source.ofBytes coding (used ++ more)).payload
      = got ++ Source.payload { s with rest := more } := takes.payload more
  have ends := all (Bits.ofBytes (Source.payload { s with rest := more }))
  rw [← Bits.ofBytes_append, ← payload] at ends
  refine ⟨by rw [run_ofBytes_fst, ends], ?_⟩
  -- as many bytes of the payload are behind the last bit that was taken as before
  have count : (Source.ofBytes coding (used ++ more)).payload.length
      - (front ++ Bits.ofBytes (Source.payload { s with rest := more })).length / 8
        = got.length := by
    rw [payload, List.length_append, List.length_append, Bits.length_ofBytes]
    omega
  rw [run_ofBytes_source ends, count]
  exact takes.moves more

/-- Without the last of the bytes that go with a value, the data ends too early for it. -/
theorem run_cut (takes : (Source.ofBytes coding bytes).Takes got used s)
    (short : front.length < 8)
    (all : ∀ other, d.eval (Bits.ofBytes got ++ other) = (.ok value, front ++ other))
    {m : Nat} (fewer : m < used.length) :
    ∃ fault, (d.run (.ofBytes coding (used.take m))).1 = .error fault
      ∧ fault.kind = .unexpectedEof := by
  have less : (used.take m).length < used.length :=
    Nat.lt_of_le_of_lt (List.length_take_le m used) fewer
  obtain ⟨⟨rest, same⟩, shorter⟩ := takes.cut (used.take m) (List.take_prefix m used) less
  have ends := all []
  rw [← same, Bits.ofBytes_append, List.append_nil, List.append_nil] at ends
  rw [← same, List.length_append] at shorter
  obtain ⟨fault, refused, kind⟩ := eval_truncated ends (by rw [Bits.length_ofBytes]; omega)
  refine ⟨fault, ?_, kind⟩
  rw [run_ofBytes_fst]
  exact congrArg Prod.fst refused

end Used

/-- A value is read from the bytes that were taken for it. Whatever follows them, the same value is
read and as much is taken; and where they are cut off, the data ends too early. -/
theorem run_local (ok : (d.run (.ofBytes coding bytes)).1 = .ok value) {taken : Nat}
    (place : (d.run (.ofBytes coding bytes)).2.source.taken = taken) :
    taken ≤ bytes.length
      ∧ (∀ more, (d.run (.ofBytes coding (bytes.take taken ++ more))).1 = .ok value
          ∧ (d.run (.ofBytes coding (bytes.take taken ++ more))).2.source.taken = taken)
      ∧ ∀ m < taken, ∃ fault, (d.run (.ofBytes coding (bytes.take m))).1 = .error fault
          ∧ fault.kind = .unexpectedEof := by
  obtain ⟨got, used, front, takes, short, all⟩ := exists_used ok
  generalize (d.run (.ofBytes coding bytes)).2.source = s at takes place
  obtain rfl : taken = used.length := by
    rw [← place, takes.taken]
    exact Nat.zero_add _
  have whole : bytes = used ++ s.rest := takes.rest
  have front_used : bytes.take used.length = used := by rw [whole, List.take_left]
  refine ⟨by rw [whole, List.length_append]; omega, fun more => ?_, fun m fewer => ?_⟩
  · rw [front_used]
    obtain ⟨read, source⟩ := run_followed takes short all more
    rw [source]
    exact ⟨read, place⟩
  · rw [whole, List.take_append_of_le_length (Nat.le_of_lt fewer)]
    exact run_cut takes short all fewer

end Decoder

end Hevc
