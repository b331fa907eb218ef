import Hevc.Proofs.Locality
import Mathlib.Algebra.GroupWithZero.Nat
import Mathlib.Algebra.Order.Group.Nat
import Mathlib.Data.List.Forall2

/-!
# Escape bytes removed on the way

An escaped buffer may be read in pieces of any sizes, and a piece may end between two zero bytes, in
front of an escape byte or behind it. What the reads hand out is what stripping the whole buffer
leaves, and as long as there was enough for each of them the source has taken no byte that they did
not need.

* `Source.OnWay`, `Source.OnWay.delivered_append` — where a source can stand in a buffer, and that
  what it handed out and what it still holds are the whole payload
* `Source.readEachBy_saturating` — a counter of zeros that stops at a limit serves as well
* `Source.streams` — reads of any sizes against stripping at once
-/

namespace Hevc

/-- The first `n` bytes of a buffer are the shortest front whose stripped form has `count` bytes. -/
structure ShortestFront (data : List UInt8) (count n : Nat) : Prop where
  inside : n ≤ data.length
  stripped : (strip (data.take n)).length = count
  shortest : ∀ m < n, (strip (data.take m)).length ≠ count

namespace Source

variable {coding : Coding} {data : List UInt8} {s : Source}

/-! ## Sources on their way -/

/-- A source that took all of a buffer. -/
structure Spent (data : List UInt8) (s : Source) : Prop where
  rest : s.rest = []
  taken : s.taken = data.length

/-- A source on its way through a buffer: it took what goes with the bytes that it handed out, or it
was asked for more than there is. -/
def OnWay (coding : Coding) (data : List UInt8) (s : Source) : Prop :=
  (∃ got used, (ofBytes coding data).Takes got used s) ∨ s.Spent data

/-- The payload in the bytes of a buffer that a source took. -/
def delivered (coding : Coding) (data : List UInt8) (s : Source) : List UInt8 :=
  (ofBytes coding (data.take s.taken)).payload

theorem onWay_ofBytes (coding : Coding) (data : List UInt8) :
    (ofBytes coding data).OnWay coding data := .inl ⟨[], [], .refl _⟩

theorem payload_of_rest_nil (h : s.rest = []) : s.payload = [] := by
  unfold payload
  rw [h]
  cases s.coding <;> rfl

/-- Where no byte is handed out, what was left is taken, were it an escape byte. -/
theorem rest_of_next_none {s' : Source} (h : s.next = (none, s')) :
    s'.rest = [] ∧ s'.taken = s.taken + s.rest.length := by
  unfold next at h
  split at h
  · next empty =>
    obtain ⟨-, rfl⟩ := Prod.mk.inj h
    rw [empty]
    exact ⟨rfl, rfl⟩
  · next b rest some =>
    rw [some]
    split at h
    · split at h
      · obtain ⟨-, rfl⟩ := Prod.mk.inj h
        exact ⟨rfl, rfl⟩
      · exact absurd h (by simp)
    · exact absurd h (by simp)

theorem Takes.split {got used : List UInt8} (h : (ofBytes coding data).Takes got used s) :
    data = used ++ s.rest ∧ s.taken = used.length := by
  refine ⟨h.rest, ?_⟩
  rw [h.taken]
  exact Nat.zero_add _

theorem Spent.next (h : s.Spent data) : s.next.2.Spent data := by
  have last : s.next = (none, s) := by
    unfold Source.next
    rw [h.rest]
  rw [last]
  exact h

theorem Spent.readFrom (h : s.Spent data) (got : List UInt8) (count : Nat) :
    (readFrom got count s).2.Spent data := by
  cases count with
  | zero => exact h
  | succ count =>
    have none : s.next.1 = none := by
      rw [next_fst, payload_of_rest_nil h.rest]
      rfl
    rw [Source.readFrom]
    split
    · next found => exact absurd none (by simp [found])
    · next found =>
      have after := h.next
      rwa [found] at after

namespace OnWay

theorem next (h : s.OnWay coding data) : s.next.2.OnWay coding data := by
  rcases h with ⟨got, used, takes⟩ | spent
  · cases found : s.next with
    | mk first s' =>
      cases first with
      | some b =>
        obtain ⟨more, takes'⟩ := takes_next (congrArg Prod.fst found)
        rw [found] at takes'
        exact .inl ⟨_, _, takes.trans takes'⟩
      | none =>
        obtain ⟨rest, taken⟩ := rest_of_next_none found
        obtain ⟨whole, place⟩ := takes.split
        refine .inr ⟨rest, ?_⟩
        rw [taken, place, whole, List.length_append]
  · exact .inr spent.next

theorem readFrom (h : s.OnWay coding data) (got : List UInt8) (count : Nat) :
    (readFrom got count s).2.OnWay coding data := by
  induction count generalizing got s with
  | zero => exact h
  | succ count ih =>
    have after := h.next
    rw [Source.readFrom]
    split
    · next found =>
      rw [found] at after
      exact ih after _
    · next found =>
      rw [found] at after
      exact after

theorem read (h : s.OnWay coding data) (count : Nat) : (s.read count).2.OnWay coding data :=
  h.readFrom [] count

/-- A source that was asked for more than there is has taken all of the buffer. -/
theorem readFrom_spent (h : s.OnWay coding data) (got : List UInt8) {count : Nat}
    (short : s.payload.length < count) : (Source.readFrom got count s).2.Spent data := by
  induction count generalizing got s with
  | zero => exact absurd short (Nat.not_lt_zero _)
  | succ count ih =>
    have after := h.next
    have left := payload_next s
    rw [Source.readFrom]
    split
    · next found =>
      rw [found] at after left
      refine ih after _ ?_
      rw [payload_of_next found, List.length_cons] at short
      exact Nat.lt_of_succ_lt_succ short
    · next s' found =>
      obtain ⟨rest, taken⟩ := rest_of_next_none found
      rcases h with ⟨got, used, takes⟩ | spent
      · obtain ⟨whole, place⟩ := takes.split
        refine ⟨rest, ?_⟩
        rw [taken, place, whole, List.length_append]
      · have stays := spent.next
        rwa [found] at stays

/-- What a source handed out and what it still holds are the payload of the buffer. -/
theorem delivered_append (h : s.OnWay coding data) :
    s.delivered coding data ++ s.payload = (ofBytes coding data).payload := by
  unfold delivered
  rcases h with ⟨got, used, takes⟩ | spent
  · obtain ⟨whole, place⟩ := takes.split
    have front : (ofBytes coding used).payload = got := by
      have some := takes.payload []
      rw [List.append_nil, payload_of_rest_nil (s := { s with rest := [] }) rfl,
        List.append_nil] at some
      exact some
    have all : (ofBytes coding data).payload = got ++ s.payload := by
      rw [whole]
      exact takes.payload s.rest
    rw [place, whole, List.take_left, front, ← whole, all]
  · rw [spent.taken, List.take_length, payload_of_rest_nil spent.rest, List.append_nil]

theorem rest_eq (h : s.OnWay coding data) : s.rest = data.drop s.taken := by
  rcases h with ⟨got, used, takes⟩ | spent
  · obtain ⟨whole, place⟩ := takes.split
    rw [place, whole, List.drop_left]
  · rw [spent.rest, spent.taken, List.drop_length]

end OnWay

/-! ## Reads in a row -/

/-- What reads of the given sizes hand out, one after the other, and the source behind them. -/
def readEach : List Nat → Source → List (List UInt8) × Source
  | [], s => ([], s)
  | size :: sizes, s =>
    let (piece, s) := s.read size
    let (pieces, s) := s.readEach sizes
    (piece :: pieces, s)

theorem readEach_cons (size : Nat) (sizes : List Nat) (s : Source) :
    s.readEach (size :: sizes)
      = ((s.read size).1 :: ((s.read size).2.readEach sizes).1,
          ((s.read size).2.readEach sizes).2) := rfl

theorem readEach_flatten (sizes : List Nat) (s : Source) :
    (s.readEach sizes).1.flatten = s.payload.take sizes.sum := by
  induction sizes generalizing s with
  | nil => simp [readEach]
  | cons size sizes ih =>
    rw [readEach_cons, List.flatten_cons, ih, read_fst, payload_read, List.sum_cons, List.take_add]

/-- No read hands out more than it was asked for. -/
theorem readEach_le (sizes : List Nat) (s : Source) :
    List.Forall₂ (fun piece size => piece.length ≤ size) (s.readEach sizes).1 sizes := by
  induction sizes generalizing s with
  | nil => exact .nil
  | cons size sizes ih =>
    rw [readEach_cons]
    refine .cons ?_ (ih _)
    rw [read_fst]
    exact List.length_take_le _ _

/-- With enough for all of them, every read hands out what it was asked for. -/
theorem readEach_of_le {sizes : List Nat} {s : Source} (enough : sizes.sum ≤ s.payload.length) :
    (s.readEach sizes).1.map List.length = sizes
      ∧ (s.readEach sizes).2 = s.advance sizes.sum := by
  induction sizes generalizing s with
  | nil => exact ⟨rfl, rfl⟩
  | cons size sizes ih =>
    rw [List.sum_cons] at enough
    have first : size ≤ s.payload.length := by omega
    have others : sizes.sum ≤ (s.read size).2.payload.length := by
      rw [payload_read, List.length_drop]
      omega
    obtain ⟨lengths, behind⟩ := ih others
    rw [readEach_cons]
    constructor
    · rw [List.map_cons, lengths, read_fst, List.length_take, Nat.min_eq_left first]
    · rw [behind, read_snd first, advance_add, List.sum_cons]

/-- With too little for them, all of the buffer is taken. -/
theorem OnWay.readEach_spent (h : s.OnWay coding data) {sizes : List Nat}
    (short : s.payload.length < sizes.sum) : (s.readEach sizes).2.Spent data := by
  have stays : ∀ (sizes : List Nat) (s : Source),
      s.Spent data → (s.readEach sizes).2.Spent data := by
    intro sizes
    induction sizes with
    | nil => exact fun s spent => spent
    | cons size sizes ih => exact fun s spent => ih _ (spent.readFrom [] size)
  induction sizes generalizing s with
  | nil => exact absurd short (by simp)
  | cons size sizes ih =>
    rw [readEach_cons]
    by_cases first : s.payload.length < size
    · exact stays sizes _ (h.readFrom_spent [] first)
    · refine ih (h.read size) ?_
      rw [List.sum_cons] at short
      rw [payload_read, List.length_drop]
      omega

/-- The bytes that go with the front of the payload are the shortest front that has it. -/
theorem shortestFront_advance {count : Nat} (enough : count ≤ (strip data).length) :
    ShortestFront data count ((ofBytes .escaped data).advance count).taken := by
  obtain ⟨used, takes⟩ := exists_takes (s := ofBytes .escaped data) enough
  generalize (ofBytes .escaped data).advance count = s at takes ⊢
  obtain ⟨whole, place⟩ := takes.split
  have width : ((ofBytes .escaped data).payload.take count).length = count :=
    List.length_take_of_le enough
  have front : data.take used.length = used := by rw [whole, List.take_left]
  rw [place]
  refine ⟨?_, ?_, fun m fewer => ?_⟩
  · rw [whole, List.length_append]
    exact Nat.le_add_right _ _
  · have some := takes.payload []
    rw [List.append_nil, payload_of_rest_nil (s := { s with rest := [] }) rfl,
      List.append_nil] at some
    rw [front]
    exact (congrArg List.length some).trans width
  · have less := (takes.cut (used.take m) (List.take_prefix m used) (by
      rw [List.length_take]
      omega)).2
    rw [width, ← front, List.take_take, Nat.min_eq_left (Nat.le_of_lt fewer)] at less
    exact Nat.ne_of_lt less

/-! ## Counters that stop -/

/-- A request for a byte to a source that does not count zeros beyond a limit. -/
def saturating (limit : Nat) (s : Source) : Option UInt8 × Source :=
  (s.next.1, { s.next.2 with zeros := min s.next.2.zeros limit })

/-- Continues a read, after the bytes that `got` holds in reverse, with requests of one kind. -/
def readBy (request : Source → Option UInt8 × Source) (got : List UInt8) :
    Nat → Source → List UInt8 × Source
  | 0, s => (got.reverse, s)
  | count + 1, s =>
    match request s with
    | (some b, s) => readBy request (b :: got) count s
    | (none, s) => (got.reverse, s)

/-- What reads of the given sizes hand out, with requests of one kind. -/
def readEachBy (request : Source → Option UInt8 × Source) :
    List Nat → Source → List (List UInt8) × Source
  | [], s => ([], s)
  | size :: sizes, s =>
    let (piece, s) := readBy request [] size s
    let (pieces, s) := readEachBy request sizes s
    (piece :: pieces, s)

/-- Sources that differ at most in how many zeros they counted beyond a limit. -/
def SameUpTo (limit : Nat) (s s' : Source) : Prop :=
  s' = { s with zeros := s'.zeros } ∧ min s.zeros limit = min s'.zeros limit

theorem SameUpTo.next {limit : Nat} (two : 2 ≤ limit) {s s' : Source} (h : s.SameUpTo limit s') :
    s'.next.1 = s.next.1 ∧ s.next.2.SameUpTo limit s'.next.2 := by
  obtain ⟨coding, rest, taken, zeros⟩ := s
  obtain ⟨coding', rest', taken', zeros'⟩ := s'
  obtain ⟨same, counted⟩ := h
  obtain ⟨rfl, rfl, rfl, -⟩ := Source.mk.inj same
  replace counted : min zeros limit = min zeros' limit := counted
  -- two zeros are all that the next byte depends on
  have alike : ∀ b, (Source.mk coding' rest' taken' zeros').atEscape b
      = (Source.mk coding' rest' taken' zeros).atEscape b := by
    intro b
    have enough : 2 ≤ zeros' ↔ 2 ≤ zeros := by omega
    simp only [atEscape, enough]
  unfold Source.next
  cases rest' with
  | nil => exact ⟨rfl, rfl, counted⟩
  | cons b rest =>
    simp only [alike]
    split
    · cases rest with
      | nil => exact ⟨rfl, rfl, rfl⟩
      | cons c rest => exact ⟨rfl, rfl, rfl⟩
    · refine ⟨rfl, rfl, ?_⟩
      simp only [zeroRun]
      split <;> omega

theorem SameUpTo.saturating {limit : Nat} (two : 2 ≤ limit) {s s' : Source}
    (h : s.SameUpTo limit s') :
    (s'.saturating limit).1 = s.next.1 ∧ s.next.2.SameUpTo limit (s'.saturating limit).2 := by
  obtain ⟨first, same, counted⟩ := h.next two
  refine ⟨first, ?_, ?_⟩
  · unfold Source.saturating
    rw [same]
  · unfold Source.saturating
    simp only [Nat.min_assoc, Nat.min_self]
    exact counted

theorem SameUpTo.readBy {limit : Nat} (two : 2 ≤ limit) {s s' : Source} (h : s.SameUpTo limit s')
    (got : List UInt8) (count : Nat) :
    (readBy (Source.saturating limit) got count s').1 = (readFrom got count s).1
      ∧ (readFrom got count s).2.SameUpTo limit
          (readBy (Source.saturating limit) got count s').2 := by
  induction count generalizing got s s' with
  | zero => exact ⟨rfl, h⟩
  | succ count ih =>
    obtain ⟨first, after⟩ := h.saturating two
    rw [Source.readBy, readFrom]
    cases found : s.next with
    | mk b t =>
      cases found' : Source.saturating limit s' with
      | mk b' t' =>
        rw [found, found'] at first after
        obtain rfl : b' = b := first
        cases b' with
        | some b => exact ih after (b :: got)
        | none => exact ⟨rfl, after⟩

/-- A counter that stops at a limit, of two zeros or more, changes neither what reads hand out nor
what they take. -/
theorem readEachBy_saturating {limit : Nat} (two : 2 ≤ limit) (sizes : List Nat) (s : Source) :
    (readEachBy (saturating limit) sizes s).1 = (s.readEach sizes).1
      ∧ (s.readEach sizes).2.SameUpTo limit (readEachBy (saturating limit) sizes s).2 := by
  have all : ∀ s s' : Source, s.SameUpTo limit s' →
      (readEachBy (saturating limit) sizes s').1 = (s.readEach sizes).1
        ∧ (s.readEach sizes).2.SameUpTo limit (readEachBy (saturating limit) sizes s').2 := by
    induction sizes with
    | nil => exact fun s s' same => ⟨rfl, same⟩
    | cons size sizes ih =>
      intro s s' same
      obtain ⟨piece, after⟩ := same.readBy two [] size
      obtain ⟨pieces, last⟩ := ih _ _ after
      refine ⟨?_, last⟩
      show (Source.readBy _ _ _ _).1 :: _ = _
      rw [piece, pieces]
      rfl
  exact all s s ⟨rfl, rfl⟩

/-! ## Any sizes -/

/-- What is promised of reads of the given sizes from an escaped buffer, of which `pieces` were
handed out and which left the source at `s`. -/
structure Streams (data : List UInt8) (sizes : List Nat) (pieces : List (List UInt8))
    (s : Source) : Prop where
  /-- Joined, the pieces are the front of the stripped data. -/
  joined : pieces.flatten = (strip data).take (min sizes.sum (strip data).length)
  atMost : List.Forall₂ (fun piece size => piece.length ≤ size) pieces sizes
  /-- A read is short only where it leaves nothing of the buffer. -/
  exhausted : ∀ before size, before ++ [size] <+: sizes →
    (((ofBytes .escaped data).readEach before).2.read size).1.length < size →
      (((ofBytes .escaped data).readEach before).2.read size).2.rest = []
  /-- The source is that far in the buffer. -/
  place : s.rest = data.drop s.taken
  /-- Without a short read no byte is taken that is not needed. -/
  full : pieces.map List.length = sizes → ShortestFront data sizes.sum s.taken
  /-- Behind a short read all bytes are taken. -/
  short : pieces.map List.length ≠ sizes → s.taken = data.length
  /-- The same is handed out and taken by a source that counts zeros up to a limit only. -/
  counter : ∀ limit, 2 ≤ limit → ∃ zeros,
    readEachBy (saturating limit) sizes (ofBytes .escaped data) = (pieces, { s with zeros })

theorem OnWay.readEach (h : s.OnWay coding data) (sizes : List Nat) :
    (s.readEach sizes).2.OnWay coding data := by
  induction sizes generalizing s with
  | nil => exact h
  | cons size sizes ih => exact ih (h.read size)

/-- Reading an escaped buffer in pieces of any sizes is stripping it, and takes just what is
needed. -/
theorem streams (data : List UInt8) (sizes : List Nat) :
    Streams data sizes ((ofBytes .escaped data).readEach sizes).1
      ((ofBytes .escaped data).readEach sizes).2 := by
  have start := onWay_ofBytes .escaped data
  have joined := readEach_flatten sizes (ofBytes .escaped data)
  refine ⟨?_, readEach_le sizes _, ?_, (start.readEach sizes).rest_eq, fun full => ?_,
    fun short => ?_, fun limit two => ?_⟩
  · rw [joined, ← List.take_take, List.take_length]
    rfl
  · intro before size _ short
    refine ((start.readEach before).readFrom_spent [] ?_).rest
    rw [read_fst, List.length_take] at short
    omega
  · -- as many bytes were handed out as were asked for, so there were as many
    have enough : sizes.sum ≤ (strip data).length := by
      have lengths := congrArg List.length joined
      rw [List.length_flatten, full, List.length_take] at lengths
      exact lengths ▸ Nat.min_le_right _ _
    rw [(readEach_of_le enough).2]
    exact shortestFront_advance enough
  · refine (start.readEach_spent ?_).taken
    refine Nat.lt_of_not_le fun enough => short ?_
    exact (readEach_of_le enough).1
  · obtain ⟨pieces, same, -⟩ := readEachBy_saturating two sizes (ofBytes .escaped data)
    exact ⟨(readEachBy (saturating limit) sizes (ofBytes .escaped data)).2.zeros,
      Prod.ext pieces same⟩

/-- The second read ends in front of an escape byte, the third takes it, and the last one finds
another at the end of the data. -/
example :
    ((ofBytes .escaped [0, 0, 3, 0, 0, 3]).readEach [1, 1, 0, 1, 9]).1 = [[0], [0], [], [0], [0]]
      ∧ ((ofBytes .escaped [0, 0, 3, 0, 0, 3]).readEach [1, 1, 0]).2.taken = 2
      ∧ ((ofBytes .escaped [0, 0, 3, 0, 0, 3]).readEach [1, 1, 0, 1]).2.taken = 4
      ∧ ((ofBytes .escaped [0, 0, 3, 0, 0, 3]).readEach [1, 1, 0, 1, 9]).2.taken = 6 := by
  decide

end Source

end Hevc
