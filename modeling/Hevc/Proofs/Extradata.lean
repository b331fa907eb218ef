import Hevc.Extradata
import Hevc.Proofs.LengthPrefixed
import Hevc.Proofs.Word

/-!
# What is made of extradata

The place of the second length depends on the first, so where the two sets of extradata lie is said
by their sizes alone. Whatever the ignored bytes are, and whatever follows the second set, the sets
are found if there is room for both, and the data is refused if there is not.

* `takeSet_of_room`, `takeSet_of_short` — one set
* `sets_of_room`, `sets_of_short` — both sets, the second behind the first
* `toStream_exact` — when extradata is turned into a stream, into which, and what is found in it
-/

namespace Hevc.Extradata

/-! ## Places -/

/-- The number that the two bytes at a place write. A byte that is not there counts as zero. -/
def sizeAt (data : List UInt8) (place : Nat) : Nat :=
  256 * (data.getD place 0).toNat + (data.getD (place + 1) 0).toNat

/-- So many bytes from a place on. -/
def slice (data : List UInt8) (start size : Nat) : List UInt8 := (data.drop start).take size

/-- The size that extradata gives for its sequence parameter set. -/
def spsSize (data : List UInt8) : Nat := sizeAt data 7

/-- The size that it gives for its picture parameter set, behind the other. -/
def ppsSize (data : List UInt8) : Nat := sizeAt data (9 + spsSize data)

/-- The bytes of the sequence parameter set. -/
def spsOf (data : List UInt8) : List UInt8 := slice data 9 (spsSize data)

/-- The bytes of the picture parameter set. -/
def ppsOf (data : List UInt8) : List UInt8 := slice data (11 + spsSize data) (ppsSize data)

/-- Two sets, each behind a start code. -/
def joined (sps pps : List UInt8) : List UInt8 := longStartCode ++ sps ++ longStartCode ++ pps

/-- Extradata that has room for both of its sets. -/
structure Complete (data : List UInt8) : Prop where
  long : minSize ≤ data.length
  version : data.head? = some version
  room : 11 + spsSize data + ppsSize data ≤ data.length

theorem sizeAt_of_drop {data rest : List UInt8} {place : Nat} {high low : UInt8}
    (h : data.drop place = high :: low :: rest) :
    sizeAt data place = 256 * high.toNat + low.toNat := by
  have first : data[place]? = some high := by
    rw [← Nat.add_zero place, ← List.getElem?_drop, h]
    rfl
  have second : data[place + 1]? = some low := by
    rw [← List.getElem?_drop, h]
    rfl
  rw [sizeAt, List.getD_eq_getElem?_getD, List.getD_eq_getElem?_getD, first, second]
  rfl

/-! ## Sets -/

/-- A fault that is reported as one of the data. -/
def Blamed (fault : Fault) : Prop := fault.toError = .invalidData fault

/-- A set that has room in the data is found there. -/
theorem takeSet_of_room {data : List UInt8} {place : Nat} (type : NalType)
    (room : place + 2 + sizeAt data place ≤ data.length) :
    takeSet type data place
      = .ok (slice data (place + 2) (sizeAt data place), place + 2 + sizeAt data place) := by
  unfold takeSet
  split
  · next high low rest front =>
    have size := sizeAt_of_drop front
    have behind : data.drop (place + 2) = rest := by
      rw [← List.drop_drop, front]
      rfl
    have enough : sizeAt data place ≤ rest.length := by
      rw [← behind, List.length_drop]
      omega
    rw [slice, behind]
    simp only [← size]
    rw [if_pos enough]
  · next few =>
    -- its two bytes of length are there
    obtain ⟨high, low, rest, front⟩ : ∃ high low rest, data.drop place = high :: low :: rest := by
      have length : 2 ≤ (data.drop place).length := by
        rw [List.length_drop]
        omega
      match data.drop place, length with
      | high :: low :: rest, _ => exact ⟨high, low, rest, rfl⟩
    exact absurd front (few high low rest)

/-- A set that has none is refused. -/
theorem takeSet_of_short {data : List UInt8} {place : Nat} (type : NalType)
    (short : data.length < place + 2 + sizeAt data place) :
    ∃ fault, takeSet type data place = .error fault ∧ Blamed fault ∧ fault ≠ .arithmetic := by
  unfold takeSet
  split
  · next high low rest front =>
    have size := sizeAt_of_drop front
    have length := congrArg List.length front
    rw [List.length_drop, List.length_cons, List.length_cons] at length
    simp only [← size]
    rw [if_neg (by omega), Word.sub?_of_le (by omega)]
    exact ⟨_, rfl, rfl, nofun⟩
  · exact ⟨_, rfl, rfl, nofun⟩

section

variable {data : List UInt8}

theorem takeSps_of_room (room : 9 + spsSize data ≤ data.length) :
    takeSet .sps data headerSize = .ok (spsOf data, 9 + spsSize data) :=
  takeSet_of_room .sps room

theorem sets_of_room (room : 11 + spsSize data + ppsSize data ≤ data.length) :
    sets data = .ok (spsOf data, ppsOf data) := by
  have behind : 9 + spsSize data + 2 = 11 + spsSize data := by omega
  have there : 9 + spsSize data + 2 + sizeAt data (9 + spsSize data) ≤ data.length := by
    rw [behind]
    exact room
  have second := takeSet_of_room .pps there
  rw [sets, takeSps_of_room (by omega)]
  show (takeSet .pps data (9 + spsSize data) >>= _) = _
  rw [second, behind]
  rfl

theorem sets_of_short (short : data.length < 11 + spsSize data + ppsSize data) :
    ∃ fault, sets data = .error fault ∧ Blamed fault ∧ fault ≠ .arithmetic := by
  by_cases room : 9 + spsSize data ≤ data.length
  · have behind : 9 + spsSize data + 2 = 11 + spsSize data := by omega
    have beyond : data.length < 9 + spsSize data + 2 + sizeAt data (9 + spsSize data) := by
      rw [behind]
      exact short
    obtain ⟨fault, refused, blamed⟩ := takeSet_of_short .pps beyond
    refine ⟨fault, ?_, blamed⟩
    rw [sets, takeSps_of_room room]
    show (takeSet .pps data (9 + spsSize data) >>= _) = _
    rw [refused]
    rfl
  · have beyond : data.length < headerSize + 2 + sizeAt data headerSize := Nat.lt_of_not_le room
    obtain ⟨fault, refused, blamed⟩ := takeSet_of_short .sps beyond
    refine ⟨fault, ?_, blamed⟩
    rw [sets, refused]
    rfl

end

/-! ## Written sets -/

/-- Extradata as it is written: the version, the ignored bytes, and each set behind its length. -/
def layout (ignored sps pps : List UInt8) : List UInt8 :=
  version :: (ignored ++ (bigEndian 2 sps.length ++ sps ++ (bigEndian 2 pps.length ++ pps)))

/-- A length is read where it was written. -/
theorem sizeAt_of_bigEndian {data rest : List UInt8} {place n : Nat} (small : n < 2 ^ 16)
    (h : data.drop place = bigEndian 2 n ++ rest) : sizeAt data place = n := by
  rw [sizeAt_of_drop (show data.drop place = UInt8.ofNat (n >>> 8) :: UInt8.ofNat n :: rest from h),
    UInt8.toNat_ofNat', UInt8.toNat_ofNat', Nat.shiftRight_eq_div_pow]
  omega

/-- A set is found behind its length. -/
theorem slice_of_drop {data set rest : List UInt8} {place n : Nat}
    (h : data.drop place = bigEndian 2 n ++ (set ++ rest)) :
    slice data (place + 2) set.length = set := by
  rw [slice, ← List.drop_drop, h, List.drop_left' (length_bigEndian 2 n), List.take_left]

section

variable {ignored sps pps : List UInt8}

theorem drop_layout (width : ignored.length = 6) (rest : List UInt8) :
    (layout ignored sps pps ++ rest).drop 7
      = bigEndian 2 sps.length ++ (sps ++ (bigEndian 2 pps.length ++ (pps ++ rest))) := by
  rw [layout, List.cons_append, List.drop_succ_cons, List.append_assoc, List.drop_left' width]
  simp only [List.append_assoc]

/-- Neither the ignored bytes nor what follows has a part in where the sets are found. -/
theorem complete_layout (width : ignored.length = 6) (first : sps.length < 2 ^ 16)
    (second : pps.length < 2 ^ 16) (rest : List UInt8) :
    Complete (layout ignored sps pps ++ rest) ∧ spsOf (layout ignored sps pps ++ rest) = sps
      ∧ ppsOf (layout ignored sps pps ++ rest) = pps := by
  have front : (layout ignored sps pps ++ rest).drop 7 = _ := drop_layout width rest
  have total : (layout ignored sps pps ++ rest).length
      = 11 + sps.length + pps.length + rest.length := by
    simp only [layout, List.cons_append, List.length_cons, List.length_append, length_bigEndian,
      width]
    omega
  have known : (layout ignored sps pps ++ rest).head? = some version := rfl
  generalize layout ignored sps pps ++ rest = data at front total known ⊢
  have spsSize_eq : spsSize data = sps.length := sizeAt_of_bigEndian first front
  have behind : data.drop (9 + sps.length)
      = bigEndian 2 pps.length ++ (pps ++ rest) := by
    rw [show 9 + sps.length = 7 + (2 + sps.length) by omega, ← List.drop_drop, front,
      ← List.drop_drop, List.drop_left' (length_bigEndian _ _), List.drop_left]
  have ppsSize_eq : ppsSize data = pps.length := by
    rw [ppsSize, spsSize_eq]
    exact sizeAt_of_bigEndian second behind
  refine ⟨⟨?_, known, ?_⟩, ?_, ?_⟩
  · rw [minSize]
    omega
  · rw [spsSize_eq, ppsSize_eq]
    omega
  · rw [spsOf, spsSize_eq]
    exact slice_of_drop front
  · have place : 11 + sps.length = 9 + sps.length + 2 := by omega
    rw [ppsOf, spsSize_eq, ppsSize_eq, place]
    exact slice_of_drop behind

end

/-! ## Streams -/

theorem toStream_of_stream {data : List UInt8} (h : startsWithStartCode data = true) :
    toStream data = .ok [] := by
  rw [toStream, if_pos h]

theorem toStream_of_complete {data : List UInt8} (other : startsWithStartCode data = false)
    (h : Complete data) : toStream data = .ok (joined (spsOf data) (ppsOf data)) := by
  rw [toStream, other, if_neg Bool.false_ne_true, if_neg (Nat.not_lt_of_le h.long), h.version]
  simp only [ne_eq, not_true_eq_false, if_false]
  rw [sets_of_room h.room]
  rfl

theorem toStream_of_not_complete {data : List UInt8} (other : startsWithStartCode data = false)
    (h : ¬Complete data) :
    ∃ fault, toStream data = .error (.invalidData fault) ∧ fault ≠ .arithmetic := by
  rw [toStream, other, if_neg Bool.false_ne_true]
  split
  · exact ⟨_, rfl, nofun⟩
  · next long =>
    split
    · next first front =>
      split
      · exact ⟨_, rfl, nofun⟩
      · next known =>
        -- what is wrong is that there is no room
        have short : data.length < 11 + spsSize data + ppsSize data := by
          refine Nat.lt_of_not_le fun room => h ⟨Nat.le_of_not_lt long, ?_, room⟩
          rw [front, of_not_not known]
        obtain ⟨fault, refused, blamed, inWords⟩ := sets_of_short short
        exact ⟨fault, by rw [refused]; exact congrArg Except.error blamed, inWords⟩
    · exact ⟨_, rfl, nofun⟩

/-- A buffer that is turned into a stream is complete, and the stream is that of its sets. -/
theorem of_toStream {data stream : List UInt8} (other : startsWithStartCode data = false)
    (given : toStream data = .ok stream) :
    Complete data ∧ stream = joined (spsOf data) (ppsOf data) := by
  by_cases complete : Complete data
  · exact ⟨complete, Except.ok.inj (given.symm.trans (toStream_of_complete other complete))⟩
  · obtain ⟨fault, refused, -⟩ := toStream_of_not_complete other complete
    exact absurd (refused.symm.trans given) (by simp)

theorem joined_ne_nil (sps pps : List UInt8) : joined sps pps ≠ [] := by
  simp [joined, longStartCode]

/-- Sets that can be put behind start codes are found again. -/
theorem units_joined {sps pps : List UInt8} (first : Stream.IsUnit sps)
    (second : Stream.IsUnit pps) : Stream.units (joined sps pps) = [sps, pps] := by
  have codes : ∀ part ∈ [(longStartCode, sps), (longStartCode, pps)],
      part.1 ∈ Stream.startCodes := by
    simp [Stream.startCodes]
  have units : ∀ part ∈ [(longStartCode, sps), (longStartCode, pps)], Stream.IsUnit part.2 := by
    simpa using ⟨first, second⟩
  have found := Stream.units_delimited codes units
  simpa [Stream.delimited, joined] using found

/-- What buffers come to that are handed over as extradata. -/
structure Converts (data : List UInt8) : Prop where
  /-- A stream gives the empty result, and nothing else does. -/
  nothing : toStream data = .ok [] ↔ startsWithStartCode data = true
  /-- Any other buffer is turned into a stream if it is complete, and only then. -/
  accepted : startsWithStartCode data = false →
    ((∃ stream, toStream data = .ok stream) ↔ Complete data)
  stream : startsWithStartCode data = false → Complete data →
    toStream data = .ok (joined (spsOf data) (ppsOf data))
  /-- Otherwise the data is blamed. -/
  refused : startsWithStartCode data = false → ¬Complete data →
    ∃ fault, toStream data = .error (.invalidData fault)
  /-- Sets that can be put behind start codes are found in the stream. -/
  units : startsWithStartCode data = false → ∀ stream, toStream data = .ok stream →
    Stream.IsUnit (spsOf data) → Stream.IsUnit (ppsOf data) →
      Stream.units stream = [spsOf data, ppsOf data]

theorem converts (data : List UInt8) : Converts data where
  nothing := by
    refine ⟨fun given => ?_, toStream_of_stream⟩
    cases other : startsWithStartCode data with
    | true => rfl
    | false => exact absurd (of_toStream other given).2.symm (joined_ne_nil _ _)
  accepted := by
    intro other
    exact ⟨fun ⟨_, given⟩ => (of_toStream other given).1,
      fun complete => ⟨_, toStream_of_complete other complete⟩⟩
  stream := toStream_of_complete
  refused := by
    intro other incomplete
    obtain ⟨fault, blamed, -⟩ := toStream_of_not_complete other incomplete
    exact ⟨fault, blamed⟩
  units := by
    intro other stream given first second
    rw [(of_toStream other given).2]
    exact units_joined first second

/-- Extradata is turned into the stream of its two sets if there is room for them, whatever the
ignored bytes and whatever follows. Data that has none is refused, and a stream is not turned into
another one. -/
theorem toStream_exact :
    (∀ data, Converts data)
      ∧ ∀ ignored sps pps rest : List UInt8, ignored.length = 6 → sps.length < 2 ^ 16 →
          pps.length < 2 ^ 16 →
          toStream (layout ignored sps pps ++ rest) = .ok (joined sps pps) := by
  refine ⟨converts, fun ignored sps pps rest width first second => ?_⟩
  obtain ⟨complete, sps_eq, pps_eq⟩ := complete_layout width first second rest
  have other : startsWithStartCode (layout ignored sps pps ++ rest) = false := rfl
  have given := toStream_of_complete other complete
  rwa [sps_eq, pps_eq] at given

/-- A sequence parameter set with zero bytes inside it, with bytes in front of it and behind the
picture parameter set that look like start codes. -/
theorem toStream_exact_startCodes :
    [0, 0, 1, 0, 0, 1].length = 6
      ∧ toStream (layout [0, 0, 1, 0, 0, 1] [0x42, 0, 0, 3, 1] [0x44] ++ [0, 0, 1, 0x4e])
        = .ok [0, 0, 0, 1, 0x42, 0, 0, 3, 1, 0, 0, 0, 1, 0x44]
      ∧ Stream.units [0, 0, 0, 1, 0x42, 0, 0, 3, 1, 0, 0, 0, 1, 0x44]
        = [[0x42, 0, 0, 3, 1], [0x44]] := by
  have stream := toStream_exact.2 [0, 0, 1, 0, 0, 1] [0x42, 0, 0, 3, 1] [0x44] [0, 0, 1, 0x4e] rfl
    (by decide) (by decide)
  refine ⟨rfl, stream, ?_⟩
  exact (toStream_exact.1 _).units rfl _ stream ⟨by decide, by decide, by decide⟩
    ⟨by decide, by decide, by decide⟩

end Hevc.Extradata
