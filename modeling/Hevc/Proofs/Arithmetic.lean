import Hevc.Proofs.Extradata
import Hevc.Proofs.Record.Convert
import Hevc.Proofs.Stream
import Hevc.Proofs.WordRun

/-!
# Arithmetic on hostile bytes

Whatever the bytes are, the arithmetic on them stays inside machine words, and nothing is cut out
of them that they do not have. The decoders run on words; what is computed beside them has a bound
of its own.

* `Record.decoder_safe` — the reading of a configuration record
* `Sps.Sized.derived` — the sizes and bit depths of a sequence parameter set
* `Extradata.takeSet_inside`, `Extradata.toStream_ne_arithmetic` — what is cut out of extradata
* `arithmetic_inWords` — all of it, for every buffer
-/

namespace Hevc

open Decoder

/-! ## Configuration records -/

namespace Record

theorem version_safe : versionDecoder.Safe Fault.OfData (fun _ => True) [8].sum := by
  refine .bind (.bits 8) fun found _ => ?_
  exact .ite (fun _ => .pure trivial) fun _ => .fail ⟨rfl, nofun⟩

theorem profile_safe :
    profileDecoder.Safe Fault.OfData (fun _ => True) [2, 1, 5, 32, 48, 8].sum := by
  refine .bind (.bits 2) fun space _ => ?_
  refine .bind .flag fun highTier _ => ?_
  refine .bind (.bits 5) fun idc _ => ?_
  refine .bind (.bits 32) fun compatibility _ => ?_
  refine .bind (.bits 48) fun constraints _ => ?_
  exact .bind (.bits 8) fun level _ => .pure trivial

theorem frameRate_safe : frameRateDecoder.Safe Fault.OfData (fun _ => True) [2].sum := by
  refine .bind (.bits 2) fun code _ => ?_
  unfold ConstantFrameRate.ofCode
  split
  · exact .pure trivial
  · next fault refused =>
    split at refused
    all_goals cases refused
    exact .fail ⟨rfl, nofun⟩

theorem lengthSize_safe : lengthSizeDecoder.Safe Fault.OfData (fun _ => True) [2].sum := by
  refine .bind (.bits 2) fun size _ => ?_
  exact .ite (fun _ => .fail ⟨rfl, nofun⟩) fun _ => .pure trivial

theorem unit_safe :
    unitDecoder.Safe Fault.OfData (fun _ => True) [16, 65535 * 8].sum := by
  refine .bind (.bits 16) fun size small => ?_
  have few : size ≤ 65535 := by omega
  exact ((Safe.octets size).le (Nat.mul_le_mul_right 8 few)).weaken fun _ _ => trivial

theorem arrayHeader_safe : arrayHeader.Safe Fault.OfData (fun _ => True) [1, 1, 6].sum := by
  refine .bind .flag fun complete _ => ?_
  refine .bind (.bits 1) fun _ _ => ?_
  refine .bind (.bits 6) fun code _ => ?_
  exact .ite (fun _ => .pure trivial) fun _ => .fail ⟨rfl, nofun⟩

theorem array_safe :
    arrayDecoder.Safe Fault.OfData (fun _ => True) [8, 16, 65535 * 524296].sum := by
  refine .bind arrayHeader_safe fun header _ => ?_
  refine .bind (.bits 16) fun count small => ?_
  have few : count ≤ 65535 := by omega
  exact .bind ((Safe.many unit_safe count).le (Nat.mul_le_mul_right 524296 few)) fun _ _ =>
    .pure trivial

theorem decoder_safe :
    decoder.Safe Fault.OfData (fun _ => True)
      [8, 96, 4, 12, 6, 2, 6, 2, 5, 3, 5, 3, 16, 2, 3, 1, 2, 8, 255 * 34359738384].sum := by
  refine .bind version_safe fun _ _ => ?_
  refine .bind profile_safe fun profile _ => ?_
  refine .bind (.bits 4) fun _ _ => ?_
  refine .bind (.bits 12) fun minSpatialSegmentation _ => ?_
  refine .bind (.bits 6) fun _ _ => ?_
  refine .bind (.bits 2) fun parallelism _ => ?_
  refine .bind (.bits 6) fun _ _ => ?_
  refine .bind (.bits 2) fun chromaFormat _ => ?_
  refine .bind (.bits 5) fun _ _ => ?_
  refine .bind (.bits 3) fun bitDepthLumaMinus8 _ => ?_
  refine .bind (.bits 5) fun _ _ => ?_
  refine .bind (.bits 3) fun bitDepthChromaMinus8 _ => ?_
  refine .bind (.bits 16) fun avgFrameRate _ => ?_
  refine .bind frameRate_safe fun constantFrameRate _ => ?_
  refine .bind (.bits 3) fun numTemporalLayers _ => ?_
  refine .bind .flag fun temporalIdNested _ => ?_
  refine .bind lengthSize_safe fun lengthSizeMinusOne _ => ?_
  refine .bind (.bits 8) fun count small => ?_
  have few : count ≤ 255 := by omega
  exact .bind ((Safe.many array_safe count).le (Nat.mul_le_mul_right _ few)) fun _ _ =>
    .pure trivial

end Record

/-! ## Derived sizes -/

/-- The sums and products behind the sizes and bit depths of a sequence parameter set fit words of
64 bits, so that none of them is cut off at the greatest word. -/
structure Sps.DerivedInWords (s : Sps) : Prop where
  width : ∀ w ∈ s.conformanceWindow, s.subWidthC * (w.left + w.right) < 2 ^ 64
  height : ∀ w ∈ s.conformanceWindow, s.subHeightC * (w.top + w.bottom) < 2 ^ 64
  bitDepthLuma : s.bitDepthLuma < 2 ^ 64
  bitDepthChroma : s.bitDepthChroma < 2 ^ 64

theorem Sps.subWidthC_le (s : Sps) : s.subWidthC ≤ 2 := by
  unfold subWidthC
  split <;> omega

theorem Sps.subHeightC_le (s : Sps) : s.subHeightC ≤ 2 := by
  unfold subHeightC
  split <;> omega

/-- Values that are codes leave their sums and products far below the greatest word. -/
theorem Sps.Sized.derived {s : Sps} (h : s.Sized) : s.DerivedInWords where
  width := by
    intro w mem
    obtain ⟨left, right, -, -⟩ := h.conformanceWindow w mem
    have product := Nat.mul_le_mul_right (w.left + w.right) s.subWidthC_le
    rw [maxCode] at left right
    omega
  height := by
    intro w mem
    obtain ⟨-, -, top, bottom⟩ := h.conformanceWindow w mem
    have product := Nat.mul_le_mul_right (w.top + w.bottom) s.subHeightC_le
    rw [maxCode] at top bottom
    omega
  bitDepthLuma := by
    have luma := h.bitDepthLumaMinus8
    rw [maxCode] at luma
    unfold bitDepthLuma
    omega
  bitDepthChroma := by
    have chroma := h.bitDepthChromaMinus8
    rw [maxCode] at chroma
    unfold bitDepthChroma
    omega

/-! ## Extradata -/

namespace Extradata

/-- A set that is taken ends inside the data. -/
theorem takeSet_inside {type : NalType} {data set : List UInt8} {place next : Nat}
    (h : takeSet type data place = .ok (set, next)) :
    next = place + 2 + set.length ∧ next ≤ data.length := by
  by_cases room : place + 2 + sizeAt data place ≤ data.length
  · rw [takeSet_of_room type room] at h
    obtain ⟨rfl, rfl⟩ := Prod.mk.inj (Except.ok.inj h)
    have length : (slice data (place + 2) (sizeAt data place)).length = sizeAt data place := by
      rw [slice, List.length_take_of_le (by rw [List.length_drop]; omega)]
    exact ⟨by rw [length], room⟩
  · obtain ⟨fault, refused, -⟩ := takeSet_of_short type (Nat.lt_of_not_le room)
    rw [refused] at h
    exact absurd h (by simp)

theorem toStream_ne_arithmetic (data : List UInt8) :
    toStream data ≠ .error (.invalidData .arithmetic) := by
  cases stream : startsWithStartCode data with
  | true => simp [toStream_of_stream stream]
  | false =>
    by_cases complete : Complete data
    · simp [toStream_of_complete stream complete]
    · obtain ⟨fault, refused, other⟩ := toStream_of_not_complete stream complete
      simp [refused, other]

end Extradata

/-! ## All of it -/

/-- A run over a buffer is possible on machine words, and leads to the same there. -/
def Decoder.OnWords {α : Type} (d : Decoder α) (coding : Coding) (bytes : List UInt8) : Prop :=
  d.run? (.ofBytes coding bytes) = some (d.run (.ofBytes coding bytes))

theorem Decoder.Safe.onWords {α : Type} {P : α → Prop} {d : Decoder α} {n : Nat}
    (h : d.Safe Fault.OfData P n) (few : n < 2 ^ 64) (coding : Coding) (bytes : List UInt8) :
    d.OnWords coding bytes :=
  h.run?_eq (c := .ofBytes coding bytes) (show 0 < 8 by decide)
    (show 0 + n < 2 ^ 64 by omega)

/-- What is promised of a buffer, whatever it is read as. -/
structure InWords (bytes : List UInt8) : Prop where
  vps : (NalUnit.decoder .vps Vps.decoder).OnWords .escaped bytes
  sps : (NalUnit.decoder .sps Sps.decoder).OnWords .escaped bytes
  pps : (NalUnit.decoder .pps Pps.decoder).OnWords .escaped bytes
  profile : ∀ coding maxSubLayersMinus1,
    (ProfileTierLevel.decoder maxSubLayersMinus1).OnWords coding bytes
  record : Record.decoder.OnWords .plain bytes
  /-- The sizes and bit depths of a sequence parameter set that can be read. -/
  derived : ∀ unit, (Sps.read bytes).result = .ok unit → unit.payload.DerivedInWords
  /-- The scaling lists of such a set have a place for every factor. -/
  tables : ∀ unit, (Sps.read bytes).result = .ok unit →
    ∀ lists ∈ unit.payload.scalingLists, lists.FitTable
  /-- No length is taken from less than it. -/
  extradata : Extradata.toStream bytes ≠ .error (.invalidData .arithmetic)
  /-- A set of extradata lies inside it. -/
  sets : ∀ type place set next, Extradata.takeSet type bytes place = .ok (set, next) →
    next = place + 2 + set.length ∧ next ≤ bytes.length
  /-- A unit of a stream lies inside it, and what follows the unit too. -/
  units : ∀ unit rest, Stream.nextUnit? bytes = some (unit, rest) →
    (Stream.breakAtCode bytes).1.length + startCode.length + unit.length + rest.length
      ≤ bytes.length
  /-- The bytes written with lengths in front of the units can be counted all along. -/
  framed : ∀ before, before <+: LengthPrefixed.payloads bytes →
    (before.map fun payload => LengthPrefixed.lengthBytes + payload.length).sum < 2 ^ 64
  /-- A record counts the sub-layers of each parameter set in a byte. -/
  subLayers : ∀ set ∈ Record.parameterSets bytes, ∀ n ∈ set.subLayers?, n < 2 ^ 8
  built : ∀ options, Record.build options bytes ≠ .error (.invalidData .arithmetic)

/-- No buffer of a machine leads the arithmetic on it out of its words, or a place out of the
buffer. -/
theorem arithmetic_inWords {bytes : List UInt8} (short : bytes.length < 2 ^ 63) :
    InWords bytes where
  vps := (NalUnit.decoder_safe .vps Vps.decoder_safe).onWords (by decide) _ _
  sps := (NalUnit.decoder_safe .sps Sps.decoder_safe).onWords (by decide) _ _
  pps := (NalUnit.decoder_safe .pps Pps.decoder_safe).onWords (by decide) _ _
  profile := by
    intro coding maxSubLayersMinus1
    exact (ProfileTierLevel.decoder_safe maxSubLayersMinus1).onWords (by decide) _ _
  record := Record.decoder_safe.onWords (by decide) _ _
  derived := by
    intro unit read
    exact (NalUnit.ensures_of_read Sps.decoder_safe.ensures read).derived
  tables := by
    intro unit read
    exact (NalUnit.ensures_of_read Sps.decoder_safe.ensures read).scalingLists
  extradata := Extradata.toStream_ne_arithmetic bytes
  sets := fun _ _ _ _ taken => Extradata.takeSet_inside taken
  units := fun _ _ next => Stream.nextUnit?_inside next
  framed := by
    intro before front
    have most := LengthPrefixed.sum_payloads_le front
    omega
  subLayers := by
    intro set mem n announced
    have most : n ≤ 2 ^ 3 := (Record.parsed_of_mem mem).bounded.subLayers_le n announced
    omega
  built := by
    intro options error
    exact (Record.ofData_of_build error).2 rfl

/-- A sequence parameter set of 1088 lines, of which 1080 are shown. -/
def croppedSps : List UInt8 :=
  [0x42, 0x01, 0x01, 0x01, 0x40, 0x00, 0x00, 0x03, 0x00, 0x90, 0x00, 0x00, 0x03, 0x00, 0x00, 0x03,
    0x00, 0x78, 0xa0, 0x03, 0xc0, 0x80, 0x11, 0x07, 0xcb, 0x96, 0xb4, 0xa4, 0x25, 0x92, 0xe3, 0x01,
    0x6a, 0x02, 0x02, 0x02, 0x08, 0x00, 0x00, 0x03, 0x00, 0x08, 0x00, 0x00, 0x03, 0x00, 0xf3, 0x00,
    0x2e, 0xf2, 0x88, 0x00, 0x02, 0x62, 0x5a, 0x00, 0x00, 0x13, 0x12, 0xd0, 0x20]

theorem arithmetic_inWords_croppedSps :
    croppedSps.length < 2 ^ 63
      ∧ (NalUnit.decoder .sps Sps.decoder).OnWords .escaped croppedSps
      ∧ ∃ unit, (Sps.read croppedSps).result = .ok unit ∧ unit.payload.croppedHeight = 1080
          ∧ unit.payload.DerivedInWords := by
  have short : croppedSps.length < 2 ^ 63 := by decide
  have lines : (Sps.read croppedSps).result.toOption.map (·.payload.croppedHeight)
      = some 1080 := by decide +kernel
  obtain ⟨unit, found, height⟩ := Option.map_eq_some_iff.mp lines
  have promised := arithmetic_inWords short
  exact ⟨short, promised.sps, unit, toOption_ok found, height,
    promised.derived unit (toOption_ok found)⟩

end Hevc
