import Hevc.ParameterSet.Pps
import Hevc.Proofs.ParameterSet.RefPicBounds
import Hevc.Proofs.ParameterSet.Sps
import Hevc.Proofs.ParameterSet.Vps

/-!
# Parameter sets stay inside their words

No bits lead the decoder of a parameter set to an arithmetic fault, and every one of them ends
after a number of bits that is known beforehand. The budgets are sums over the syntax; what is
repeated is repeated as often as its count can say. What a part is read as is one of the values that
the syntax can code, but for scaling lists and short-term sets, of which only the sizes are said.

* `ProfileTierLevel.decoder_safe` — profiles, for any number of sub-layers
* `Hrd.decoder_safe`, `Vui.decoder_safe` — reference decoder parameters and usability information
* `Vps.decoder_safe`, `Sps.decoder_safe`, `Pps.decoder_safe` — the three parameter sets
* `NalUnit.decoder_safe` — a unit, from its payload
-/

namespace Hevc

open Decoder

/-! ## Units -/

namespace NalHeader

theorem decoder_safe {E : Fault → Prop} (forbids : E .forbiddenBit) :
    decoder.Safe E (fun _ => True) [1, 6, 6, 3].sum := by
  refine .bind .flag fun forbidden _ => ?_
  refine .ite (fun _ => .fail forbids) fun _ => ?_
  refine .bind (.bits 6) fun type _ => ?_
  refine .bind (.bits 6) fun layerId _ => ?_
  exact .bind (.bits 3) fun temporalIdPlus1 _ => .pure trivial

theorem expecting_safe (type : NalType) :
    (expecting type).Safe Fault.OfData (fun _ => True) [16].sum := by
  refine .bind (decoder_safe ⟨rfl, nofun⟩) fun header _ => ?_
  exact .ite (fun _ => .pure trivial) fun _ => .fail ⟨rfl, nofun⟩

end NalHeader

theorem NalUnit.decoder_safe {α : Type} {P : α → Prop} {payload : Decoder α} {n : Nat}
    (type : NalType) (h : payload.Safe Fault.OfElement P n) :
    (NalUnit.decoder type payload).Safe Fault.OfData (P ·.payload) (16 + n) :=
  (NalHeader.expecting_safe type).bind fun _ _ =>
    (h.mono (fun _ => Fault.OfElement.ofData) fun _ hp => hp).map fun _ hp => hp

/-! ## Profiles -/

section

-- nothing can be wrong with a profile, so no fault has to be allowed for
variable {E : Fault → Prop}

theorem Profile.decoder_safe :
    Profile.decoder.Safe E (fun p => p.Fits ∧ p.level = 0) [2, 1, 5, 32, 48].sum := by
  refine .bind (.bits 2) fun _ space => ?_
  refine .bind .flag fun highTier _ => ?_
  refine .bind (.bits 5) fun _ idc => ?_
  refine .bind (.bits 32) fun _ compatibility => ?_
  refine .bind (.bits 48) fun _ constraints => .pure ⟨?_, rfl⟩
  exact { space, idc, compatibility, constraints, level := Nat.two_pow_pos 8 }

namespace ProfileTierLevel

theorem presence_safe : presence.Safe E (fun _ => True) [1, 1].sum := by
  refine .bind .flag fun profile _ => ?_
  exact .bind .flag fun level _ => .pure trivial

theorem subLayer_safe (present : Bool × Bool) :
    (subLayer present).Safe E SubLayerProfile.Coded [88, 8].sum := by
  refine .bind (.when fun _ => Profile.decoder_safe) fun profile fits => ?_
  refine .bind (.when fun _ => Safe.bits 8) fun level small => .pure ⟨?_, small.2⟩
  rintro _ mem
  obtain ⟨p, known, rfl⟩ := Option.map_eq_some_iff.mp mem
  obtain ⟨fits, unset⟩ := fits.2 p known
  have inferred : level.getD p.level = level.getD 0 := by rw [unset]
  have bounded : level.getD 0 < 2 ^ 8 := by
    cases level with
    | none => decide
    | some coded => exact small.2 coded rfl
  exact ⟨{ fits with level := inferred ▸ bounded }, inferred⟩

theorem reserved_safe {count : Nat} (few : count ≤ maxSubLayers) :
    (reserved count).Safe E (fun _ => True) 14 := by
  rw [maxSubLayers] at few
  refine .ite (fun some => ?_) fun _ => trivial
  refine .checked_bind (Word.sub?_of_le (by omega)) ?_
  refine .checked_bind (Word.unsigned?_of_lt (by omega)) ?_
  exact (Safe.bits _).step (by omega) fun _ _ => .pure trivial

theorem decoder_safe (maxSubLayersMinus1 : Nat) :
    (decoder maxSubLayersMinus1).Safe E (Coded (min maxSubLayersMinus1 maxSubLayers))
      [88, 8, 7 * 2, 14, 7 * 96].sum := by
  have few : min maxSubLayersMinus1 maxSubLayers ≤ maxSubLayers := Nat.min_le_right _ _
  refine .bind Profile.decoder_safe fun profile fits => ?_
  refine .bind (.bits 8) fun _ level => ?_
  have flags := (Safe.many (E := E) presence_safe _).le (Nat.mul_le_mul_right 2 few)
  refine .bind flags fun present length => ?_
  refine .bind (reserved_safe few) fun _ _ => ?_
  have subLayers : (forEach present subLayer).Safe E _ _ :=
    .forEach fun flags _ => subLayer_safe flags
  refine (subLayers.le (Nat.mul_le_mul_right 96 (length.1 ▸ few))).bind fun _ all => .pure ?_
  exact ⟨{ fits.1 with level }, all.1.trans length.1, all.2⟩

/-- The sub-layers that three bits count are all read. -/
theorem min_maxSubLayers {maxSubLayersMinus1 : Nat} (few : maxSubLayersMinus1 < 2 ^ 3) :
    min maxSubLayersMinus1 maxSubLayers = maxSubLayersMinus1 :=
  Nat.min_eq_left (Nat.le_of_lt_succ few)

end ProfileTierLevel

end

/-! ## Picture buffering -/

namespace Buffering

theorem decoder_safe : decoder.Safe Fault.OfElement Coded [63, 63, 63].sum := by
  refine .bind .code fun _ maxDecPicBufferingMinus1 => ?_
  refine .bind .code fun _ maxNumReorderPics => ?_
  refine .bind .code fun _ maxLatencyIncreasePlus1 => .pure ?_
  exact { maxDecPicBufferingMinus1, maxNumReorderPics, maxLatencyIncreasePlus1 }

theorem perSubLayer_safe {maxSubLayersMinus1 : Nat} (few : maxSubLayersMinus1 < 2 ^ 3) :
    (perSubLayer maxSubLayersMinus1).Safe Fault.OfElement (AllCoded maxSubLayersMinus1 true)
      [1, 8 * 189].sum := by
  refine .checked_bind (Word.unsigned?_of_lt (by omega)) ?_
  refine .bind .flag fun all _ => .ite (fun _ => ?_) fun _ => ?_
  · refine ((Safe.many decoder_safe _).le (Nat.mul_le_mul_right 189 few)).weaken ?_
    rintro bs ⟨length, coded⟩
    exact ⟨length, coded, nofun⟩
  · have top := decoder_safe.map (Q := AllCoded maxSubLayersMinus1 true) fun top coded =>
      ⟨List.length_replicate, fun b mem => List.eq_of_mem_replicate mem ▸ coded, nofun⟩
    exact top.le (by decide)

end Buffering

/-! ## Reference decoder parameters -/

namespace HrdCommon

theorem subPictureFields_safe :
    subPictureFields.Safe Fault.OfElement SubPicture.Fits [8, 5, 1, 5].sum := by
  refine .bind (.bits 8) fun _ tickDivisorMinus2 => ?_
  refine .bind (.bits 5) fun _ removalDelayLengthMinus1 => ?_
  refine .bind .flag fun inPicTimingSei _ => ?_
  refine .bind (.bits 5) fun _ outputDelayLengthMinus1 => .pure ?_
  exact { tickDivisorMinus2, removalDelayLengthMinus1, outputDelayLengthMinus1,
          cpbSizeDuScale := Nat.two_pow_pos 4 }

theorem scales_safe {nalPresent vclPresent : Bool} (present : (nalPresent || vclPresent) = true) :
    (scales nalPresent vclPresent).Safe Fault.OfElement Coded [1 + 19, 4, 4, 4, 15].sum := by
  refine .bind (.optional subPictureFields_safe) fun fields fit => ?_
  refine .bind (.bits 4) fun _ bitRateScale => ?_
  refine .bind (.bits 4) fun _ cpbSizeScale => ?_
  refine .bind (.when fun _ => .bits 4) fun duScale small => ?_
  refine .bind (.ignore delayLengthBits) fun _ _ => .pure ?_
  refine { subPicture := fun s mem => ?_, bitRateScale, cpbSizeScale,
           absent := fun none => absurd (present.symm.trans none) nofun }
  obtain ⟨f, known, rfl⟩ := Option.map_eq_some_iff.mp mem
  refine { fit f known with cpbSizeDuScale := ?_ }
  show duScale.getD 0 < 2 ^ 4
  cases duScale with
  | none => decide
  | some coded => exact small.2 coded rfl

theorem coded_absent : absent.Coded :=
  ⟨nofun, by decide, by decide, fun _ => rfl⟩

theorem decoder_safe : decoder.Safe Fault.OfElement Coded [1, 1, 47].sum := by
  refine .bind .flag fun nalPresent _ => ?_
  refine .bind .flag fun vclPresent _ => ?_
  exact .ite scales_safe fun _ => .pure coded_absent

end HrdCommon

theorem Cpb.decoder_safe (subPicture : Bool) :
    (Cpb.decoder subPicture).Safe Fault.OfElement (Cpb.Coded subPicture) [63, 63, 126, 1].sum := by
  refine .bind .code fun _ bitRateMinus1 => ?_
  refine .bind .code fun _ sizeMinus1 => ?_
  have unit : (do let size ← ue; let bitRate ← ue; return (size, bitRate)).Safe Fault.OfElement
      (fun (unit : Nat × Nat) => unit.1 ≤ maxCode ∧ unit.2 ≤ maxCode) [63, 63].sum :=
    .bind .code fun size small => .bind .code fun bitRate slow => .pure ⟨small, slow⟩
  refine .bind (.when fun _ => unit) fun decodingUnit inRange => ?_
  refine .bind .flag fun constantBitRate _ => .pure ?_
  exact { bitRateMinus1, sizeMinus1, present := inRange.1, decodingUnit := inRange.2 }

namespace HrdSubLayer

theorem buffers_safe {countMinus1 : Nat} (few : countMinus1 ≤ 31) (present subPicture : Bool) :
    (buffers present countMinus1 subPicture).Safe Fault.OfElement
      (CodedBuffers present countMinus1 subPicture) 8096 := by
  cases present with
  | false => exact ⟨nofun, fun _ => rfl, nofun⟩
  | true =>
    refine .checked_bind (Word.unsigned?_of_lt (by omega)) ?_
    have all := Safe.many (Cpb.decoder_safe subPicture) (countMinus1 + 1)
    have most : countMinus1 + 1 ≤ 32 := by omega
    refine (all.le (Nat.mul_le_mul_right 253 most)).weaken ?_
    rintro cs ⟨length, coded⟩
    exact ⟨fun _ => length, nofun, coded⟩

theorem cpbCount_safe : cpbCount.Safe Fault.OfElement (· ≤ maxCpbCountMinus1) 63 :=
  Safe.codeWithin (n := 0) fun _ range => .pure (Int.ofNat_le.mp range.2)

theorem elementalDuration_safe :
    elementalDuration.Safe Fault.OfElement (· ≤ maxDurationMinus1) 63 :=
  Safe.codeWithin (n := 0) fun _ range => .pure (Int.ofNat_le.mp range.2)

theorem decoder_safe (common : HrdCommon) :
    (decoder common).Safe Fault.OfElement (Coded common) [1, 1, 63, 1, 63, 8096, 8096].sum := by
  refine .bind .flag fun fixedRateGeneral _ => ?_
  -- what is not coded is what the flags in front of it leave
  refine .bind (.codedOr (P := fun within => fixedRateGeneral = true → within = true)
    (fun isCoded => Safe.flag.weaken fun _ _ general => ?_) fun _ _ => rfl)
    fun fixedRateWithinCvs fixedRate => ?_
  · rw [general] at isCoded
    exact absurd isCoded nofun
  refine .bind (.when fun _ => elementalDuration_safe) fun duration short => ?_
  refine .bind (.codedOr (P := fun low => fixedRateWithinCvs = true → low = false)
    (fun isCoded => Safe.flag.weaken fun _ _ within => ?_) fun _ _ => rfl)
    fun lowDelay lowDelayOnly => ?_
  · rw [within] at isCoded
    exact absurd isCoded nofun
  refine .bind (.codedOr (P := fun count => count ≤ maxCpbCountMinus1
      ∧ (lowDelay = true → count = 0))
    (fun isCoded => cpbCount_safe.weaken fun _ few => ⟨few, fun low => ?_⟩)
    fun _ => ⟨Nat.zero_le _, fun _ => rfl⟩) fun cpbCountMinus1 few => ?_
  · rw [low] at isCoded
    exact absurd isCoded nofun
  refine .bind (buffers_safe few.1 _ _) fun _ nalBuffers => ?_
  refine .bind (buffers_safe few.1 _ _) fun _ vclBuffers => .pure ?_
  exact { fixedRate, durationPresent := short.1, duration := short.2, lowDelay := lowDelayOnly,
          cpbCount := few.1, lowDelayCount := few.2, nalBuffers, vclBuffers }

end HrdSubLayer

theorem Hrd.decoder_safe {maxSubLayersMinus1 : Nat} (few : maxSubLayersMinus1 < 2 ^ 3)
    (commonPresent : Bool) :
    (Hrd.decoder commonPresent maxSubLayersMinus1).Safe Fault.OfElement
      (Hrd.Coded maxSubLayersMinus1) [49, 8 * 16321].sum := by
  refine .bind (.codedOr (fun _ => HrdCommon.decoder_safe) fun _ => HrdCommon.coded_absent)
    fun common isCoded => ?_
  have all := Safe.many (HrdSubLayer.decoder_safe common) (maxSubLayersMinus1 + 1)
  refine (all.le (Nat.mul_le_mul_right 16321 few)).bind fun subLayers each => .pure ?_
  exact ⟨isCoded, each.1, each.2⟩

/-! ## Usability information -/

theorem AspectRatio.fits_of_code {code : Nat} {a : AspectRatio} (h : ofCode? code = some a) :
    a.Fits := by
  have all : ∀ a ∈ table, a.width < 2 ^ 16 ∧ a.height < 2 ^ 16 := by decide
  obtain ⟨width, height⟩ := all a (List.mem_of_getElem? h)
  exact ⟨width, height⟩

theorem AspectRatio.decoder_safe :
    AspectRatio.decoder.Safe Fault.OfElement (fun ratio => ∀ a ∈ ratio, a.Fits)
      [8, 16, 16].sum := by
  refine .bind (.bits 8) fun code _ =>
    .ite (fun _ => ?_) fun _ => .pure fun a known => fits_of_code known
  refine .bind (.bits 16) fun width narrow => ?_
  refine .bind (.bits 16) fun height low => .pure ?_
  rintro a ⟨⟩
  exact ⟨narrow, low⟩

theorem Window.decoder_safe :
    Window.decoder.Safe Fault.OfElement Window.Coded [63, 63, 63, 63].sum := by
  refine .bind .code fun left leftCoded => ?_
  refine .bind .code fun right rightCoded => ?_
  refine .bind .code fun top topCoded => ?_
  refine .bind .code fun bottom bottomCoded => ?_
  exact .pure ⟨leftCoded, rightCoded, topCoded, bottomCoded⟩

theorem Clock.decoder_safe :
    Clock.decoder.Safe Fault.OfElement Clock.Coded [32, 32, 1 + 63].sum := by
  refine .bind (.bits 32) fun _ unitsInTick => ?_
  refine .bind (.bits 32) fun _ timeScale => ?_
  exact .bind (.optional Safe.code) fun _ ticksPerPocMinus1 =>
    .pure { unitsInTick, timeScale, ticksPerPocMinus1 }

theorem ColourDescription.decoder_safe :
    ColourDescription.decoder.Safe Fault.OfElement ColourDescription.Fits [8, 8, 8].sum := by
  refine .bind (.bits 8) fun _ primaries => ?_
  refine .bind (.bits 8) fun _ transfer => ?_
  exact .bind (.bits 8) fun _ matrix => .pure { primaries, transfer, matrix }

theorem VideoSignal.decoder_safe :
    VideoSignal.decoder.Safe Fault.OfElement VideoSignal.Fits [3, 1, 1 + 24].sum := by
  refine .bind (.bits 3) fun _ format => ?_
  refine .bind .flag fun fullRange _ => ?_
  exact .bind (.optional ColourDescription.decoder_safe) fun _ colour => .pure { format, colour }

theorem ChromaLocation.decoder_safe :
    ChromaLocation.decoder.Safe Fault.OfElement ChromaLocation.Coded [63, 63].sum := by
  refine .bind .code fun _ top => ?_
  exact .bind .code fun _ bottom => .pure { top, bottom }

theorem VuiTiming.decoder_safe {maxSubLayersMinus1 : Nat} (few : maxSubLayersMinus1 < 2 ^ 3) :
    (VuiTiming.decoder maxSubLayersMinus1).Safe Fault.OfElement
      (VuiTiming.Coded maxSubLayersMinus1) [128, 1 + 130617].sum := by
  refine .bind Clock.decoder_safe fun _ clock => ?_
  exact .bind (.optional (Hrd.decoder_safe few true)) fun _ hrd => .pure { clock, hrd }

theorem Restriction.decoder_safe :
    Restriction.decoder.Safe Fault.OfElement Restriction.Coded
      [1, 1, 1, 63, 63, 63, 63, 63].sum := by
  refine .bind .flag fun tilesFixed _ => ?_
  refine .bind .flag fun motionOverBoundaries _ => ?_
  refine .bind .flag fun restrictedLists _ => ?_
  refine .codeWithin fun minSpatialSegmentation range => ?_
  refine .bind .code fun _ maxBytesPerPicDenom => ?_
  refine .bind .code fun _ maxBitsPerMinCuDenom => ?_
  refine .bind .code fun _ log2MaxMvLengthHorizontal => ?_
  refine .bind .code fun _ log2MaxMvLengthVertical => .pure ?_
  exact { minSpatialSegmentation := Int.ofNat_le.mp range.2, maxBytesPerPicDenom,
          maxBitsPerMinCuDenom, log2MaxMvLengthHorizontal, log2MaxMvLengthVertical }

theorem Vui.decoder_safe {maxSubLayersMinus1 : Nat} (few : maxSubLayersMinus1 < 2 ^ 3) :
    (Vui.decoder maxSubLayersMinus1).Safe Fault.OfElement (Vui.Coded maxSubLayersMinus1)
      [1 + 40, 1 + 1, 1 + 29, 1 + 126, 1, 1, 1, 1 + 252, 1 + 130746, 1 + 318].sum := by
  refine .bind (.optional AspectRatio.decoder_safe) fun ratio fits => ?_
  refine .bind (.optional Safe.flag) fun overscanAppropriate _ => ?_
  refine .bind (.optional VideoSignal.decoder_safe) fun _ videoSignal => ?_
  refine .bind (.optional ChromaLocation.decoder_safe) fun _ chromaLocation => ?_
  refine .bind .flag fun neutralChroma _ => ?_
  refine .bind .flag fun fieldSequence _ => ?_
  refine .bind .flag fun frameFieldInfo _ => ?_
  refine .bind (.optional Window.decoder_safe) fun _ displayWindow => ?_
  refine .bind (.optional (VuiTiming.decoder_safe few)) fun _ timing => ?_
  refine .bind (.optional Restriction.decoder_safe) fun _ restriction => .pure ?_
  have aspectRatio : ∀ a ∈ ratio.join, a.Fits := fun a mem =>
    fits (some a) (Option.join_eq_some_iff.mp mem) a rfl
  exact { aspectRatio, videoSignal, chromaLocation, displayWindow, timing, restriction }

/-! ## Scaling lists -/

/-- The lists fit a table of four sizes with six matrices of 64 places each. -/
structure ScalingLists.FitTable (s : ScalingLists) : Prop where
  sizes : s.sizes.length = 4
  matrices : ∀ lists ∈ s.sizes, lists.length ≤ 6
  places : ∀ lists ∈ s.sizes, ∀ l ∈ lists, l.factors.length ≤ 64

namespace ScalingList

theorem factorsFrom_safe {factor : Int} (inside : 0 ≤ factor ∧ factor < 256) (got : List Nat)
    (count : Nat) :
    (factorsFrom factor got count).Safe Fault.OfElement (·.length = got.length + count)
      (count * 63) := by
  induction count generalizing factor got with
  | zero => exact .pure (by simp)
  | succ count ih =>
    refine Safe.signedCode.step (by omega) fun difference small => ?_
    refine .checked_bind (Word.signed?_of_natAbs_lt (by omega)) ?_
    refine ((ih (by omega) _).le (by omega)).weaken fun factors length => ?_
    rw [length, List.length_cons]
    omega

theorem dcFactor_safe :
    dcFactor.Safe Fault.OfElement (fun dc => 0 ≤ dc ∧ dc < 256) [63, 0].sum := by
  refine .bind .signedCode fun dcMinus8 _ => ?_
  refine .bind (.range _ _ _ dcMinus8) fun _ range => ?_
  exact .checked (Word.signed?_of_natAbs_lt (by omega)) (by omega)

theorem coded_safe (sizeId : Nat) :
    (coded sizeId).Safe Fault.OfElement (·.factors.length ≤ 64) [63, 64 * 63].sum := by
  have few : factorCount sizeId ≤ 64 := Nat.min_le_left _ _
  refine .bind (.when fun _ => dcFactor_safe) fun dc known => ?_
  have start : 0 ≤ dc.getD startFactor ∧ dc.getD startFactor < 256 := by
    cases dc with
    | none => decide
    | some dc => exact known.2 dc rfl
  have factors := (factorsFrom_safe start [] _).le (Nat.mul_le_mul_right 63 few)
  refine .bind factors fun _ length => .pure ?_
  rwa [length, List.length_nil, Nat.zero_add]

theorem length_default_le (sizeId matrixId : Nat) :
    (default sizeId matrixId).factors.length ≤ 64 := by
  unfold default
  dsimp only
  split
  · decide
  · split <;> decide

/-- A list that is repeated is one of those before it. -/
theorem repeated_safe (sizeId : Nat) {before : List ScalingList}
    (fit : ∀ l ∈ before, l.factors.length ≤ 64) :
    (repeated sizeId before).Safe Fault.OfElement (·.factors.length ≤ 64) 63 := by
  refine Safe.codeWithin (n := 0) fun distance range => ?_
  cases distance with
  | zero => exact .pure (length_default_le sizeId _)
  | succ back =>
    have there : back < before.length := by omega
    exact .checked (List.getElem?_eq_getElem there) (fit _ (List.getElem_mem there))

theorem decoder_safe (sizeId : Nat) {before : List ScalingList}
    (fit : ∀ l ∈ before, l.factors.length ≤ 64) :
    (decoder sizeId before).Safe Fault.OfElement (·.factors.length ≤ 64) [1, 4095].sum := by
  refine .bind .flag fun isCoded _ => .ite (fun _ => coded_safe sizeId) fun _ => ?_
  exact (repeated_safe sizeId fit).le (by decide)

theorem ofSizeFrom_safe (sizeId : Nat) {before : List ScalingList}
    (fit : ∀ l ∈ before, l.factors.length ≤ 64) (count : Nat) :
    (ofSizeFrom sizeId before count).Safe Fault.OfElement
      (fun lists => lists.length = before.length + count ∧ ∀ l ∈ lists, l.factors.length ≤ 64)
      (count * 4096) := by
  induction count generalizing before with
  | zero => exact .pure ⟨by simp, fun l mem => fit l (List.mem_reverse.mp mem)⟩
  | succ count ih =>
    rw [Nat.succ_mul, Nat.add_comm (count * 4096)]
    refine .bind (decoder_safe sizeId fit) fun list fits => ?_
    have both : ∀ l ∈ list :: before, l.factors.length ≤ 64 := List.forall_mem_cons.mpr ⟨fits, fit⟩
    refine (ih both).weaken ?_
    rintro lists ⟨length, all⟩
    exact ⟨by rw [length, List.length_cons]; omega, all⟩

theorem ofSize_safe (sizeId : Nat) :
    (ofSize sizeId).Safe Fault.OfElement
      (fun lists => lists.length ≤ 6 ∧ ∀ l ∈ lists, l.factors.length ≤ 64) 24576 := by
  have few : matrixCount sizeId ≤ 6 := Nat.div_le_self 6 _
  have all := @ofSizeFrom_safe sizeId [] (by simp) (matrixCount sizeId)
  refine (all.le (Nat.mul_le_mul_right 4096 few)).weaken ?_
  rintro lists ⟨length, fit⟩
  exact ⟨by rwa [length, List.length_nil, Nat.zero_add], fit⟩

end ScalingList

theorem ScalingLists.decoder_safe :
    ScalingLists.decoder.Safe Fault.OfElement ScalingLists.FitTable 98304 := by
  have all : (forEach [0, 1, 2, 3] ScalingList.ofSize).Safe Fault.OfElement _ _ :=
    .forEach fun sizeId _ => ScalingList.ofSize_safe sizeId
  refine all.map ?_
  rintro sizes ⟨count, fit⟩
  exact ⟨count, fun lists mem => (fit lists mem).1, fun lists mem => (fit lists mem).2⟩

/-! ## The three sets -/

/-- Few candidates, each named by as many bits as the pictures are counted with. -/
theorem LongTermPic.all_safe (log2MaxPocLsbMinus4 : Nat) :
    (LongTermPic.all log2MaxPocLsbMinus4).Safe Fault.OfElement
      (fun pics => pics.length ≤ maxPics
        ∧ ∀ pic ∈ pics, pic.pocLsb < 2 ^ pocBits log2MaxPocLsbMinus4)
      [63, 32 * 17].sum := by
  have narrow : pocBits log2MaxPocLsbMinus4 ≤ 16 := Nat.min_le_right _ _
  have one : (decoder (pocBits log2MaxPocLsbMinus4)).Safe Fault.OfElement
      (·.pocLsb < 2 ^ pocBits log2MaxPocLsbMinus4) [16, 1].sum := by
    refine .bind ((Safe.bits _).le narrow) fun pocLsb small => ?_
    exact .bind .flag fun used _ => .pure small
  refine .codeWithin fun count range => ?_
  have few : count ≤ maxPics := Int.ofNat_le.mp range.2
  refine ((Safe.many one count).le (Nat.mul_le_mul_right 17 few)).weaken ?_
  rintro pics ⟨rfl, small⟩
  exact ⟨few, small⟩

theorem Pcm.decoder_safe :
    Pcm.decoder.Safe Fault.OfElement Pcm.Coded [4, 4, 63, 63, 1].sum := by
  refine .bind (.bits 4) fun _ bitDepthLumaMinus1 => ?_
  refine .bind (.bits 4) fun _ bitDepthChromaMinus1 => ?_
  refine .bind .code fun _ log2MinSizeMinus3 => ?_
  refine .bind .code fun _ log2SizeDiff => ?_
  refine .bind .flag fun loopFilterDisabled _ => .pure ?_
  exact { bitDepthLumaMinus1, bitDepthChromaMinus1, log2MinSizeMinus3, log2SizeDiff }

theorem BlockSizes.decoder_safe :
    BlockSizes.decoder.Safe Fault.OfElement BlockSizes.Coded [63, 63, 63, 63, 63, 63].sum := by
  refine .bind .code fun _ log2MinCodingMinus3 => ?_
  refine .bind .code fun _ log2DiffCoding => ?_
  refine .bind .code fun _ log2MinTransformMinus2 => ?_
  refine .bind .code fun _ log2DiffTransform => ?_
  refine .bind .code fun _ maxHierarchyDepthInter => ?_
  refine .bind .code fun _ maxHierarchyDepthIntra => .pure ?_
  exact { log2MinCodingMinus3, log2DiffCoding, log2MinTransformMinus2, log2DiffTransform,
          maxHierarchyDepthInter, maxHierarchyDepthIntra }

/-- What is known of every sequence parameter set that can be read, with its picture buffering
coded for all sub-layers or for the highest only. A predicted short-term set can have distances that
no set is written with, so of the sets only the sizes are said, and so of the scaling lists. -/
structure Sps.WellFormed (allBuffering : Bool) (s : Sps) : Prop where
  /-- All else is what the syntax can code. -/
  others : Coded allBuffering { s with scalingLists := none, shortTermSets := [] }
  scalingEnabled : s.scalingEnabled = false → s.scalingLists = none
  scalingLists : ∀ lists ∈ s.scalingLists, lists.FitTable
  shortTermCount : s.shortTermSets.length ≤ RefPicSet.maxSets
  shortTermSets : ∀ set ∈ s.shortTermSets, set.negative.length ≤ RefPicSet.maxPicsPerSide
    ∧ set.positive.length ≤ RefPicSet.maxPicsPerSide

/-- Every sequence parameter set that is read is well-formed, if nothing is said of how its picture
buffering was coded. -/
theorem Sps.decoder_wellFormed :
    Sps.decoder.Safe Fault.OfElement (Sps.WellFormed true)
      [4, 3, 1, 796, 63, 63, 1, 63, 63, 1 + 252, 63, 63, 63, 1513, 378, 1, 1 + 98304, 1, 1,
        1 + 135, 139263, 1 + 607, 1, 1, 1 + 131522].sum := by
  refine .bind (.bits 4) fun _ vpsId => ?_
  refine .bind (.bits 3) fun maxSubLayersMinus1 few => ?_
  refine .bind .flag fun temporalIdNesting _ => ?_
  refine .bind (ProfileTierLevel.decoder_safe _) fun _ profile => ?_
  refine .bind .code fun _ id => ?_
  refine .bind .code fun chromaFormat formatCoded => ?_
  refine .bind (.codedOr (P := fun separate => chromaFormat ≠ format444 → separate = false)
    (fun is444 => Safe.flag.weaken fun _ _ other => absurd (of_decide_eq_true is444) other)
    fun _ _ => rfl) fun _ separateColourPlane => ?_
  refine .bind .code fun _ width => ?_
  refine .bind .code fun _ height => ?_
  refine .bind (.optional Window.decoder_safe) fun _ conformanceWindow => ?_
  refine .bind .code fun _ bitDepthLumaMinus8 => ?_
  refine .bind .code fun _ bitDepthChromaMinus8 => ?_
  refine .bind .code fun log2MaxPocLsbMinus4 pocBitsCoded => ?_
  refine .bind (Buffering.perSubLayer_safe few) fun _ buffering => ?_
  refine .bind BlockSizes.decoder_safe fun _ blockSizes => ?_
  refine .bind .flag fun scalingEnabled _ => ?_
  refine .bind (.when fun _ => .optional ScalingLists.decoder_safe)
    fun scalingLists table => ?_
  refine .bind .flag fun asymmetricMotion _ => ?_
  refine .bind .flag fun sampleAdaptiveOffset _ => ?_
  refine .bind (.optional Pcm.decoder_safe) fun _ pcm => ?_
  refine .bind RefPicSet.counted_safe fun shortTermSets near => ?_
  refine .bind (.optional (LongTermPic.all_safe _)) fun _ longTerm => ?_
  refine .bind .flag fun temporalMvp _ => ?_
  refine .bind .flag fun strongIntraSmoothing _ => ?_
  refine .bind (.optional (Vui.decoder_safe few)) fun _ vui => .pure ?_
  rw [ProfileTierLevel.min_maxSubLayers few] at profile
  refine
    { others :=
        { vpsId, maxSubLayersMinus1 := few, profile, id, chromaFormat := formatCoded,
          separateColourPlane, width, height, conformanceWindow, bitDepthLumaMinus8,
          bitDepthChromaMinus8, log2MaxPocLsbMinus4 := pocBitsCoded, buffering, blockSizes,
          scalingEnabled := fun _ => rfl, scalingLists := nofun, pcm,
          shortTermCount := Nat.zero_le _, shortTermSets := nofun,
          longTermCount := fun pics mem => (longTerm pics mem).1,
          longTermPics := fun pics mem => (longTerm pics mem).2, vui }
      scalingEnabled := fun disabled => ?_
      scalingLists := fun lists mem =>
        table.2 (some lists) (Option.join_eq_some_iff.mp mem) lists rfl
      shortTermCount := near.1
      shortTermSets := fun set mem => ?_ }
  · have absent : scalingLists = none :=
      Option.isNone_iff_eq_none.mp (Option.isSome_eq_false_iff.mp (table.1.trans disabled))
    rw [absent]
    rfl
  · obtain ⟨place, there⟩ := List.getElem?_of_mem mem
    have bounds := near.2 place set there
    exact ⟨bounds.negativeCount, bounds.positiveCount⟩

/-- The values of a sequence parameter set that its sizes and bit depths are derived from are
codes, and its scaling lists fit a table. -/
structure Sps.Sized (s : Sps) : Prop where
  conformanceWindow : ∀ w ∈ s.conformanceWindow, w.Coded
  bitDepthLumaMinus8 : s.bitDepthLumaMinus8 ≤ maxCode
  bitDepthChromaMinus8 : s.bitDepthChromaMinus8 ≤ maxCode
  scalingLists : ∀ lists ∈ s.scalingLists, lists.FitTable

theorem Sps.decoder_safe :
    Sps.decoder.Safe Fault.OfElement Sps.Sized
      [4, 3, 1, 796, 63, 63, 1, 63, 63, 1 + 252, 63, 63, 63, 1513, 378, 1, 1 + 98304, 1, 1,
        1 + 135, 139263, 1 + 607, 1, 1, 1 + 131522].sum :=
  decoder_wellFormed.weaken fun _ h => ⟨h.others.conformanceWindow, h.others.bitDepthLumaMinus8,
    h.others.bitDepthChromaMinus8, h.scalingLists⟩

theorem LayerSetHrd.decoder_safe {maxSubLayersMinus1 : Nat} (few : maxSubLayersMinus1 < 2 ^ 3)
    (place : Nat) :
    (LayerSetHrd.decoder maxSubLayersMinus1 place).Safe Fault.OfElement
      (LayerSetHrd.Coded maxSubLayersMinus1) [63, 1, 130617].sum := by
  refine .bind .code fun _ layerSet => ?_
  refine .bind (.codedOr (fun _ => .flag) fun _ => trivial) fun commonPresent _ => ?_
  exact .bind (Hrd.decoder_safe few commonPresent) fun _ hrd => .pure { layerSet, hrd }

theorem VpsTiming.decoder_safe {maxSubLayersMinus1 layerSetsMinus1 : Nat}
    (few : maxSubLayersMinus1 < 2 ^ 3) (fewSets : layerSetsMinus1 ≤ Vps.maxLayerSetsMinus1) :
    (VpsTiming.decoder maxSubLayersMinus1 layerSetsMinus1).Safe Fault.OfElement
      (VpsTiming.Coded maxSubLayersMinus1 layerSetsMinus1) [128, 63, 0, 1024 * 130681].sum := by
  rw [Vps.maxLayerSetsMinus1] at fewSets
  refine .bind Clock.decoder_safe fun _ clock => ?_
  refine .bind .code fun count _ => ?_
  refine .checked_bind (Word.unsigned?_of_lt (by omega)) ?_
  refine .bind (.range _ _ _ _) fun _ range => ?_
  have hrdCount : count ≤ layerSetsMinus1 + 1 := Int.ofNat_le.mp range.2
  have all : (forEach (List.range count) (LayerSetHrd.decoder maxSubLayersMinus1)).Safe
      Fault.OfElement _ _ := .forEach fun place _ => LayerSetHrd.decoder_safe few place
  rw [List.length_range] at all
  have few : count ≤ 1024 := by omega
  refine (all.le (Nat.mul_le_mul_right 130681 few)).bind fun hrds each => .pure ?_
  exact { clock, hrdCount := each.1 ▸ hrdCount, hrds := each.2 }

theorem Vps.layerSetCount_safe :
    layerSetCount.Safe Fault.OfElement (· ≤ maxLayerSetsMinus1) 63 :=
  Safe.codeWithin (n := 0) fun _ range => .pure (Int.ofNat_le.mp range.2)

/-- Every video parameter set that is read is one that the syntax can code, if nothing is said of
how its picture buffering was. -/
theorem Vps.decoder_safe :
    Vps.decoder.Safe Fault.OfElement (Vps.Coded true)
      [4, 2, 6, 3, 1, 16, 796, 1513, 6, 63, 1023 * 64, 1 + 133817535].sum := by
  refine .bind (.bits 4) fun _ id => ?_
  refine .bind (.bits 2) fun baseLayer _ => ?_
  refine .bind (.bits 6) fun _ maxLayersMinus1 => ?_
  refine .bind (.bits 3) fun maxSubLayersMinus1 few => ?_
  refine .bind .flag fun temporalIdNesting _ => ?_
  refine .bind (.ignore 16) fun _ _ => ?_
  refine .bind (ProfileTierLevel.decoder_safe _) fun _ profile => ?_
  refine .bind (Buffering.perSubLayer_safe few) fun _ buffering => ?_
  refine .bind (.bits 6) fun maxLayerId fewLayers => ?_
  refine .bind layerSetCount_safe fun layerSetsMinus1 fewSets => ?_
  refine .checked_bind (Word.unsigned?_of_lt (by omega)) ?_
  have flags : (many (maxLayerId + 1) flag).Safe Fault.OfElement _ 64 :=
    (Safe.many Safe.flag _).le (by omega)
  have sets := (Safe.many flags layerSetsMinus1).le (Nat.mul_le_mul_right 64 fewSets)
  refine .bind sets fun layerSets each => ?_
  refine .bind (.optional (VpsTiming.decoder_safe few fewSets)) fun _ timing => .pure ?_
  rw [ProfileTierLevel.min_maxSubLayers few] at profile
  obtain ⟨rfl, flagged⟩ := each
  exact { id, maxLayersMinus1, maxSubLayersMinus1 := few, profile, buffering,
          maxLayerId := fewLayers, layerSetCount := fewSets,
          layerSets := fun flags mem => (flagged flags mem).1, timing }

theorem Pps.decoder_safe :
    Pps.decoder.Safe Fault.OfElement (fun _ => True)
      [63, 63, 1, 1, 3, 1, 1, 63, 63, 63, 1, 1, 1 + 63, 63, 63, 1, 1, 1, 1, 1, 1].sum := by
  refine .bind .code fun id _ => ?_
  refine .bind .code fun spsId _ => ?_
  refine .bind .flag fun dependentSliceSegments _ => ?_
  refine .bind .flag fun outputFlagPresent _ => ?_
  refine .bind (.bits 3) fun extraSliceHeaderBits _ => ?_
  refine .bind .flag fun signDataHiding _ => ?_
  refine .bind .flag fun cabacInitPresent _ => ?_
  refine .bind .code fun refIdxL0 _ => ?_
  refine .bind .code fun refIdxL1 _ => ?_
  refine .bind .signedCode fun initQp _ => ?_
  refine .bind .flag fun constrainedIntraPred _ => ?_
  refine .bind .flag fun transformSkip _ => ?_
  refine .bind (.optional Safe.code) fun cuQpDeltaDepth _ => ?_
  refine .bind .signedCode fun cbQpOffset _ => ?_
  refine .bind .signedCode fun crQpOffset _ => ?_
  refine .bind .flag fun sliceChromaQpOffsetsPresent _ => ?_
  refine .bind .flag fun weightedPred _ => ?_
  refine .bind .flag fun weightedBipred _ => ?_
  refine .bind .flag fun transquantBypass _ => ?_
  refine .bind .flag fun tiles _ => ?_
  exact .bind .flag fun entropyCodingSync _ => .pure trivial

end Hevc
