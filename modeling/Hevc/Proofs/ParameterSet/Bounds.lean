import Hevc.Proofs.ParameterSet.Safe

/-!
# Bounds of parameter sets

What is known of the values of every parameter set that can be read, whatever the bytes.

* `Vps.bounded_of_read`, `Sps.bounded_of_read` — the values that a record takes over are bounded
-/

namespace Hevc

/-- The values of a video parameter set that a record takes over fit its fields, but for the
number of sub-layers, which is one more than 3 bits write. -/
structure Vps.Bounded (v : Vps) : Prop where
  maxSubLayersMinus1 : v.maxSubLayersMinus1 < 2 ^ 3
  profile : v.profile.general.Fits

/-- The same for a sequence parameter set, of which the spatial segmentation is taken over too. -/
structure Sps.Bounded (s : Sps) : Prop where
  maxSubLayersMinus1 : s.maxSubLayersMinus1 < 2 ^ 3
  profile : s.profile.general.Fits
  segmentation : ∀ n ∈ s.vui.bind (·.minSpatialSegmentation?), n ≤ Restriction.maxSegmentation

theorem Vps.bounded_of_read {nal : List UInt8} {unit : NalUnit Vps}
    (h : (Vps.read nal).result = .ok unit) : unit.payload.Bounded := by
  have coded := NalUnit.ensures_of_read decoder_safe.ensures h
  exact ⟨coded.maxSubLayersMinus1, coded.profile.general⟩

theorem Sps.bounded_of_read {nal : List UInt8} {unit : NalUnit Sps}
    (h : (Sps.read nal).result = .ok unit) : unit.payload.Bounded := by
  have coded := (NalUnit.ensures_of_read decoder_wellFormed.ensures h).others
  refine ⟨coded.maxSubLayersMinus1, coded.profile.general, fun n mem => ?_⟩
  obtain ⟨vui, known, carried⟩ := Option.bind_eq_some_iff.mp mem
  obtain ⟨restriction, there, rfl⟩ := Option.map_eq_some_iff.mp carried
  exact ((coded.vui vui known).restriction restriction there).minSpatialSegmentation

end Hevc
