import Hevc.Proofs.Reads
import Hevc.Profile
import Hevc.Written.Profile

/-!
# Profiles, read and written

* `Profile.Fits`, `ProfileTierLevel.Coded` — the profiles that the syntax can code
* `ProfileTierLevel.decoder_reads` — profiles are read back from their written form
-/

namespace Hevc

open Decoder

/-! ## Profiles -/

/-- A profile whose values fit their fields. -/
structure Profile.Fits (p : Profile) : Prop where
  space : p.space < 2 ^ 2
  idc : p.idc < 2 ^ 5
  compatibility : p.compatibility < 2 ^ 32
  constraints : p.constraints < 2 ^ 48
  level : p.level < 2 ^ 8

/-- The level stands elsewhere, so reading leaves it at 0. -/
theorem Profile.decoder_reads {p : Profile} (h : p.Fits) :
    Profile.decoder.Reads p.items { p with level := 0 } := by
  refine (reads_bits h.space (by decide)).cons ?_
  refine (reads_flag p.highTier).cons ?_
  refine (reads_bits h.idc (by decide)).cons ?_
  refine (reads_bits h.compatibility (by decide)).cons ?_
  exact (reads_bits h.constraints (by decide)).map

/-! ## Sub-layers -/

/-- A sub-layer that the syntax can code: the level of its profile is the level that is coded
beside it. -/
structure SubLayerProfile.Coded (s : SubLayerProfile) : Prop where
  profile : ∀ p ∈ s.profile, p.Fits ∧ p.level = s.level.getD 0
  level : ∀ level ∈ s.level, level < 2 ^ 8

namespace ProfileTierLevel

/-- Profiles that the syntax can code for a number of sub-layers below the highest. -/
structure Coded (count : Nat) (p : ProfileTierLevel) : Prop where
  general : p.general.Fits
  length : p.subLayers.length = count
  subLayers : ∀ s ∈ p.subLayers, s.Coded

theorem presence_reads (s : SubLayerProfile) :
    presence.Reads (presenceItems s) (s.profile.isSome, s.level.isSome) :=
  (reads_flag s.profile.isSome).cons (reads_flag s.level.isSome).map

theorem subLayer_reads {s : SubLayerProfile} (h : s.Coded) :
    (subLayer (s.profile.isSome, s.level.isSome)).Reads (subLayerItems s) s := by
  have profile : (s.profile.map fun p => { p with level := 0 }).map
      (fun p => { p with level := s.level.getD p.level }) = s.profile := by
    cases hp : s.profile with
    | none => rfl
    | some p =>
      have level : p.level = s.level.getD 0 := (h.profile p hp).2
      show some { p with level := s.level.getD 0 } = some p
      rw [← level]
  refine (reads_whenAs fun p mem => Profile.decoder_reads (h.profile p mem).1).bind ?_
  refine (reads_when fun level mem => reads_bits (h.level level mem) (by decide)).then ?_
  rw [profile]
  exact reads_pure s

/-- The bits for sub-layers that are not there are passed over, whatever they are. -/
theorem reserved_reads {count filling : Nat} (h : count ≤ maxSubLayers)
    (fits : filling < 2 ^ (2 * (8 - count))) :
    (reserved count).Reads (reservedItems count filling) () := by
  rw [reserved, reservedItems]
  split
  · have few : count ≤ 8 := Nat.le_succ_of_le h
    refine (reads_checked (Word.sub?_of_le few)).step ?_
    refine (reads_checked (Word.unsigned?_of_lt (by omega))).step ?_
    exact (reads_bits fits (by omega)).map
  · exact reads_pure ()

theorem decoder_reads {maxSubLayersMinus1 filling : Nat} {p : ProfileTierLevel}
    (h : p.Coded maxSubLayersMinus1) (few : maxSubLayersMinus1 ≤ maxSubLayers)
    (fits : filling < 2 ^ (2 * (8 - maxSubLayersMinus1))) :
    (decoder maxSubLayersMinus1).Reads (p.items filling) p := by
  obtain rfl := h.length
  have count : min p.subLayers.length maxSubLayers = p.subLayers.length := Nat.min_eq_left few
  rw [decoder, count, items, List.append_assoc, List.append_assoc, List.cons_append]
  have subLayers := reads_forEach fun s mem => subLayer_reads (h.subLayers s mem)
  rw [List.map_id'] at subLayers
  refine (Profile.decoder_reads h.general).bind ?_
  refine (reads_bits h.general.level (by decide)).cons ?_
  refine (reads_manyAs fun s _ => presence_reads s).bind ?_
  refine (reserved_reads few fits).bind ?_
  exact subLayers.map

end ProfileTierLevel

end Hevc
