import Hevc.Bits.Decoder
import Hevc.Word

/-!
# Profile, tier and level

`profile_tier_level(1, maxNumSubLayersMinus1)`: the profile of the whole stream, then of each
sub-layer below the highest one what its two presence flags announce.
-/

namespace Hevc

/-! ## Compatibility flags -/

/-- The compatibility flags that have a name, each with its place counted from the first. The
first flag is the most significant of the 32 bits. -/
def profileFlagPlaces : List (String × Nat) :=
  [("Profile0", 0), ("MainProfile", 1), ("Main10Profile", 2), ("MainStillPictureProfile", 3),
    ("FormatRangeExtensionsProfile", 4), ("HighThroughputProfile", 5),
    ("ScreenContentCodingExtensionsProfile", 9),
    ("HighThroughputScreenContentCodingExtensionsProfile", 11)]

/-- The word in which only the flag of a profile is set. The low five bits of the profile count. -/
def profileFlag (profileIdc : Nat) : Nat := 1 <<< (31 - profileIdc % 32)

/-- The names of the flags that are set in a word. -/
def profileFlagNames (flags : Nat) : List String :=
  (profileFlagPlaces.filter fun (_, place) => flags.testBit (31 - place)).map (·.1)

/-! ## Profiles -/

/-- The profile, tier and level of a stream or of one of its sub-layers. -/
structure Profile where
  /-- `profile_space`, 2 bits. -/
  space : Nat
  /-- `tier_flag`: the high tier. -/
  highTier : Bool
  /-- `profile_idc`, 5 bits. -/
  idc : Nat
  /-- `profile_compatibility_flag`, 32 bits, the first flag in the most significant. -/
  compatibility : Nat
  /-- The 48 bits after them: the source flags and the constraints of the profile. -/
  constraints : Nat
  /-- `level_idc`, or 0 where a sub-layer has a profile and no level. -/
  level : Nat
deriving DecidableEq, Repr

/-- What is coded of a sub-layer. -/
structure SubLayerProfile where
  profile : Option Profile
  level : Option Nat
deriving DecidableEq, Repr

/-- The profile, tier and level of a stream and of its sub-layers (ISO/IEC 23008-2, 7.3.3). -/
structure ProfileTierLevel where
  general : Profile
  /-- One entry for each sub-layer below the highest. -/
  subLayers : List SubLayerProfile
deriving DecidableEq, Repr

namespace Profile

/-- `progressive_source_flag`, the first of the 48 bits. -/
def progressive (p : Profile) : Bool := p.constraints.testBit 47

/-- `interlaced_source_flag`, the second. -/
def interlaced (p : Profile) : Bool := p.constraints.testBit 46

/-- `frame_only_constraint_flag`, the fourth. -/
def frameOnly (p : Profile) : Bool := p.constraints.testBit 44

open Decoder

/-- Reads the 88 bits of a profile. The level is coded elsewhere. -/
def decoder : Decoder Profile := do
  let space ← bits 2
  let highTier ← flag
  let idc ← bits 5
  let compatibility ← bits 32
  let constraints ← bits 48
  return { space, highTier, idc, compatibility, constraints, level := 0 }

end Profile

namespace ProfileTierLevel

open Decoder

/-- The highest number of sub-layers below the top one that the syntax can address. -/
def maxSubLayers : Nat := 7

/-- The flags that say whether a sub-layer has a profile and whether it has a level. -/
def presence : Decoder (Bool × Bool) := do
  let profile ← flag
  let level ← flag
  return (profile, level)

/-- Reads what is coded of a sub-layer. Its level is that of its profile too. -/
def subLayer (present : Bool × Bool) : Decoder SubLayerProfile := do
  let profile ← when present.1 Profile.decoder
  let level ← when present.2 (bits 8)
  return { profile := profile.map fun p => { p with level := level.getD p.level }, level }

/-- Passes over the two bits of each sub-layer that is not there, if there are sub-layers. -/
def reserved (subLayers : Nat) : Decoder Unit :=
  if 0 < subLayers then do
    let absent ← checked (Word.sub? 8 subLayers)
    let count ← checked (Word.unsigned? 8 (2 * absent))
    let _ ← bits count
  else .done ()

/-- Reads the structure for a stream with one sub-layer more than the given number. -/
def decoder (maxSubLayersMinus1 : Nat) : Decoder ProfileTierLevel := do
  let count := min maxSubLayersMinus1 maxSubLayers
  let profile ← Profile.decoder
  let level ← bits 8
  let present ← many count presence
  reserved count
  let subLayers ← forEach present subLayer
  return { general := { profile with level }, subLayers }

end ProfileTierLevel

end Hevc
