import Hevc.Profile
import Hevc.Written.NalUnit

/-!
# Written form of profiles

The profile of the stream, the presence flags of its sub-layers, the reserved bits, and what the
flags announce.
-/

namespace Hevc

/-- The written form of a profile without its level. -/
def Profile.items (p : Profile) : List Item :=
  [.bits p.space 2, .flag p.highTier, .bits p.idc 5, .bits p.compatibility 32,
    .bits p.constraints 48]

namespace ProfileTierLevel

/-- The flags that say what is coded of a sub-layer. -/
def presenceItems (s : SubLayerProfile) : List Item :=
  [.flag s.profile.isSome, .flag s.level.isSome]

/-- The written form of a sub-layer. -/
def subLayerItems (s : SubLayerProfile) : List Item :=
  Item.present Profile.items s.profile ++ Item.present (fun level => [.bits level 8]) s.level

/-- The bits for sub-layers that are not there, if there are sub-layers. -/
def reservedItems (subLayers reserved : Nat) : List Item :=
  if 0 < subLayers then [.bits reserved (2 * (8 - subLayers))] else []

/-- The written form, with the reserved bits. -/
def items (reserved : Nat) (p : ProfileTierLevel) : List Item :=
  p.general.items ++ .bits p.general.level 8 :: p.subLayers.flatMap presenceItems
    ++ reservedItems p.subLayers.length reserved ++ p.subLayers.flatMap subLayerItems

end ProfileTierLevel

end Hevc
