import Hevc.ParameterSet.Vps
import Hevc.Written.Profile
import Hevc.Written.Vui

/-!
# Written form of video parameter sets

What reading passes over, and the choice whether picture buffering is written for each sub-layer,
come from outside as a `Vps.Filling`. Structures of reference decoder parameters are written with
their common information, or they share that of the structure before them.
-/

namespace Hevc

/-- What the written form of a video parameter set holds beside the values of the set. -/
structure Vps.Filling where
  /-- The two flags of the base layer. -/
  baseLayer : Nat
  /-- The reserved 16 bits. -/
  reserved : Nat
  /-- The bits for sub-layers that are not there. -/
  subLayers : Nat
  /-- Picture buffering is written for each sub-layer. -/
  allBuffering : Bool
  /-- The delay lengths of the reference decoder parameters at each place. -/
  delayLengths : Nat → Nat

/-- The written form of the parameters of the layer set at a place of the list. -/
def LayerSetHrd.items (delayLengths : Nat → Nat) (place : Nat) (h : LayerSetHrd) : List Item :=
  .ue h.layerSet :: (if 0 < place then [.flag true] else []) ++ h.hrd.items (delayLengths place)

def VpsTiming.items (delayLengths : Nat → Nat) (t : VpsTiming) : List Item :=
  t.clock.items ++ .ue t.hrds.length
    :: t.hrds.zipIdx.flatMap fun (hrd, place) => hrd.items delayLengths place

/-- The written form in front of the timing part. -/
def Vps.frontItems (filling : Vps.Filling) (v : Vps) : List Item :=
  [.bits v.id 4, .bits filling.baseLayer 2, .bits v.maxLayersMinus1 6,
    .bits v.maxSubLayersMinus1 3, .flag v.temporalIdNesting, .bits filling.reserved 16]
    ++ v.profile.items filling.subLayers
    ++ Buffering.perSubLayerItems filling.allBuffering v.buffering
    ++ [.bits v.maxLayerId 6, .ue v.layerSets.length]
    ++ v.layerSets.flatMap (List.map Item.flag)

def Vps.items (filling : Vps.Filling) (v : Vps) : List Item :=
  v.frontItems filling ++ Item.optional (VpsTiming.items filling.delayLengths) v.timing

/-! ## Shared common information -/

/-- The common information of the structure at a place is written. Elsewhere the structure shares
that of the one before it (ISO/IEC 23008-2, 7.4.3.1). -/
def VpsTiming.WritesCommon (coded : Nat → Bool) (place : Nat) : Prop :=
  place = 0 ∨ coded place = true

instance (coded : Nat → Bool) (place : Nat) : Decidable (VpsTiming.WritesCommon coded place) :=
  inferInstanceAs (Decidable (_ ∨ _))

/-- The written form of the structure at a place, with its common information left out where it is
not coded. -/
def LayerSetHrd.sharedItems (coded : Nat → Bool) (delayLengths : Nat → Nat) (place : Nat)
    (h : LayerSetHrd) : List Item :=
  if VpsTiming.WritesCommon coded place then h.items delayLengths place
  else .ue h.layerSet :: .flag false :: h.hrd.subLayers.flatMap HrdSubLayer.items

def VpsTiming.sharedItems (coded : Nat → Bool) (delayLengths : Nat → Nat) (t : VpsTiming) :
    List Item :=
  t.clock.items ++ .ue t.hrds.length
    :: t.hrds.zipIdx.flatMap fun (hrd, place) => hrd.sharedItems coded delayLengths place

def Vps.sharedItems (coded : Nat → Bool) (filling : Vps.Filling) (v : Vps) : List Item :=
  v.frontItems filling
    ++ Item.optional (VpsTiming.sharedItems coded filling.delayLengths) v.timing

/-- The header of a video parameter set of the base layer. -/
def Vps.header : NalHeader := { type := .vps, layerId := 0, temporalIdPlus1 := 1 }

end Hevc
