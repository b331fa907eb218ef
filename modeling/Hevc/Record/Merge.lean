import Hevc.ParameterSet.Pps
import Hevc.ParameterSet.Sps
import Hevc.ParameterSet.Vps
import Hevc.Record.Basic

/-!
# Merging parameter sets into a record

Each parameter set of a stream is merged into the record in turn, and at the end the record is
made final. The profile and the restrictions of the record have to hold for all sets, so they are
merged; the sample format and the parallelism are those of the last set that has them.
-/

namespace Hevc

/-- Merges a profile into another. The level of the higher tier counts, and the higher level
within one tier. -/
def Profile.merge (p q : Profile) : Profile :=
  { space := max p.space q.space
    highTier := p.highTier || q.highTier
    idc := max p.idc q.idc
    compatibility := p.compatibility &&& q.compatibility
    constraints := p.constraints &&& q.constraints
    level :=
      if p.highTier = q.highTier then max p.level q.level
      else if q.highTier then q.level
      else p.level }

namespace Record

/-- Merges a profile. -/
def mergeProfile (p : Profile) (r : Record) : Record := { r with profile := r.profile.merge p }

/-- Merges the number of sub-layers and whether they are nested. -/
def mergeSubLayers (maxSubLayersMinus1 : Nat) (nested : Bool) (r : Record) : Record :=
  { r with
    numTemporalLayers := max r.numTemporalLayers (maxSubLayersMinus1 + 1)
    temporalIdNested := r.temporalIdNested || nested }

/-- Merges a spatial segmentation: the lowest counts. -/
def mergeSegmentation (segmentation : Nat) (r : Record) : Record :=
  { r with minSpatialSegmentation := min r.minSpatialSegmentation segmentation }

/-- Merges a video parameter set. -/
def mergeVps (vps : Vps) (r : Record) : Record :=
  (r.mergeSubLayers vps.maxSubLayersMinus1 vps.temporalIdNesting).mergeProfile vps.profile.general

/-- Takes over the sample format of a sequence parameter set, as far as the fields hold it. -/
def takeFormat (sps : Sps) (r : Record) : Record :=
  { r with
    chromaFormat := sps.chromaFormat % 4
    bitDepthLumaMinus8 := sps.bitDepthLumaMinus8 % 8
    bitDepthChromaMinus8 := sps.bitDepthChromaMinus8 % 8 }

/-- Merges a sequence parameter set. -/
def mergeSps (sps : Sps) (r : Record) : Record :=
  let merged := ((r.mergeSubLayers sps.maxSubLayersMinus1 sps.temporalIdNesting).mergeProfile
    sps.profile.general).takeFormat sps
  match sps.vui.bind (·.minSpatialSegmentation?) with
  | some segmentation => merged.mergeSegmentation segmentation
  | none => merged

/-- Merges a picture parameter set: the last one decides on the parallelism. -/
def mergePps (pps : Pps) (r : Record) : Record := { r with parallelism := pps.parallelism }

/-- Replaces a spatial segmentation that nothing restricted by 0. -/
def settleSegmentation (r : Record) : Record :=
  if r.minSpatialSegmentation = unrestricted then { r with minSpatialSegmentation := 0 } else r

/-- Drops a parallelism that no spatial segmentation gives a meaning to. -/
def settleParallelism (r : Record) : Record :=
  if r.minSpatialSegmentation = 0 then { r with parallelism := .mixedOrUnknown } else r

/-- Makes a record final. -/
def finalize (r : Record) : Record := r.settleSegmentation.settleParallelism

end Record

end Hevc
