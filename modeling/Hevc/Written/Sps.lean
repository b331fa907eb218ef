import Hevc.ParameterSet.Sps
import Hevc.Written.Profile
import Hevc.Written.Vui

/-!
# Written form of sequence parameter sets

Scaling lists are written by the differences of their factors, and reference picture sets
explicitly. Other codes of a list, and predicted sets, have a written form of their own. What
reading passes over, and the choices that it does not tell apart, come from outside as a
`Sps.Filling`.
-/

namespace Hevc

/-! ## Scaling lists -/

namespace ScalingList

/-- The differences of factors, the first counted from `factor`. They are taken modulo 256, as
numbers from -128 to 127. -/
def differences (factor : Int) : List Nat → List Item
  | [] => []
  | next :: rest => .se ((next - factor).bmod 256) :: differences next rest

def items (l : ScalingList) : List Item :=
  .flag true :: Item.present (fun (dc : Nat) => [.se (dc - 8)]) l.dc
    ++ differences ((l.dc.map Int.ofNat).getD startFactor) l.factors

end ScalingList

/-- How a list is coded. -/
inductive ListCode where
  /-- By the differences of its factors, behind the constant component less 8 if there is one. -/
  | differences (dcMinus8 : Option Int) (ds : List Int)
  /-- As the list of an earlier matrix, so many matrices before it, or as the default list. -/
  | repeats (distance : Nat)

namespace ListCode

/-- What is written in front of the differences. -/
def frontItems (dcMinus8 : Option Int) : List Item :=
  .flag true :: Item.present (fun n => [.se n]) dcMinus8

def items : ListCode → List Item
  | .differences dcMinus8 ds => frontItems dcMinus8 ++ ds.map .se
  | .repeats distance => [.flag false, .ue distance]

end ListCode

/-- A matrix of the syntax, and how its list is coded. -/
structure MatrixCode where
  sizeId : Nat
  matrixId : Nat
  code : ListCode

namespace MatrixCode

def matrix (x : MatrixCode) : Nat × Nat := (x.sizeId, x.matrixId)

def items (x : MatrixCode) : List Item := x.code.items

end MatrixCode

/-- The matrices of a size whose lists are coded, in their order. -/
def ScalingList.matrices (sizeId : Nat) : List (Nat × Nat) :=
  (List.range (matrixCount sizeId)).map fun place => (sizeId, place * matrixStep sizeId)

/-- All matrices whose lists are coded, in their order. -/
def ScalingLists.matrices : List (Nat × Nat) := [0, 1, 2, 3].flatMap ScalingList.matrices

/-- The written form of the lists of all sizes. -/
def ScalingLists.items (lists : ScalingLists) : List Item :=
  lists.sizes.flatMap fun size => size.flatMap ScalingList.items

/-! ## Reference pictures -/

namespace RefPicSet

/-- The written form of one side of a set, the last picture written being at `distance`. -/
def sideItems (sign distance : Int) : List RefPic → List Item
  | [] => []
  | pic :: rest =>
    .ue (sign * (pic.delta - distance) - 1).toNat :: .flag pic.used
      :: sideItems sign pic.delta rest

def items (set : RefPicSet) : List Item :=
  [.ue set.negative.length, .ue set.positive.length]
    ++ sideItems (-1) 0 set.negative ++ sideItems 1 0 set.positive

/-- The written form of the flags of a picture. That a picture which is used is kept goes without
saying. -/
def Choice.items (c : Choice) : List Item :=
  .flag c.used :: if !c.used then [.flag c.kept] else []

/-- The written form of a set that is predicted from an earlier one, by how far that is moved and by
the flags of its pictures. -/
def predictedItems (shift : Int) (choices : List Choice) : List Item :=
  [.flag (shift < 0), .ue (shift.natAbs - 1)] ++ choices.flatMap Choice.items

/-- The written form of the set at a place of the list, none of them predicted. -/
def itemsAt (place : Nat) (set : RefPicSet) : List Item :=
  (if 0 < place then [.flag false] else []) ++ set.items

/-- The written form of all sets. -/
def allItems (sets : List RefPicSet) : List Item :=
  .ue sets.length :: sets.zipIdx.flatMap fun (set, place) => set.itemsAt place

end RefPicSet

namespace LongTermPic

def items (width : Nat) (pic : LongTermPic) : List Item := [.bits pic.pocLsb width, .flag pic.used]

/-- The written form of all candidates. -/
def allItems (log2MaxPocLsbMinus4 : Nat) (pics : List LongTermPic) : List Item :=
  .ue pics.length :: pics.flatMap (items (pocBits log2MaxPocLsbMinus4))

end LongTermPic

/-! ## Parameter sets -/

/-- The written form of the parameters of samples that are coded as they are. -/
def Pcm.items (p : Pcm) : List Item :=
  [.bits p.bitDepthLumaMinus1 4, .bits p.bitDepthChromaMinus1 4, .ue p.log2MinSizeMinus3,
    .ue p.log2SizeDiff, .flag p.loopFilterDisabled]

def BlockSizes.items (b : BlockSizes) : List Item :=
  [.ue b.log2MinCodingMinus3, .ue b.log2DiffCoding, .ue b.log2MinTransformMinus2,
    .ue b.log2DiffTransform, .ue b.maxHierarchyDepthInter, .ue b.maxHierarchyDepthIntra]

/-- What the written form of a sequence parameter set holds beside the values of the set. -/
structure Sps.Filling where
  /-- The bits for sub-layers that are not there. -/
  subLayers : Nat
  /-- Picture buffering is written for each sub-layer. -/
  allBuffering : Bool
  /-- The aspect ratio is written as a pair of numbers even if it has a code. -/
  ratioAsPair : Bool
  /-- The delay lengths of the reference decoder parameters. -/
  delayLengths : Nat

def Sps.items (filling : Sps.Filling) (s : Sps) : List Item :=
  [.bits s.vpsId 4, .bits s.maxSubLayersMinus1 3, .flag s.temporalIdNesting]
    ++ s.profile.items filling.subLayers
    ++ [.ue s.id, .ue s.chromaFormat]
    ++ (if s.chromaFormat = format444 then [.flag s.separateColourPlane] else [])
    ++ [.ue s.width, .ue s.height]
    ++ Item.optional Window.items s.conformanceWindow
    ++ [.ue s.bitDepthLumaMinus8, .ue s.bitDepthChromaMinus8, .ue s.log2MaxPocLsbMinus4]
    ++ Buffering.perSubLayerItems filling.allBuffering s.buffering
    ++ s.blockSizes.items
    ++ .flag s.scalingEnabled
      :: (if s.scalingEnabled then Item.optional ScalingLists.items s.scalingLists else [])
    ++ [.flag s.asymmetricMotion, .flag s.sampleAdaptiveOffset]
    ++ Item.optional Pcm.items s.pcm
    ++ RefPicSet.allItems s.shortTermSets
    ++ Item.optional (LongTermPic.allItems s.log2MaxPocLsbMinus4) s.longTermPics
    ++ [.flag s.temporalMvp, .flag s.strongIntraSmoothing]
    ++ Item.optional (Vui.items filling.ratioAsPair filling.delayLengths) s.vui

/-- The header of a sequence parameter set of the base layer. -/
def Sps.header : NalHeader := { type := .sps, layerId := 0, temporalIdPlus1 := 1 }

end Hevc
