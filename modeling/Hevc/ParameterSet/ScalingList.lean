import Hevc.ExpGolomb

/-!
# Scaling lists

`scaling_list_data()`: quantisation factors for the four transform sizes. The three smaller sizes
have six matrices each, 32x32 has two, which stand for the matrices 0 and 3 of the syntax. A list
is coded by its differences, or it repeats the default or an earlier list of its size.
-/

namespace Hevc

/-- The scaling list of one matrix. -/
structure ScalingList where
  /-- The factors in coding order. -/
  factors : List Nat
  /-- The factor of the constant component, which the two larger sizes code on its own. -/
  dc : Option Nat
deriving DecidableEq, Repr

/-- The scaling lists of every size, from 4x4 to 32x32, each in the order of their matrices. -/
structure ScalingLists where
  sizes : List (List ScalingList)
deriving DecidableEq, Repr

namespace ScalingList

/-! ## Sizes -/

/-- The distance of two coded matrices: at 32x32 only every third is coded. -/
def matrixStep (sizeId : Nat) : Nat := if sizeId = 3 then 3 else 1

/-- The number of coded matrices of a size. -/
def matrixCount (sizeId : Nat) : Nat := 6 / matrixStep sizeId

/-- The number of factors in a list of a size. -/
def factorCount (sizeId : Nat) : Nat := min 64 (1 <<< (4 + 2 * sizeId))

/-- The size codes the constant component on its own. -/
def hasDc (sizeId : Nat) : Bool := 1 < sizeId

/-! ## Default lists -/

/-- The default factors of intra matrices, 8x8 and larger (ISO/IEC 23008-2, table 7-6). -/
def defaultIntra : List Nat :=
  [16, 16, 16, 16, 16, 16, 16, 16, 16, 16, 17, 16, 17, 16, 17, 18,
   17, 18, 18, 17, 18, 21, 19, 20, 21, 20, 19, 21, 24, 22, 22, 24,
   24, 22, 22, 24, 25, 25, 27, 30, 27, 25, 25, 29, 31, 35, 35, 31,
   29, 36, 41, 44, 41, 36, 47, 54, 54, 47, 65, 70, 65, 88, 88, 115]

/-- The default factors of inter matrices, 8x8 and larger (ISO/IEC 23008-2, table 7-6). -/
def defaultInter : List Nat :=
  [16, 16, 16, 16, 16, 16, 16, 16, 16, 16, 17, 17, 17, 17, 17, 18,
   18, 18, 18, 18, 18, 20, 20, 20, 20, 20, 20, 20, 24, 24, 24, 24,
   24, 24, 24, 24, 25, 25, 25, 25, 25, 25, 25, 28, 28, 28, 28, 28,
   28, 33, 33, 33, 33, 33, 41, 41, 41, 41, 54, 54, 54, 71, 71, 91]

/-- The factor of every place of the smallest lists, and of every constant component. -/
def flatFactor : Nat := 16

/-- The list that holds where a matrix refers to nothing before it. -/
def default (sizeId matrixId : Nat) : ScalingList :=
  { factors :=
      if sizeId = 0 then List.replicate 16 flatFactor
      else if matrixId < 3 then defaultIntra
      else defaultInter
    dc := if hasDc sizeId then some flatFactor else none }

/-! ## Reading -/

open Decoder

/-- Continues `factorsFrom` after the factors that `got` holds in reverse, the last being
`factor`. Each difference is taken modulo 256. -/
def factorsFrom (factor : Int) (got : List Nat) : Nat → Decoder (List Nat)
  | 0 => .done got.reverse
  | count + 1 => do
    let difference ← se
    let sum ← checked (Word.signed? 63 (factor + difference))
    let factor := sum % 256
    factorsFrom factor (factor.toNat :: got) count

/-- The factor that the first difference counts from, where the size has no constant component. -/
def startFactor : Int := 8

/-- Reads the factor of the constant component. -/
def dcFactor : Decoder Int := do
  let dcMinus8 ← se
  require .dcCoefficient (-7) 247 dcMinus8
  checked (Word.signed? 63 (dcMinus8 + 8))

/-- Reads a list that is coded by its differences. -/
def coded (sizeId : Nat) : Decoder ScalingList := do
  let dc ← when (hasDc sizeId) dcFactor
  let factors ← factorsFrom (dc.getD startFactor) [] (factorCount sizeId)
  return { factors, dc := dc.map Int.toNat }

/-- Reads a list that repeats an earlier one. `before` holds the lists of the size up to here,
the last first. A distance of 0 means the default list. -/
def repeated (sizeId : Nat) (before : List ScalingList) : Decoder ScalingList := do
  let distance ← ue
  require .matrixDelta 0 before.length distance
  match distance with
  | 0 => return default sizeId (before.length * matrixStep sizeId)
  | back + 1 => checked before[back]?

/-- Reads the list of the next matrix of a size. -/
def decoder (sizeId : Nat) (before : List ScalingList) : Decoder ScalingList := do
  let isCoded ← flag
  if isCoded then coded sizeId else repeated sizeId before

/-- Continues `ofSize` after the lists that `before` holds in reverse. -/
def ofSizeFrom (sizeId : Nat) (before : List ScalingList) : Nat → Decoder (List ScalingList)
  | 0 => .done before.reverse
  | count + 1 => do
    let list ← decoder sizeId before
    ofSizeFrom sizeId (list :: before) count

/-- Reads the lists of one size. -/
def ofSize (sizeId : Nat) : Decoder (List ScalingList) :=
  ofSizeFrom sizeId [] (matrixCount sizeId)

end ScalingList

namespace ScalingLists

open ScalingList

def decoder : Decoder ScalingLists := do
  let sizes ← Decoder.forEach [0, 1, 2, 3] ofSize
  return { sizes }

/-- The list of a matrix of the syntax, if one is coded. -/
def list? (lists : ScalingLists) (sizeId matrixId : Nat) : Option ScalingList :=
  if matrixId % matrixStep sizeId = 0 then do
    let ofSize ← lists.sizes[sizeId]?
    ofSize[matrixId / matrixStep sizeId]?
  else none

/-- The 64 places of a matrix of the syntax. A place that no list fills is 0. -/
def factors (lists : ScalingLists) (sizeId matrixId : Nat) : List Nat :=
  let coded := ((lists.list? sizeId matrixId).map (·.factors)).getD []
  coded ++ List.replicate (64 - coded.length) 0

/-- The constant component of a matrix of the syntax, or 0 where there is none. -/
def dc (lists : ScalingLists) (sizeId matrixId : Nat) : Nat :=
  ((lists.list? sizeId matrixId).bind (·.dc)).getD 0

end ScalingLists

end Hevc
