import Hevc.ExpGolomb

/-!
# Reference picture sets

The short-term sets of a sequence parameter set say how far before and after the current picture
its reference pictures lie; the long-term candidates name pictures by the low bits of their order
count. A short-term set is coded explicitly, or it is predicted from the set before it by moving
that set along and choosing from the result.
-/

namespace Hevc

/-- A reference picture, by its distance in picture order from the current one. -/
structure RefPic where
  /-- The distance, negative for a picture before the current one. -/
  delta : Int
  /-- The current picture may use it, and not only later ones. -/
  used : Bool
deriving DecidableEq, Repr

/-- A short-term reference picture set (ISO/IEC 23008-2, 7.4.8). -/
structure RefPicSet where
  /-- The pictures before the current one, the nearest first. -/
  negative : List RefPic
  /-- The pictures after the current one, the nearest first. -/
  positive : List RefPic
deriving DecidableEq, Repr

namespace RefPicSet

/-- The most pictures on either side of a set. -/
def maxPicsPerSide : Nat := 16

/-- The greatest distance less one that is coded at once. -/
def maxDeltaMinus1 : Nat := 1 <<< 15 - 1

open Decoder

/-! ## Explicit sets -/

/-- Continues `side` after the pictures that `got` holds in reverse, the last being at
`distance`. -/
def sideFrom (element : Element) (sign distance : Int) (got : List RefPic) :
    Nat → Decoder (List RefPic)
  | 0 => .done got.reverse
  | count + 1 => do
    let deltaMinus1 ← ue
    require element 0 maxDeltaMinus1 deltaMinus1
    let distance ← checked (Word.signed? 63 (distance + sign * (deltaMinus1 + 1)))
    let used ← flag
    sideFrom element sign distance ({ delta := distance, used } :: got) count

/-- Reads `count` pictures, each coded by its distance from the one before it. -/
def side (element : Element) (sign : Int) (count : Nat) : Decoder (List RefPic) :=
  sideFrom element sign 0 [] count

/-- Reads the number of pictures of one side. -/
def picCount (element : Element) : Decoder Nat := do
  let count ← ue
  require element 0 maxPicsPerSide count
  return count

/-- Reads a set that is coded explicitly. -/
def explicit : Decoder RefPicSet := do
  let negativeCount ← picCount .negativeCount
  let positiveCount ← picCount .positiveCount
  let negative ← side .negativeDelta (-1) negativeCount
  let positive ← side .positiveDelta 1 positiveCount
  return { negative, positive }

/-! ## Predicted sets -/

/-- The flags of a picture of the earlier set: whether the new set uses it, and whether it keeps
it. -/
structure Choice where
  used : Bool
  kept : Bool
deriving DecidableEq, Repr

/-- A picture of the earlier set, moved along, and whether the new set keeps it. -/
structure Candidate where
  pic : RefPic
  kept : Bool
deriving DecidableEq, Repr

/-- Reads how far the earlier set is moved. -/
def shift : Decoder Int := do
  let back ← flag
  let deltaMinus1 ← ue
  require .deltaRps 0 maxDeltaMinus1 deltaMinus1
  checked (Word.signed? 63 ((if back then -1 else 1) * (deltaMinus1 + 1)))

/-- Reads the flags of a picture. A picture that is used is kept. -/
def choice : Decoder Choice := do
  let used ← flag
  let kept ← codedOr (!used) true flag
  return { used, kept }

/-- The picture that lay at `delta`, with the flags at a place of their list. -/
def candidate? (shift : Int) (choices : List Choice) (place : Nat) (delta : Int) :
    Option Candidate := do
  let choice ← choices[place]?
  let delta ← Word.signed? 63 (delta + shift)
  return { pic := { delta, used := choice.used }, kept := choice.kept }

/-- The pictures of one side, whose flags begin at a place of their list. -/
def candidates? (shift : Int) (choices : List Choice) (first : Nat) (pics : List RefPic) :
    Option (List Candidate) :=
  (List.range pics.length).mapM fun j => do
    let pic ← pics[j]?
    candidate? shift choices (first + j) pic.delta

/-- The kept pictures of a list that lie on one side. -/
def choose (onSide : Int → Bool) (candidates : List Candidate) : List RefPic :=
  (candidates.filter fun c => onSide c.pic.delta && c.kept).map (·.pic)

/-- The set that is chosen from the moved pictures of the earlier one, `own` being the place of
its current picture (ISO/IEC 23008-2, (7-61) and (7-62)). Listing the far side from its end keeps
both sides ordered by their distance. -/
def predict (negative positive : List Candidate) (own : Candidate) : RefPicSet :=
  { negative := choose (· < 0) (positive.reverse ++ [own] ++ negative)
    positive := choose (0 < ·) (negative.reverse ++ [own] ++ positive) }

/-- Reads a set that is predicted from an earlier one. The flags of all pictures are read first:
those of the negative side, those of the positive side, and those of the current picture. -/
def predicted (reference : RefPicSet) : Decoder RefPicSet := do
  let shift ← shift
  let negativeCount := reference.negative.length
  let ownPlace := negativeCount + reference.positive.length
  let choices ← many (ownPlace + 1) choice
  let negative ← checked (candidates? shift choices 0 reference.negative)
  let positive ← checked (candidates? shift choices negativeCount reference.positive)
  let own ← checked (candidate? shift choices ownPlace 0)
  let set := predict negative positive own
  require .predictedNegativeCount 0 maxPicsPerSide set.negative.length
  require .predictedPositiveCount 0 maxPicsPerSide set.positive.length
  return set

/-! ## All sets -/

/-- Reads the next set. The first one cannot be predicted. -/
def decoder : Option RefPicSet → Decoder RefPicSet
  | none => explicit
  | some reference => do
    let isPredicted ← flag
    if isPredicted then predicted reference else explicit

/-- Continues `all` after the sets that `before` holds in reverse. -/
def allFrom (before : List RefPicSet) : Nat → Decoder (List RefPicSet)
  | 0 => .done before.reverse
  | count + 1 => do
    let set ← decoder before.head?
    allFrom (set :: before) count

/-- Reads `count` sets. -/
def all (count : Nat) : Decoder (List RefPicSet) := allFrom [] count

/-- The most sets that a sequence parameter set has. -/
def maxSets : Nat := 64

/-- Reads the number of sets and the sets. -/
def counted : Decoder (List RefPicSet) := do
  let count ← ue
  require .shortTermSetCount 0 maxSets count
  all count

end RefPicSet

/-- A long-term reference picture candidate. -/
structure LongTermPic where
  /-- The low bits of its picture order count. -/
  pocLsb : Nat
  /-- The current picture may use it. -/
  used : Bool
deriving DecidableEq, Repr

namespace LongTermPic

open Decoder

/-- The number of bits that name a candidate. -/
def pocBits (log2MaxPocLsbMinus4 : Nat) : Nat := min (log2MaxPocLsbMinus4 + 4) 16

def decoder (width : Nat) : Decoder LongTermPic := do
  let pocLsb ← bits width
  let used ← flag
  return { pocLsb, used }

/-- Reads the number of candidates and the candidates. -/
def all (log2MaxPocLsbMinus4 : Nat) : Decoder (List LongTermPic) := do
  let count ← ue
  require .longTermCount 0 32 count
  many count (decoder (pocBits log2MaxPocLsbMinus4))

end LongTermPic

end Hevc
