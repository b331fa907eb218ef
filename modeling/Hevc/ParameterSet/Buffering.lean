import Hevc.ExpGolomb

/-!
# Picture buffering

How many pictures a decoder has to hold back for each sub-layer. The values are carried as read.
-/

namespace Hevc

/-- The picture buffering of one sub-layer. -/
structure Buffering where
  maxDecPicBufferingMinus1 : Nat
  maxNumReorderPics : Nat
  maxLatencyIncreasePlus1 : Nat
deriving DecidableEq, Repr

namespace Buffering

open Decoder

def decoder : Decoder Buffering := do
  let maxDecPicBufferingMinus1 ← ue
  let maxNumReorderPics ← ue
  let maxLatencyIncreasePlus1 ← ue
  return { maxDecPicBufferingMinus1, maxNumReorderPics, maxLatencyIncreasePlus1 }

/-- Reads the buffering of every sub-layer. A flag says whether each is coded, or the highest
only, whose values then hold for all of them. -/
def perSubLayer (maxSubLayersMinus1 : Nat) : Decoder (List Buffering) := do
  let count ← checked (Word.unsigned? 64 (maxSubLayersMinus1 + 1))
  let all ← flag
  if all then many count decoder
  else
    let top ← decoder
    return List.replicate count top

end Buffering

end Hevc
