import Hevc.Fault

/-!
# Constant frame rates

What a configuration record says about the frame rate of its stream. One of the four codes of the
field has no meaning and is refused.
-/

namespace Hevc

/-- Whether a stream has a constant frame rate. -/
inductive ConstantFrameRate where
  /-- It may or may not have one. -/
  | unknown
  /-- The stream as a whole has one. -/
  | constant
  /-- Each temporal layer has one. -/
  | temporalLayers
deriving DecidableEq, Repr

namespace ConstantFrameRate

/-- The two-bit code. -/
def code : ConstantFrameRate → Nat
  | .unknown => 0
  | .constant => 1
  | .temporalLayers => 2

/-- The meaning of a code, if it has one. -/
def ofCode (code : Nat) : Except Fault ConstantFrameRate :=
  match code with
  | 0 => .ok .unknown
  | 1 => .ok .constant
  | 2 => .ok .temporalLayers
  | _ => .error (.constantFrameRate code)

/-- The name of a meaning. -/
def name : ConstantFrameRate → String
  | .unknown => "Unknown"
  | .constant => "Constant"
  | .temporalLayers => "TemporalLayerConstant"

theorem code_lt (r : ConstantFrameRate) : r.code < 4 := by
  cases r <;> decide

theorem ofCode_code (r : ConstantFrameRate) : ofCode r.code = .ok r := by
  cases r <;> rfl

end ConstantFrameRate

end Hevc
