import Hevc.NalUnit.NalType

/-!
# Byte streams of NAL units

In a byte stream every NAL unit follows a start code, `00 00 01`. `units` splits a stream: it goes
from start code to start code, leaves the zero bytes at the end of a unit away, since they belong
to the next start code, and drops units that are empty then.
-/

namespace Hevc

/-- The bytes in front of every NAL unit. -/
def startCode : List UInt8 := [0, 0, 1]

/-- The start code with another zero byte in front of it. -/
def longStartCode : List UInt8 := 0 :: startCode

/-- A stream begins with a start code of either length. -/
def startsWithStartCode (data : List UInt8) : Bool :=
  startCode.isPrefixOf data || longStartCode.isPrefixOf data

namespace Stream

/-- Continues `breakAtCode` after the bytes that `passed` holds in reverse. -/
def breakAtCodeFrom (passed : List UInt8) : List UInt8 → List UInt8 × List UInt8
  | [] => (passed.reverse, [])
  | b :: rest =>
    if startCode.isPrefixOf (b :: rest) then (passed.reverse, b :: rest)
    else breakAtCodeFrom (b :: passed) rest

/-- The bytes before the first start code, and the bytes from it on. -/
def breakAtCode (data : List UInt8) : List UInt8 × List UInt8 := breakAtCodeFrom [] data

/-- A unit without the zero bytes at its end. -/
def trimZeros (unit : List UInt8) : List UInt8 :=
  (unit.reverse.dropWhile (· = 0)).reverse

theorem length_breakAtCodeFrom (passed data : List UInt8) :
    (breakAtCodeFrom passed data).1.length + (breakAtCodeFrom passed data).2.length
      = passed.length + data.length := by
  induction data generalizing passed with
  | nil => simp only [breakAtCodeFrom, List.length_reverse, List.length_nil]
  | cons b rest ih =>
    unfold breakAtCodeFrom
    split
    · simp only [List.length_reverse, List.length_cons]
    · rw [ih]
      simp only [List.length_cons]
      omega

theorem length_breakAtCode_snd (data : List UInt8) :
    (breakAtCode data).2.length ≤ data.length := by
  have total := length_breakAtCodeFrom [] data
  simp only [breakAtCode, List.length_nil] at total ⊢
  omega

/-- The next unit of a stream, which may be empty, and the stream from the next start code on. -/
def nextUnit? (data : List UInt8) : Option (List UInt8 × List UInt8) :=
  match (breakAtCode data).2 with
  | [] => none
  | code =>
    let (unit, rest) := breakAtCode (code.drop startCode.length)
    some (trimZeros unit, rest)

theorem length_nextUnit? {data unit rest : List UInt8} (h : nextUnit? data = some (unit, rest)) :
    rest.length < data.length := by
  have first := length_breakAtCode_snd data
  unfold nextUnit? at h
  split at h
  · exact absurd h (by simp)
  · next notEmpty =>
    have second :=
      length_breakAtCode_snd (List.drop startCode.length (breakAtCode data).2)
    simp only [Option.some.injEq, Prod.mk.injEq] at h
    rw [← h.2]
    have positive : 0 < (breakAtCode data).2.length := List.length_pos_iff.mpr notEmpty
    have dropped : (List.drop startCode.length (breakAtCode data).2).length
        = (breakAtCode data).2.length - 3 := List.length_drop
    omega

/-- Continues `units` after the units that `found` holds in reverse. -/
def unitsFrom (found : List (List UInt8)) (data : List UInt8) : List (List UInt8) :=
  match _next : nextUnit? data with
  | none => found.reverse
  | some (unit, rest) => unitsFrom (if unit.isEmpty then found else unit :: found) rest
termination_by data.length
decreasing_by exact length_nextUnit? _next

/-- The NAL units of a stream. -/
def units (data : List UInt8) : List (List UInt8) := unitsFrom [] data

end Stream

end Hevc
