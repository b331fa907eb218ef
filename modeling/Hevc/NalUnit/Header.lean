import Hevc.Bits.Decoder

/-!
# NAL unit headers

The two bytes at the front of a NAL unit. Only the forbidden bit is held against the format; the
layer and the temporal identifier are carried as they are. `Unit.read` reads a whole unit: its
header, which has to announce the expected type, and then its payload.
-/

namespace Hevc

/-- The header of a NAL unit (ISO/IEC 23008-2, 7.3.1.2). -/
structure NalHeader where
  /-- What the unit holds. -/
  type : NalType
  /-- `nuh_layer_id`, 6 bits. -/
  layerId : Nat
  /-- `nuh_temporal_id_plus1`, 3 bits. -/
  temporalIdPlus1 : Nat
deriving DecidableEq, Repr

namespace NalHeader

open Decoder

/-- The temporal layer of a unit; 0 also where the header has the forbidden value 0. -/
def temporalId (h : NalHeader) : Nat := h.temporalIdPlus1 - 1

def decoder : Decoder NalHeader := do
  let forbidden ← flag
  if forbidden then .fail .forbiddenBit
  else
    let type ← bits 6
    let layerId ← bits 6
    let temporalIdPlus1 ← bits 3
    return { type := .ofCode type, layerId, temporalIdPlus1 }

/-- Reads a header that has to announce a type. -/
def expecting (type : NalType) : Decoder NalHeader := do
  let header ← decoder
  if header.type = type then return header else .fail (.unexpectedType type header.type)

end NalHeader

/-- A NAL unit that was read: its header and what the payload says. -/
structure NalUnit (α : Type) where
  header : NalHeader
  payload : α
deriving DecidableEq, Repr

/-- What came of reading a NAL unit. -/
structure Reading (α : Type) where
  /-- The unit, or the report why it cannot be read. -/
  result : Except Error (NalUnit α)
  /-- How many bytes were taken when the reading ended, escape bytes included. -/
  taken : Nat

namespace NalUnit

variable {α : Type}

/-- Reads a header of the expected type and then a payload. -/
def decoder (type : NalType) (payload : Decoder α) : Decoder (NalUnit α) := do
  let header ← NalHeader.expecting type
  let payload ← payload
  return { header, payload }

/-- Reads a NAL unit that still has its escape bytes. -/
def read (type : NalType) (payload : Decoder α) (nal : List UInt8) : Reading α :=
  let (result, cursor) := (decoder type payload).run (.ofBytes .escaped nal)
  { result := result.mapError Fault.toError, taken := cursor.source.taken }

end NalUnit

end Hevc
