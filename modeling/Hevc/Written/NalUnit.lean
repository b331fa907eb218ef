import Hevc.Bits.Packer
import Hevc.NalUnit.Header

/-!
# Written form of NAL units

Each structure that can be read also has a written form, as a list of items for a packer: the
header and the shape of optional values here, the structures in the modules beside this one. Bits
that reading passes over are given from outside, so that a statement about written forms covers
every value of them.
-/

namespace Hevc

namespace Item

/-- A flag that is set where there is a value, and then the value. -/
def optional {α : Type} (items : α → List Item) : Option α → List Item
  | none => [flag false]
  | some value => flag true :: items value

/-- A value, if there is one; another item says whether. -/
def present {α : Type} (items : α → List Item) : Option α → List Item
  | none => []
  | some value => items value

end Item

def NalHeader.items (h : NalHeader) : List Item :=
  [.flag false, .bits h.type.code 6, .bits h.layerId 6, .bits h.temporalIdPlus1 3]

/-- The bytes of items after escape bytes are inserted, if every item has a written form. -/
def escapedBytes (items : List Item) : Except Fault (List UInt8) :=
  let (result, sink) := (Sink.unbounded .escaped).writeItems items
  result.map fun _ => sink.bytes

end Hevc
