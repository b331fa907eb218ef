import Hevc.NalUnit.Header
import Hevc.Proofs.Reads
import Hevc.Written.NalUnit

/-!
# Reading NAL units

* `NalUnit.ensures_of_read` — what holds of every payload holds of the one that was read
* `NalUnit.read_escape` — a unit is read back from its written form, and nothing behind the last
  byte of it is taken
-/

namespace Hevc

open Decoder

/-! ## Headers -/

namespace NalHeader

/-- A header of numbers that fit. -/
structure Fits (h : NalHeader) : Prop where
  layerId : h.layerId < 2 ^ 6
  temporalIdPlus1 : h.temporalIdPlus1 < 2 ^ 3

theorem decoder_reads {h : NalHeader} (fits : h.Fits) : decoder.Reads h.items h := by
  refine (reads_flag false).cons ?_
  rw [if_neg Bool.false_ne_true]
  refine (reads_bits h.type.code_lt (by decide)).cons ?_
  refine (reads_bits fits.layerId (by decide)).cons ?_
  rw [NalType.ofCode_code]
  exact (reads_bits fits.temporalIdPlus1 (by decide)).map

theorem expecting_reads {h : NalHeader} (fits : h.Fits) : (expecting h.type).Reads h.items h := by
  refine (decoder_reads fits).then ?_
  rw [if_pos rfl]
  exact reads_pure h

/-- A header may also be written as the two bytes that it consists of. -/
theorem expecting_reads_bytes {h : NalHeader} (fits : h.Fits) {bytes : List UInt8}
    (same : Bits.ofBytes bytes = Item.allBits h.items) :
    (expecting h.type).Reads [.bytes bytes] h := by
  refine (expecting_reads fits).of_allBits ?_ ?_
  · intro item mem
    rw [List.mem_singleton.mp mem]
    trivial
  · rw [← same]
    exact List.append_nil _

end NalHeader

theorem toOption_ok {ε α : Type} {e : Except ε α} {value : α} (h : e.toOption = some value) :
    e = .ok value := by
  cases e with
  | error fault => exact absurd h (by simp [Except.toOption])
  | ok found => exact congrArg Except.ok (Option.some.inj h)

namespace NalUnit

variable {α : Type}

/-! ## Payloads -/

/-- A unit that was read has a payload that its decoder can end with. -/
theorem ensures_of_read {P : α → Prop} {type : NalType} {d : Decoder α} (h : d.Ensures P)
    {nal : List UInt8} {unit : NalUnit α} (ok : (read type d nal).result = .ok unit) :
    P unit.payload := by
  have payload : (decoder type d).Ensures fun unit => P unit.payload :=
    .bind_any fun _ => .bind h fun _ holds => .pure holds
  rw [read] at ok
  generalize hr : (decoder type d).run (.ofBytes .escaped nal) = reading at ok
  obtain ⟨result, c⟩ := reading
  cases result with
  | error fault => nomatch ok
  | ok found =>
    obtain rfl : found = unit := Except.ok.inj ok
    exact payload.of_run (congrArg Prod.fst hr)

/-! ## Written units -/

theorem decoder_reads {type : NalType} {d : Decoder α} {header : NalHeader} {value : α}
    {hs items : List Item} (head : (NalHeader.expecting type).Reads hs header)
    (payload : d.Reads items value) :
    (decoder type d).Reads (hs ++ items) { header, payload := value } :=
  head.bind payload.map

/-- Of a payload that begins with a written form, the reading takes the bytes up to the last one
that has bits of it. -/
theorem read_payload {type : NalType} {d : Decoder α} {unit : NalUnit α} {items : List Item}
    (h : (decoder type d).Reads items unit) {payload : List UInt8} {left : List Bool}
    (bits : Bits.ofBytes payload = Item.allBits items ++ left) :
    read type d (escape payload)
      = { result := .ok unit
          taken := (escape (payload.take (((Item.allBits items).length + 7) / 8))).length } := by
  have ends : (decoder type d).eval
      (Bits.ofBytes (Source.ofBytes .escaped (escape payload)).payload) = (.ok unit, left) := by
    rw [Source.payload_escape, bits]
    exact h.eval left
  have lengths := congrArg List.length bits
  rw [Bits.length_ofBytes, List.length_append] at lengths
  -- the bytes behind the last bit of the unit are still in the source
  have count : payload.length - left.length / 8 = ((Item.allBits items).length + 7) / 8 := by
    omega
  have result := run_ofBytes_fst (decoder type d) .escaped (escape payload)
  have place := run_ofBytes_source ends
  rw [ends] at result
  rw [Source.payload_escape, count] at place
  have taken := congrArg Source.taken place
  rw [Source.taken_advance_escape (by omega)] at taken
  rw [read]
  generalize (decoder type d).run (.ofBytes .escaped (escape payload)) = reading at result taken
  obtain ⟨answer, c⟩ := reading
  obtain rfl : answer = .ok unit := result
  rw [← taken]
  rfl

/-- Items are written with escape bytes, and any bits behind them. -/
theorem exists_escaped {items : List Item} (writable : ∀ item ∈ items, item.Writable)
    (trailing : List Bool) :
    ∃ payload left, escapedBytes (items ++ trailing.map Item.flag) = .ok (escape payload)
      ∧ Bits.ofBytes payload = Item.allBits items ++ left := by
  have all : ∀ item ∈ items ++ trailing.map Item.flag, item.Writable := by
    intro item mem
    rcases List.mem_append.mp mem with mem | mem
    · exact writable item mem
    · obtain ⟨b, -, rfl⟩ := List.mem_map.mp mem
      exact Item.writable_flag b
  obtain ⟨payload, padding, -, written, bits⟩ := Sink.writeItems_unbounded all .escaped
  rw [Item.allBits_append, Item.allBits_flags, List.append_assoc] at bits
  refine ⟨payload, _, ?_, bits⟩
  rw [escapedBytes, written]
  exact congrArg Except.ok (Sink.bytes_holding_escaped payload)

/-- A unit that is written with any bits behind it is read back. -/
theorem read_escape {type : NalType} {d : Decoder α} {unit : NalUnit α} {items : List Item}
    (h : (decoder type d).Reads items unit) (trailing : List Bool) :
    ∃ payload, escapedBytes (items ++ trailing.map Item.flag) = .ok (escape payload)
      ∧ read type d (escape payload)
        = { result := .ok unit
            taken := (escape (payload.take (((Item.allBits items).length + 7) / 8))).length } := by
  obtain ⟨payload, left, written, bits⟩ := exists_escaped h.writable trailing
  exact ⟨payload, written, read_payload h bits⟩

end NalUnit

end Hevc
