import Hevc.Proofs.FullSink
import Hevc.Record.Serial

/-!
# The form of a record, byte by byte

What is written of a record, whatever its fields hold: 23 bytes, in which every field is reduced to
its width and the reserved bits are set, and then each array after a byte with its flag and its type
and the number of its units, each of them after its length. A number of units or a length that 16
bits cannot hold cuts the form off in front of the two bytes in which it would stand.

* `Record.form` — the form of a record, and the fault that cuts it off
* `shows_items`, `toBytes_eq_form` — the items of a record are written as its form
* `mux_failing` — what arrives of it in a sink that fails after some bytes
-/

namespace Hevc.Record

/-! ## Forms -/

/-- Bytes to be written, and the fault that cuts them off, if there is something that has no written
form. -/
structure Form where
  bytes : List UInt8
  cut : Option Fault
deriving DecidableEq, Repr

namespace Form

/-- Bytes that are not cut off. -/
def whole (bytes : List UInt8) : Form := ⟨bytes, none⟩

/-- One form and another behind it, unless the first is cut off. -/
def append (f g : Form) : Form :=
  match f.cut with
  | none => ⟨f.bytes ++ g.bytes, g.cut⟩
  | some _ => f

/-- Forms one after another, up to the first that is cut off. -/
def concat (forms : List Form) : Form := forms.foldr append (whole [])

/-- What writing a form answers. -/
def result (f : Form) : Except Fault Unit :=
  match f.cut with
  | none => .ok ()
  | some fault => .error fault

variable {f : Form}

theorem append_of_uncut (h : f.cut = none) (g : Form) :
    f.append g = ⟨f.bytes ++ g.bytes, g.cut⟩ := by
  unfold append
  rw [h]

theorem append_of_cut {fault : Fault} (h : f.cut = some fault) (g : Form) : f.append g = f := by
  unfold append
  rw [h]

theorem result_of_uncut (h : f.cut = none) : f.result = .ok () := by
  unfold result
  rw [h]

theorem result_of_cut {fault : Fault} (h : f.cut = some fault) : f.result = .error fault := by
  unfold result
  rw [h]

theorem result_eq_ok : f.result = .ok () ↔ f.cut = none := by
  constructor
  · intro done
    cases found : f.cut with
    | none => rfl
    | some fault => exact absurd done (by simp [result_of_cut found])
  · exact result_of_uncut

end Form

/-- A number of 16 bits as two bytes, the higher first. -/
def word (n : Nat) : List UInt8 := [UInt8.ofNat (n / 256), UInt8.ofNat n]

/-- A number in 16 bits, unless they do not hold it. -/
def countForm (n : Nat) (tooLarge : Fault) : Form :=
  if n < 2 ^ 16 then .whole (word n) else ⟨[], some tooLarge⟩

/-- A unit after its length. -/
def unitForm (type : NalType) (unit : List UInt8) : Form :=
  (countForm unit.length (.unitTooLarge type unit.length)).append (.whole unit)

/-- An array: its flag and its type, the number of its units, and the units. -/
def arrayForm (a : NalArray) : Form :=
  (Form.whole [UInt8.ofNat (a.complete.toNat * 128 + a.type.code)]).append
    ((countForm a.units.size (.tooManyUnits a.type a.units.size)).append
      (.concat (a.units.toList.map (unitForm a.type))))

/-- The bytes in front of the arrays. -/
def fixedBytes (r : Record) : List UInt8 :=
  [UInt8.ofNat version,
    UInt8.ofNat (r.profile.space % 4 * 64 + r.profile.highTier.toNat * 32 + r.profile.idc % 32)]
  ++ word (r.profile.compatibility / 2 ^ 16) ++ word r.profile.compatibility
  ++ word (r.profile.constraints / 2 ^ 32) ++ word (r.profile.constraints / 2 ^ 16)
    ++ word r.profile.constraints
  ++ [UInt8.ofNat r.profile.level]
  ++ word (0xf000 + r.minSpatialSegmentation % 4096)
  ++ [UInt8.ofNat (0xfc + r.parallelism.code),
    UInt8.ofNat (0xfc + r.chromaFormat % 4),
    UInt8.ofNat (0xf8 + r.bitDepthLumaMinus8 % 8),
    UInt8.ofNat (0xf8 + r.bitDepthChromaMinus8 % 8)]
  ++ word r.avgFrameRate
  ++ [UInt8.ofNat (r.constantFrameRate.code * 64 + r.numTemporalLayers % 8 * 8
        + r.temporalIdNested.toNat * 4 + r.lengthSizeMinusOne % 4),
    UInt8.ofNat r.arrays.length]

/-- The form of a record. Nothing is written of one that has more arrays than it can count. -/
def form (r : Record) : Form :=
  if maxArrays < r.arrays.length then ⟨[], some .tooManyArrays⟩
  else (Form.whole r.fixedBytes).append (.concat (r.arrays.map arrayForm))

/-- The numbers of a record fit the fields in which they are written. -/
structure Countable (r : Record) : Prop where
  arrays : r.arrays.length ≤ maxArrays
  units : ∀ a ∈ r.arrays, a.units.size < 2 ^ 16
  lengths : ∀ a ∈ r.arrays, ∀ unit ∈ a.units, unit.length < 2 ^ 16

/-! ## The fields -/

/-- A field holds what is left of a number that is too large for it. -/
theorem field_mod (width value : Nat) : field width (value % 2 ^ width) = field width value := by
  rw [field, field, Nat.one_shiftLeft, Nat.mod_mod]

theorem writable_field {width value : Nat} (narrow : width ≤ 64) :
    (field width value).Writable := by
  refine ⟨?_, narrow⟩
  rw [Nat.one_shiftLeft]
  exact Nat.mod_lt _ (Nat.two_pow_pos width)

theorem writable_ones {width : Nat} (narrow : width ≤ 64) : (ones width).Writable := by
  refine ⟨?_, narrow⟩
  rw [Nat.one_shiftLeft]
  exact Nat.sub_lt (Nat.two_pow_pos width) Nat.one_pos

/-- Whatever the fields hold, they have a written form. -/
theorem writable_fixedItems (r : Record) : ∀ item ∈ r.fixedItems, item.Writable := by
  simp only [fixedItems, List.forall_mem_cons]
  refine ⟨writable_field ?_, writable_field ?_, Item.writable_flag _, writable_field ?_,
    writable_field ?_, writable_field ?_, writable_field ?_, writable_ones ?_, writable_field ?_,
    writable_ones ?_, writable_field ?_, writable_ones ?_, writable_field ?_, writable_ones ?_,
    writable_field ?_, writable_ones ?_, writable_field ?_, writable_field ?_, writable_field ?_,
    writable_field ?_, Item.writable_flag _, writable_field ?_, by simp⟩
  all_goals decide

theorem count16_of_lt {n : Nat} {tooLarge : Fault} (h : n < 2 ^ 16) :
    count16 n tooLarge = .bits n 16 := if_pos h

theorem count16_of_not_lt {n : Nat} {tooLarge : Fault} (h : ¬n < 2 ^ 16) :
    count16 n tooLarge = .refuse tooLarge := if_neg h

theorem ofBytes_word (n : Nat) : Bits.ofBytes (word n) = Bits.ofNat n 16 := by
  rw [word, Bits.ofBytes_cons, Bits.ofBytes_cons, Bits.ofBytes_nil, List.append_nil,
    Bits.ofByte_ofNat, Bits.ofByte_ofNat]
  exact (Bits.ofNat_add n 8 8).symm

theorem toBits_field (width value : Nat) : (field width value).toBits = Bits.ofNat value width := by
  show Bits.ofNat (value % (1 <<< width)) width = _
  rw [Nat.one_shiftLeft, Bits.ofNat_mod]

theorem toBits_ones (width : Nat) : (ones width).toBits = Bits.ofNat (2 ^ width - 1) width := by
  show Bits.ofNat (1 <<< width - 1) width = _
  rw [Nat.one_shiftLeft]

theorem ofNat_words (n : Nat) :
    Bits.ofNat n 32 = Bits.ofBytes (word (n / 2 ^ 16)) ++ Bits.ofBytes (word n) := by
  rw [ofBytes_word, ofBytes_word]
  exact Bits.ofNat_add n 16 16

theorem ofNat_threeWords (n : Nat) :
    Bits.ofNat n 48 = Bits.ofBytes (word (n / 2 ^ 32))
      ++ (Bits.ofBytes (word (n / 2 ^ 16)) ++ Bits.ofBytes (word n)) := by
  rw [← ofNat_words, ofBytes_word]
  exact Bits.ofNat_add n 16 32

theorem length_fixedBytes (r : Record) : r.fixedBytes.length = fixedSize := by
  simp [fixedBytes, word, fixedSize]

/-- A field behind reserved bits that are ones. -/
theorem ofNat_reserved (reserved width value : Nat) :
    Bits.ofNat ((2 ^ reserved - 1) * 2 ^ width + value % 2 ^ width) (reserved + width)
      = (ones reserved).toBits ++ (field width value).toBits := by
  rw [Bits.ofNat_join, toBits_ones, toBits_field]

theorem segmentation_bits (value : Nat) :
    Bits.ofNat (0xf000 + value % 4096) 16 = (ones 4).toBits ++ (field 12 value).toBits :=
  ofNat_reserved 4 12 value

theorem twoBit_bits (value : Nat) :
    Bits.ofNat (0xfc + value % 4) 8 = (ones 6).toBits ++ (field 2 value).toBits :=
  ofNat_reserved 6 2 value

theorem threeBit_bits (value : Nat) :
    Bits.ofNat (0xf8 + value % 8) 8 = (ones 5).toBits ++ (field 3 value).toBits :=
  ofNat_reserved 5 3 value

theorem profile_bits (space idc : Nat) (tier : Bool) :
    Bits.ofNat (space % 4 * 64 + tier.toNat * 32 + idc % 32) 8
      = (field 2 space).toBits ++ ((Item.flag tier).toBits ++ (field 5 idc).toBits) := by
  have same : space % 4 * 64 + tier.toNat * 32 + idc % 32
      = (space % 2 ^ 2 * 2 ^ 1 + tier.toNat % 2 ^ 1) * 2 ^ 5 + idc % 2 ^ 5 := by
    have := Bool.toNat_le tier
    omega
  rw [same, Bits.ofNat_join _ _ (2 + 1) 5, Bits.ofNat_join, Bits.ofNat_mod, toBits_field,
    toBits_field, List.append_assoc]
  rfl

theorem rate_bits (rate layers size : Nat) (nested : Bool) :
    Bits.ofNat (rate * 64 + layers % 8 * 8 + nested.toNat * 4 + size % 4) 8
      = (field 2 rate).toBits ++ ((field 3 layers).toBits
        ++ ((Item.flag nested).toBits ++ (field 2 size).toBits)) := by
  have same : rate * 64 + layers % 8 * 8 + nested.toNat * 4 + size % 4
      = ((rate * 2 ^ 3 + layers % 2 ^ 3) * 2 ^ 1 + nested.toNat % 2 ^ 1) * 2 ^ 2
        + size % 2 ^ 2 := by
    have := Bool.toNat_le nested
    omega
  rw [same, Bits.ofNat_join _ _ (2 + 3 + 1) 2, Bits.ofNat_join _ _ (2 + 3) 1, Bits.ofNat_join,
    toBits_field, toBits_field, toBits_field, List.append_assoc, List.append_assoc]
  rfl

/-- The fields of a record and the number of its arrays are the bits of its first bytes. -/
theorem fixedItems_bytes (r : Record) :
    Item.allBits (r.fixedItems ++ [.bits r.arrays.length 8]) = Bits.ofBytes r.fixedBytes := by
  have code : r.parallelism.code = r.parallelism.code % 4 :=
    (Nat.mod_eq_of_lt r.parallelism.code_lt).symm
  have parallelism := twoBit_bits r.parallelism.code
  rw [← code] at parallelism
  simp only [fixedItems, fixedBytes, List.cons_append, List.nil_append, Item.allBits_cons,
    Item.allBits_nil, Bits.ofBytes_cons, Bits.ofBytes_append, Bits.ofBytes_nil, Bits.ofByte_ofNat,
    ofNat_words, ofNat_threeWords,
    ofBytes_word, profile_bits, rate_bits, segmentation_bits, parallelism,
    twoBit_bits, threeBit_bits, List.append_assoc, List.append_nil, toBits_field]
  rfl

/-! ## Writing forms -/

/-- Items that have the bytes of a form, up to the first that has no written form. -/
inductive Shows : List Item → Form → Prop
  | whole {items : List Item} {bytes : List UInt8} (writable : ∀ item ∈ items, item.Writable)
    (bits : Item.allBits items = Bits.ofBytes bytes) : Shows items (.whole bytes)
  | cut {items : List Item} {bytes : List UInt8} (writable : ∀ item ∈ items, item.Writable)
    (bits : Item.allBits items = Bits.ofBytes bytes) (fault : Fault) (rest : List Item) :
    Shows (items ++ .refuse fault :: rest) ⟨bytes, some fault⟩

namespace Shows

theorem append {xs ys : List Item} {f g : Form} (hf : Shows xs f) (hg : Shows ys g) :
    Shows (xs ++ ys) (f.append g) := by
  cases hf with
  | cut writable bits fault rest =>
    rw [Form.append_of_cut rfl, List.append_assoc]
    exact .cut writable bits fault (rest ++ ys)
  | @whole _ bytes writable bits =>
    rw [Form.append_of_uncut rfl]
    cases hg with
    | @whole _ bytes' writable' bits' =>
      refine .whole (List.forall_mem_append.mpr ⟨writable, writable'⟩) ?_
      rw [Item.allBits_append, bits, bits', Bits.ofBytes_append]
      rfl
    | @cut items' bytes' writable' bits' fault rest =>
      rw [← List.append_assoc]
      refine .cut (List.forall_mem_append.mpr ⟨writable, writable'⟩) ?_ fault rest
      rw [Item.allBits_append, bits, bits', ← Bits.ofBytes_append]
      rfl

theorem flatMap {α : Type} {items : α → List Item} {form : α → Form}
    (each : ∀ x, Shows (items x) (form x)) (xs : List α) :
    Shows (xs.flatMap items) (.concat (xs.map form)) := by
  induction xs with
  | nil => exact .whole (by simp) rfl
  | cons x xs ih => exact (each x).append ih

/-- What is not cut off is written in full. -/
theorem bits {items : List Item} {f : Form} (h : Shows items f) (uncut : f.cut = none) :
    Item.allBits items = Bits.ofBytes f.bytes := by
  cases h with
  | whole _ bits => exact bits
  | cut _ _ fault _ => exact absurd uncut (by simp)

end Shows

theorem shows_refuse (fault : Fault) : Shows [.refuse fault] ⟨[], some fault⟩ := by
  have first : Shows ([] ++ [.refuse fault]) ⟨[], some fault⟩ := .cut (by simp) rfl fault []
  exact first

theorem shows_count (n : Nat) (tooLarge : Fault) :
    Shows [count16 n tooLarge] (countForm n tooLarge) := by
  unfold countForm
  split
  · next small =>
    rw [count16_of_lt small]
    apply Shows.whole
    · rw [List.forall_mem_singleton]
      exact ⟨small, by decide⟩
    · rw [Item.allBits_singleton, ofBytes_word]
      rfl
  · next large =>
    rw [count16_of_not_lt large]
    exact shows_refuse tooLarge

theorem shows_unit (type : NalType) (unit : List UInt8) :
    Shows (unitItems type unit) (unitForm type unit) := by
  have data : Shows [.bytes unit] (.whole unit) :=
    .whole (by simp [Item.Writable]) (Item.allBits_singleton _)
  exact (shows_count unit.length _).append data

theorem shows_array (a : NalArray) : Shows (arrayItems a) (arrayForm a) := by
  have header : Shows [.flag a.complete, .bits 0 1, field 6 a.type.code]
      (.whole [UInt8.ofNat (a.complete.toNat * 128 + a.type.code)]) := by
    apply Shows.whole
    · simp only [List.forall_mem_cons]
      exact ⟨Item.writable_flag _, ⟨by decide, by decide⟩, writable_field (by decide), by simp⟩
    · have small := a.type.code_lt
      have same : a.complete.toNat * 128 + a.type.code
          = (a.complete.toNat * 2 ^ 1 + 0 % 2 ^ 1) * 2 ^ 6 + a.type.code % 2 ^ 6 := by omega
      rw [Bits.ofBytes_cons, Bits.ofByte_ofNat, same, Bits.ofNat_join _ _ (1 + 1) 6,
        Bits.ofNat_join]
      simp only [Item.allBits_cons, Item.allBits_nil, toBits_field, List.append_assoc]
      rfl
  exact header.append ((shows_count a.units.size _).append (.flatMap (shows_unit a.type) _))

/-- The items of a record have the bytes of its form. -/
theorem shows_items (r : Record) : Shows r.items r.form := by
  unfold items form
  split
  · exact shows_refuse .tooManyArrays
  · next few =>
    have fixed : Shows (r.fixedItems ++ [.bits r.arrays.length 8]) (.whole r.fixedBytes) := by
      apply Shows.whole
      · intro item mem
        rcases List.mem_append.mp mem with among | last
        · exact writable_fixedItems r item among
        · obtain rfl := List.mem_singleton.mp last
          exact ⟨Nat.lt_succ_of_le (Nat.le_of_not_lt few), by decide⟩
      · exact fixedItems_bytes r
    have all := fixed.append (.flatMap shows_array r.arrays)
    rwa [List.append_assoc] at all

/-- A packer that wrote whole bytes has nothing pending. -/
theorem eq_after_of_holds {bytes : List UInt8} {p : Packer}
    (h : p.Holds .plain (Bits.ofBytes bytes)) : p = .after .plain bytes [] := by
  obtain ⟨bytes', tail, short, same, rfl⟩ := h
  have lengths := congrArg List.length same
  rw [List.length_append, Bits.length_ofBytes, Bits.length_ofBytes] at lengths
  obtain rfl : tail = [] := List.eq_nil_of_length_eq_zero (by omega)
  rw [List.append_nil] at same
  rw [Bits.ofBytes_inj same]

/-- A sink that takes every byte receives the form. -/
theorem Shows.writeItems {items : List Item} {f : Form} (h : Shows items f) :
    ((Sink.unbounded .plain).writeItems items).1 = f.result
      ∧ ((Sink.unbounded .plain).writeItems items).2.bytes = f.bytes := by
  have start := Packer.holds_ofSink .plain
  have arrived : ∀ bytes, (Packer.after .plain bytes []).sink.bytes = bytes :=
    Sink.bytes_holding_plain
  cases h with
  | @whole _ bytes writable bits =>
    obtain ⟨p, written, held⟩ := Packer.writes_items writable start
    rw [List.nil_append, bits] at held
    obtain rfl := eq_after_of_holds held
    unfold Sink.writeItems
    rw [written]
    exact ⟨rfl, arrived bytes⟩
  | @cut _ bytes writable bits fault rest =>
    obtain ⟨p, written, held⟩ := Packer.writes_items writable start
    rw [List.nil_append, bits] at held
    obtain rfl := eq_after_of_holds held
    unfold Sink.writeItems
    rw [Packer.writeAll_append, written]
    exact ⟨rfl, arrived bytes⟩

/-- What the bytes of a record are, if it has any. -/
theorem toBytes_eq_form (r : Record) :
    r.toBytes = match r.form.cut with
      | none => .ok r.form.bytes
      | some fault => .error fault := by
  obtain ⟨result, bytes⟩ := (shows_items r).writeItems
  unfold toBytes mux
  cases found : r.form.cut with
  | none =>
    rw [Form.result_of_uncut found] at result
    cases written : (Sink.unbounded .plain).writeItems r.items with
    | mk answer sink =>
      rw [written] at result bytes
      obtain rfl : answer = .ok () := result
      exact congrArg Except.ok bytes
  | some fault =>
    rw [Form.result_of_cut found] at result
    cases written : (Sink.unbounded .plain).writeItems r.items with
    | mk answer sink =>
      rw [written] at result
      obtain rfl : answer = .error fault := result
      rfl

/-! ## Where a form is cut off -/

namespace Form

theorem cut_append {f g : Form} : (f.append g).cut = none ↔ f.cut = none ∧ g.cut = none := by
  cases found : f.cut with
  | none => simp [append_of_uncut found]
  | some fault => simp [append_of_cut found, found]

theorem bytes_append {f : Form} (h : f.cut = none) (g : Form) :
    (f.append g).bytes = f.bytes ++ g.bytes := by
  rw [append_of_uncut h]

theorem cut_concat {forms : List Form} :
    (concat forms).cut = none ↔ ∀ f ∈ forms, f.cut = none := by
  induction forms with
  | nil => simp [concat, whole]
  | cons f forms ih => rw [List.forall_mem_cons, ← ih, concat, List.foldr_cons, cut_append, concat]

theorem length_concat {α : Type} {form : α → Form} {size : α → Nat} {xs : List α}
    (h : ∀ x ∈ xs, (form x).cut = none ∧ (form x).bytes.length = size x) :
    (concat (xs.map form)).bytes.length = xs.foldr (fun x count => size x + count) 0 := by
  induction xs with
  | nil => rfl
  | cons x xs ih =>
    obtain ⟨⟨uncut, length⟩, others⟩ := List.forall_mem_cons.mp h
    have tail := ih others
    rw [List.map_cons, concat, List.foldr_cons, bytes_append uncut, List.length_append, length,
      List.foldr_cons, ← tail, concat]

/-- Whatever cuts a form off, the data is to blame. -/
def Blames (f : Form) : Prop := ∀ fault, f.cut = some fault → fault.kind = .invalidData

theorem Blames.append {f g : Form} (hf : f.Blames) (hg : g.Blames) : (f.append g).Blames := by
  unfold Form.append
  split
  · exact hg
  · exact hf

theorem blames_whole (bytes : List UInt8) : (whole bytes).Blames := by
  intro fault found
  exact absurd found (by simp [whole])

theorem blames_concat {α : Type} {form : α → Form} (each : ∀ x, (form x).Blames) (xs : List α) :
    (concat (xs.map form)).Blames := by
  induction xs with
  | nil => exact blames_whole []
  | cons x xs ih => exact (each x).append ih

end Form

theorem cut_count {n : Nat} {tooLarge : Fault} :
    (countForm n tooLarge).cut = none ↔ n < 2 ^ 16 := by
  unfold countForm
  split
  · next small => exact ⟨fun _ => small, fun _ => rfl⟩
  · next large => exact ⟨fun found => absurd found (by simp), fun small => absurd small large⟩

theorem length_count {n : Nat} {tooLarge : Fault} (h : (countForm n tooLarge).cut = none) :
    (countForm n tooLarge).bytes.length = 2 := by
  unfold countForm
  rw [if_pos (cut_count.mp h)]
  rfl

theorem blames_count {n : Nat} {tooLarge : Fault} (h : tooLarge.kind = .invalidData) :
    (countForm n tooLarge).Blames := by
  unfold countForm
  split
  · exact Form.blames_whole _
  · intro fault found
    rwa [← Option.some.inj found]

theorem cut_unit {type : NalType} {unit : List UInt8} :
    (unitForm type unit).cut = none ↔ unit.length < 2 ^ 16 := by
  unfold unitForm
  rw [Form.cut_append, cut_count]
  exact and_iff_left rfl

theorem length_unit {type : NalType} {unit : List UInt8} (h : (unitForm type unit).cut = none) :
    (unitForm type unit).bytes.length = 2 + unit.length := by
  have count := (Form.cut_append.mp h).1
  unfold unitForm
  rw [Form.bytes_append count, List.length_append, length_count count]
  rfl

theorem cut_array {a : NalArray} :
    (arrayForm a).cut = none
      ↔ a.units.size < 2 ^ 16 ∧ ∀ unit ∈ a.units, unit.length < 2 ^ 16 := by
  unfold arrayForm
  rw [Form.cut_append, Form.cut_append, cut_count, Form.cut_concat, List.forall_mem_map]
  simp only [cut_unit, Array.mem_toList_iff]
  exact and_iff_right rfl

theorem length_array {a : NalArray} (h : (arrayForm a).cut = none) :
    (arrayForm a).bytes.length = arraySize a := by
  obtain ⟨-, behind⟩ := Form.cut_append.mp h
  obtain ⟨count, units⟩ := Form.cut_append.mp behind
  have each : ∀ unit ∈ a.units.toList, (unitForm a.type unit).cut = none
      ∧ (unitForm a.type unit).bytes.length = 2 + unit.length := by
    intro unit mem
    have uncut := Form.cut_concat.mp units _ (List.mem_map_of_mem mem)
    exact ⟨uncut, length_unit uncut⟩
  unfold arrayForm arraySize
  rw [Form.bytes_append rfl, Form.bytes_append count, List.length_append, List.length_append,
    length_count count, Form.length_concat each]
  show 1 + (2 + _) = _
  omega

theorem cut_form {r : Record} : r.form.cut = none ↔ r.Countable := by
  unfold form
  split
  · next many =>
    refine ⟨fun found => absurd found (by simp), fun h => ?_⟩
    exact absurd h.arrays (Nat.not_le_of_lt many)
  · next few =>
    rw [Form.cut_append, Form.cut_concat, List.forall_mem_map]
    constructor
    · rintro ⟨-, each⟩
      refine ⟨Nat.le_of_not_lt few, fun a mem => ?_, fun a mem => ?_⟩
      · exact (cut_array.mp (each a mem)).1
      · exact (cut_array.mp (each a mem)).2
    · intro h
      exact ⟨rfl, fun a mem => cut_array.mpr ⟨h.units a mem, h.lengths a mem⟩⟩

theorem length_form {r : Record} (h : r.form.cut = none) : r.form.bytes.length = r.size := by
  have few := (cut_form.mp h).arrays
  have each : ∀ a ∈ r.arrays, (arrayForm a).cut = none
      ∧ (arrayForm a).bytes.length = arraySize a := by
    intro a mem
    have uncut : (arrayForm a).cut = none :=
      cut_array.mpr ⟨(cut_form.mp h).units a mem, (cut_form.mp h).lengths a mem⟩
    exact ⟨uncut, length_array uncut⟩
  unfold form size
  rw [if_neg (Nat.not_lt_of_le few), Form.bytes_append rfl, List.length_append,
    Form.length_concat each]
  exact congrArg (· + _) (length_fixedBytes r)

theorem blames_form (r : Record) : r.form.Blames := by
  have unit (type : NalType) (unit : List UInt8) : (unitForm type unit).Blames :=
    (blames_count rfl).append (Form.blames_whole unit)
  have array (a : NalArray) : (arrayForm a).Blames :=
    (Form.blames_whole _).append ((blames_count rfl).append (Form.blames_concat (unit a.type) _))
  unfold form
  split
  · intro fault found
    rw [← Option.some.inj found]
    rfl
  · exact (Form.blames_whole _).append (Form.blames_concat array r.arrays)

/-! ## Sinks that fail -/

/-- What is promised of writing a record into a sink that takes `capacity` bytes and then fails with
`fault`, if the writing answers `result` and `received` has arrived. -/
structure Arrives (r : Record) (capacity : Nat) (fault : Fault) (result : Except Fault Unit)
    (received : List UInt8) : Prop where
  /-- The front of the form arrives, as much as there is room for. -/
  front : received = r.form.bytes.take capacity
  ok : result = .ok () ↔ r.form.bytes.length ≤ capacity ∧ r.form.cut = none
  /-- Where there is no room, the sink is to blame. -/
  full : capacity < r.form.bytes.length → result = .error fault
  /-- Where there is, but the form is cut off, the data is. -/
  cut : ∀ refused, r.form.bytes.length ≤ capacity → r.form.cut = some refused →
    result = .error refused ∧ refused.kind = .invalidData
  /-- The form is cut off by nothing but numbers that do not fit. -/
  countable : r.form.cut = none ↔ r.Countable
  size : r.form.cut = none → r.form.bytes.length = r.size

/-- Of a record, whatever its fields hold, a sink that fails after some bytes receives the front of
its form, and the writing succeeds only with the whole of it. -/
theorem mux_failing (r : Record) (capacity : Nat) (fault : Fault) :
    Arrives r capacity fault (r.mux (.failing .plain capacity fault)).1
      (r.mux (.failing .plain capacity fault)).2.bytes := by
  obtain ⟨received, result⟩ := Sink.writeItems_failing .plain capacity fault r.items
  obtain ⟨ideal, arrived⟩ := (shows_items r).writeItems
  unfold mux
  rw [arrived] at received result
  rw [ideal] at result
  refine ⟨received, ?_, ?_, ?_, cut_form, length_form⟩
  all_goals rw [result]
  · split
    · next room => rw [Form.result_eq_ok, and_iff_right room]
    · next short =>
      constructor
      · intro done
        exact absurd done (by simp)
      · intro both
        exact absurd both.1 short
  · intro short
    rw [if_neg (Nat.not_le_of_lt short)]
  · intro refused room found
    rw [if_pos room, Form.result_of_cut found]
    exact ⟨rfl, blames_form r refused found⟩

/-- The record of no parameter set holds a number that is too large for its twelve bits. -/
example :
    empty.form.bytes
      = [1, 0, 0xff, 0xff, 0xff, 0xff, 0xff, 0xff, 0xff, 0xff, 0xff, 0xff, 0, 0xf0, 0x01, 0xfc,
          0xfc, 0xf8, 0xf8, 0, 0, 3, 0] := by
  decide

end Hevc.Record
