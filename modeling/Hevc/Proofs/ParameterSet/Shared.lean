import Hevc.Proofs.ParameterSet.Reading
import Hevc.Proofs.ParameterSet.Vps

/-!
# Shared common information

A structure of reference decoder parameters behind the first may leave its common information out,
and then it has that of the structure before it (ISO/IEC 23008-2, 7.4.3.1). Reading takes nothing
over: where the information is left out, it goes on as if neither stream had buffers. So a parameter
set is read back if no structure shares buffers, and it is never read back if one does.

* `LayerSetHrd.decoder_reads_shared` — a structure without buffers is read back, with its
  information or without it
* `VpsTiming.absent_of_eval` — what is read back where the information is left out has no buffers
* `Vps.shared_read_written` — when a parameter set is read back
-/

namespace Hevc

open Decoder

variable {coded : Nat → Bool} {delayLengths : Nat → Nat} {maxSubLayersMinus1 place : Nat}

/-! ## One structure -/

namespace Hrd

/-- Reading knows no common information but the one that is coded. -/
theorem decoder_ensures :
    (decoder false maxSubLayersMinus1).Ensures fun h => h.common = .absent := by
  have common : (codedOr false HrdCommon.absent HrdCommon.decoder).Ensures (· = .absent) := rfl
  exact common.bind fun _ absent => .bind_any fun _ => .pure absent

theorem decoder_reads_absent {h : Hrd} (fine : h.Coded maxSubLayersMinus1)
    (absent : h.common = .absent) :
    (decoder false maxSubLayersMinus1).Reads (h.subLayers.flatMap HrdSubLayer.items) h := by
  have common : (codedOr false HrdCommon.absent HrdCommon.decoder).Reads [] h.common := by
    rw [absent]
    exact reads_pure HrdCommon.absent
  refine common.step ?_
  rw [← fine.length]
  exact (reads_many fun s mem => HrdSubLayer.decoder_reads (fine.subLayers s mem)).map

end Hrd

namespace LayerSetHrd

/-- What is written of a structure that leaves its common information out, up to its sub-layers. -/
theorem decoder_leads {h : LayerSetHrd} (small : h.layerSet ≤ maxCode)
    (leftOut : ¬ VpsTiming.WritesCommon coded place) :
    (decoder maxSubLayersMinus1 place).Leads [.ue h.layerSet, .flag false] (do
      let hrd ← Hrd.decoder false maxSubLayersMinus1
      return { h with hrd }) := by
  obtain ⟨behind, -⟩ := not_or.mp leftOut
  refine .cons (reads_ue small) ?_
  rw [decide_eq_true (Nat.pos_of_ne_zero behind)]
  exact .cons (reads_flag false) (.refl _)

theorem decoder_reads_shared {h : LayerSetHrd} (fine : h.Coded maxSubLayersMinus1)
    (fits : delayLengths place < 2 ^ HrdCommon.delayLengthBits)
    (absent : ¬ VpsTiming.WritesCommon coded place → h.hrd.common = .absent) :
    (decoder maxSubLayersMinus1 place).Reads (h.sharedItems coded delayLengths place) h := by
  by_cases written : VpsTiming.WritesCommon coded place
  · rw [sharedItems, if_pos written]
    exact decoder_reads fine fits
  · rw [sharedItems, if_neg written]
    exact (decoder_leads fine.layerSet written).reads
      (Hrd.decoder_reads_absent fine.hrd (absent written)).map

theorem writable_sharedItems {h : LayerSetHrd} (fine : h.Coded maxSubLayersMinus1)
    (fits : delayLengths place < 2 ^ HrdCommon.delayLengthBits) :
    ∀ item ∈ h.sharedItems coded delayLengths place, item.Writable := by
  by_cases written : VpsTiming.WritesCommon coded place
  · rw [sharedItems, if_pos written]
    exact (decoder_reads fine fits).writable
  · rw [sharedItems, if_neg written]
    have subLayers := reads_many fun s mem => HrdSubLayer.decoder_reads (fine.hrd.subLayers s mem)
    intro item mem
    rcases List.mem_cons.mp mem with rfl | mem
    · exact (reads_ue fine.layerSet).writable _ List.mem_cons_self
    · rcases List.mem_cons.mp mem with rfl | mem
      · exact Item.writable_flag false
      · exact subLayers.writable item mem

theorem absent_of_eval {h got : LayerSetHrd} (fine : h.Coded maxSubLayersMinus1)
    (leftOut : ¬ VpsTiming.WritesCommon coded place) {rest left : List Bool}
    (read : (decoder maxSubLayersMinus1 place).eval
      (Item.allBits (h.sharedItems coded delayLengths place) ++ rest) = (.ok got, left)) :
    got.hrd.common = .absent := by
  have only : Item.allBits (h.sharedItems coded delayLengths place)
      = Item.allBits [.ue h.layerSet, .flag false]
        ++ Item.allBits (h.hrd.subLayers.flatMap HrdSubLayer.items) := by
    rw [sharedItems, if_neg leftOut, ← Item.allBits_append]
    rfl
  rw [only, List.append_assoc, (decoder_leads fine.layerSet leftOut).eval] at read
  have all : (do
      let hrd ← Hrd.decoder false maxSubLayersMinus1
      return { h with hrd } : Decoder LayerSetHrd).Ensures fun got => got.hrd.common = .absent :=
    .bind Hrd.decoder_ensures fun hrd absent => .pure absent
  exact all.of_eval read

end LayerSetHrd

/-! ## All structures -/

theorem forEachFrom_front {α β : Type} (f : α → Decoder β) (got : List β) (xs : List α) :
    (forEachFrom f got xs).Ensures (got.reverse <+: ·) := by
  induction xs generalizing got with
  | nil => exact List.prefix_rfl
  | cons x xs ih =>
    refine .bind_any fun value => (ih (value :: got)).mono fun all front => ?_
    rw [List.reverse_cons] at front
    exact (List.prefix_append _ _).trans front

namespace VpsTiming

/-- Where the common information is left out, neither stream has buffers. -/
def AbsentWhereLeftOut (coded : Nat → Bool) (places : List (LayerSetHrd × Nat)) : Prop :=
  ∀ x ∈ places, ¬ WritesCommon coded x.2 → x.1.hrd.common = .absent

/-- What comes back of written structures as it was had nothing to share. The induction is on the
structures: each one that came back was read from its own bits, so the next one begins behind
them. -/
theorem absent_of_evalFrom {hrds : List LayerSetHrd} (fine : ∀ h ∈ hrds, h.Coded maxSubLayersMinus1)
    (fits : ∀ place, delayLengths place < 2 ^ HrdCommon.delayLengthBits) (got : List LayerSetHrd)
    {rest left : List Bool}
    (read : (forEachFrom (LayerSetHrd.decoder maxSubLayersMinus1) got
        (List.range' place hrds.length)).eval
      (Item.allBits ((hrds.zipIdx place).flatMap fun (hrd, place) =>
        hrd.sharedItems coded delayLengths place) ++ rest) = (.ok (got.reverse ++ hrds), left)) :
    AbsentWhereLeftOut coded (hrds.zipIdx place) := by
  induction hrds generalizing got place with
  | nil => exact fun x mem => absurd mem List.not_mem_nil
  | cons h hrds ih =>
    have fineHead := fine h List.mem_cons_self
    rw [List.zipIdx_cons, List.flatMap_cons, Item.allBits_append, List.append_assoc] at read
    obtain ⟨value, behind, first, others⟩ := eval_bind_ok_cases read
    -- the values come back in their order, so the first of them is the first structure
    have front := (forEachFrom_front _ _ _).of_eval others
    obtain rfl : value = h := by
      obtain ⟨more, same⟩ := front
      rw [List.reverse_cons, List.append_assoc] at same
      exact (List.cons.inj (List.append_cancel_left same)).1
    have absent : ¬ WritesCommon coded place → value.hrd.common = .absent :=
      fun leftOut => LayerSetHrd.absent_of_eval fineHead leftOut first
    have own := (LayerSetHrd.decoder_reads_shared fineHead (fits place) absent).eval
    rw [own] at first
    obtain rfl := (Prod.mk.inj first).2
    have moved : got.reverse ++ value :: hrds = (value :: got).reverse ++ hrds := by
      rw [List.reverse_cons, List.append_assoc]
      rfl
    rw [moved] at others
    have below := ih (fun x mem => fine x (List.mem_cons_of_mem _ mem)) (value :: got) others
    intro x mem leftOut
    rcases List.mem_cons.mp mem with rfl | mem
    · exact absent leftOut
    · exact below x mem leftOut

theorem sharedItems_eq (t : VpsTiming) :
    t.sharedItems coded delayLengths
      = (t.clock.items ++ [.ue t.hrds.length]) ++ t.hrds.zipIdx.flatMap fun (hrd, place) =>
        hrd.sharedItems coded delayLengths place := by
  rw [sharedItems, List.append_assoc]
  rfl

section

variable {layerSetsMinus1 : Nat} {t : VpsTiming} (h : t.Coded maxSubLayersMinus1 layerSetsMinus1)
  (few : layerSetsMinus1 ≤ Vps.maxLayerSetsMinus1)
  (fits : ∀ place, delayLengths place < 2 ^ HrdCommon.delayLengthBits)

include h few fits

theorem writable_sharedItems : ∀ item ∈ t.sharedItems coded delayLengths, item.Writable := by
  intro item mem
  rw [sharedItems_eq] at mem
  rcases List.mem_append.mp mem with mem | mem
  · exact (decoder_leads h few).writable item mem
  · obtain ⟨x, inside, mem⟩ := List.mem_flatMap.mp mem
    exact LayerSetHrd.writable_sharedItems (h.hrds x.1 (List.fst_mem_of_mem_zipIdx inside))
      (fits x.2) item mem

theorem absent_of_eval {rest left : List Bool}
    (read : (decoder maxSubLayersMinus1 layerSetsMinus1).eval
      (Item.allBits (t.sharedItems coded delayLengths) ++ rest) = (.ok t, left)) :
    AbsentWhereLeftOut coded t.hrds.zipIdx := by
  rw [sharedItems_eq, Item.allBits_append, List.append_assoc, (decoder_leads h few).eval] at read
  obtain ⟨hrds, behind, structures, ends⟩ := eval_bind_ok_cases read
  obtain rfl : hrds = t.hrds := congrArg VpsTiming.hrds (Except.ok.inj (Prod.mk.inj ends).1)
  rw [List.range_eq_range'] at structures
  exact absent_of_evalFrom h.hrds fits [] structures

theorem decoder_reads_shared (absent : AbsentWhereLeftOut coded t.hrds.zipIdx) :
    (decoder maxSubLayersMinus1 layerSetsMinus1).Reads (t.sharedItems coded delayLengths) t := by
  have structures :=
    hrds_reads (fun hrd place => hrd.sharedItems coded delayLengths place) fun x mem =>
      LayerSetHrd.decoder_reads_shared (h.hrds x.1 (List.fst_mem_of_mem_zipIdx mem)) (fits x.2)
        (absent x mem)
  rw [sharedItems_eq]
  exact (decoder_leads h few).reads structures.map

end

/-- A structure that leaves its common information out has that of the structure before it. -/
def Shared (coded : Nat → Bool) (t : VpsTiming) : Prop :=
  ∀ (place : Nat) (previous h : LayerSetHrd), t.hrds[place]? = some previous →
    t.hrds[place + 1]? = some h → ¬ WritesCommon coded (place + 1) →
    h.hrd.common = previous.hrd.common

/-- Some structure leaves its common information out behind one that announces buffers. -/
def SharesBuffers (coded : Nat → Bool) (t : VpsTiming) : Prop :=
  ∃ (place : Nat) (previous h : LayerSetHrd), t.hrds[place]? = some previous
    ∧ t.hrds[place + 1]? = some h ∧ ¬ WritesCommon coded (place + 1)
    ∧ (previous.hrd.common.nalPresent || previous.hrd.common.vclPresent) = true

theorem absentWhereLeftOut_iff {t : VpsTiming} (fine : ∀ h ∈ t.hrds, h.Coded maxSubLayersMinus1)
    (shared : t.Shared coded) :
    AbsentWhereLeftOut coded t.hrds.zipIdx ↔ ¬ t.SharesBuffers coded := by
  constructor
  · rintro absent ⟨place, previous, h, before, here, leftOut, buffers⟩
    have none := absent (h, place + 1) (List.mem_zipIdx_iff_getElem?.mpr here) leftOut
    rw [← shared place previous h before here leftOut, none] at buffers
    exact absurd buffers (by decide)
  · rintro none ⟨h, place⟩ mem leftOut
    have here := List.mem_zipIdx_iff_getElem?.mp mem
    obtain ⟨behind, -⟩ := not_or.mp leftOut
    obtain ⟨place, rfl⟩ := Nat.exists_eq_succ_of_ne_zero behind
    have inside : place < t.hrds.length := by
      have end_ := (List.getElem?_eq_some_iff.mp here).1
      omega
    have before := List.getElem?_eq_getElem inside
    rw [shared place _ h before here leftOut]
    refine (fine _ (List.getElem_mem inside)).hrd.common.absent ?_
    rw [← Bool.not_eq_true]
    exact fun buffers => none ⟨place, _, h, before, here, leftOut, buffers⟩

end VpsTiming

/-! ## Parameter sets -/

namespace Vps

variable {filling : Filling} {v : Vps}

theorem writable_sharedItems (h : v.Coded filling.allBuffering)
    (fits : filling.Fits v.maxSubLayersMinus1) :
    ∀ item ∈ v.sharedItems coded filling, item.Writable := by
  intro item mem
  rcases List.mem_append.mp mem with mem | mem
  · exact (decoder_leads h fits).writable item mem
  · cases found : v.timing with
    | none =>
      rw [found] at mem
      rw [List.mem_singleton.mp mem]
      exact Item.writable_flag false
    | some t =>
      rw [found] at mem
      rcases List.mem_cons.mp mem with rfl | mem
      · exact Item.writable_flag true
      · exact VpsTiming.writable_sharedItems (h.timing t found) h.layerSetCount fits.delayLengths
          item mem

theorem decoder_reads_shared (h : v.Coded filling.allBuffering)
    (fits : filling.Fits v.maxSubLayersMinus1)
    (absent : ∀ t ∈ v.timing, VpsTiming.AbsentWhereLeftOut coded t.hrds.zipIdx) :
    decoder.Reads (v.sharedItems coded filling) v :=
  (decoder_leads h fits).reads (reads_optional fun t mem =>
    VpsTiming.decoder_reads_shared (h.timing t mem) h.layerSetCount fits.delayLengths
      (absent t mem)).map

theorem absent_of_eval (h : v.Coded filling.allBuffering)
    (fits : filling.Fits v.maxSubLayersMinus1) {rest left : List Bool}
    (read : decoder.eval (Item.allBits (v.sharedItems coded filling) ++ rest) = (.ok v, left)) :
    ∀ t ∈ v.timing, VpsTiming.AbsentWhereLeftOut coded t.hrds.zipIdx := by
  intro t found
  rw [sharedItems, Item.allBits_append, List.append_assoc, (decoder_leads h fits).eval] at read
  obtain ⟨timing, behind, ran, ends⟩ := eval_bind_ok_cases read
  obtain rfl : timing = v.timing := congrArg Vps.timing (Except.ok.inj (Prod.mk.inj ends).1)
  rw [Option.mem_def.mp found] at ran
  -- the flag of the timing part is set, and what is read behind it is the part itself
  have flagged : (optional (VpsTiming.decoder v.maxSubLayersMinus1 v.layerSets.length)).Leads
      [.flag true] (when true (VpsTiming.decoder v.maxSubLayersMinus1 v.layerSets.length)) :=
    .cons (reads_flag true) (.refl _)
  rw [Item.optional, ← List.singleton_append, Item.allBits_append, List.append_assoc,
    flagged.eval] at ran
  obtain ⟨got, behind', first, last⟩ := eval_bind_ok_cases ran
  obtain rfl : got = t := Option.some.inj (Except.ok.inj (Prod.mk.inj last).1)
  exact VpsTiming.absent_of_eval (h.timing got found) h.layerSetCount fits.delayLengths first

/-- A parameter set is written with common information left out at any places, where a structure has
that of the one before it. If no structure shares buffers, the set is read back as it was, and no
byte is taken behind it. If one does, the set is never read back. -/
theorem shared_read_written (h : v.Coded filling.allBuffering)
    (fits : filling.Fits v.maxSubLayersMinus1) (shared : ∀ t ∈ v.timing, t.Shared coded)
    (trailing : List Bool) :
    ∃ payload,
      escapedBytes (.bytes [0x40, 0x01] :: v.sharedItems coded filling ++ trailing.map Item.flag)
          = .ok (escape payload)
        ∧ ((∀ t ∈ v.timing, ¬ t.SharesBuffers coded) →
          read (escape payload)
            = { result := .ok { header, payload := v }
                taken := (escape (payload.take
                  ((16 + (Item.allBits (v.sharedItems coded filling)).length + 7) / 8))).length })
        ∧ ((∃ t ∈ v.timing, t.SharesBuffers coded) →
          (read (escape payload)).result ≠ .ok { header, payload := v }) := by
  have small : header.Fits := ⟨by decide, by decide⟩
  have bytes : Bits.ofBytes [0x40, 0x01] = Item.allBits header.items := by decide
  have head := NalHeader.expecting_reads_bytes small bytes
  have unit : (NalUnit.decoder .vps decoder).Leads [.bytes [0x40, 0x01]] (do
      let payload ← decoder
      return { header, payload }) := .bind head (.refl _)
  have writable : ∀ item ∈ .bytes [0x40, 0x01] :: v.sharedItems coded filling, item.Writable := by
    intro item mem
    rcases List.mem_cons.mp mem with rfl | mem
    · trivial
    · exact writable_sharedItems h fits item mem
  have iff := fun t (mem : t ∈ v.timing) =>
    VpsTiming.absentWhereLeftOut_iff (h.timing t mem).hrds (shared t mem)
  obtain ⟨payload, left, written, bits⟩ := NalUnit.exists_escaped writable trailing
  refine ⟨payload, written, fun none => ?_, ?_⟩
  · have absent := fun t mem => (iff t mem).mpr (none t mem)
    have found := NalUnit.read_payload (NalUnit.decoder_reads head
      (decoder_reads_shared h fits absent)) bits
    rw [List.singleton_append, Item.allBits_cons, List.length_append] at found
    exact found
  · rintro ⟨t, mem, shares⟩ found
    have ran := NalUnit.run_of_read found
    rw [run_ofBytes_fst, Source.payload_escape, bits, ← List.singleton_append, Item.allBits_append,
      List.append_assoc, unit.eval] at ran
    obtain ⟨got, behind, first, last⟩ := eval_bind_ok_cases (Prod.ext ran rfl)
    obtain rfl : got = v := congrArg NalUnit.payload (Except.ok.inj (Prod.mk.inj last).1)
    exact (iff t mem).mp (absent_of_eval h fits first t mem) shares

/-! ## Two structures with the same common information -/

/-- The sample set, with two structures that are alike. -/
def sharing (h : Hrd) : Vps :=
  { sample with
    timing := some { clock := ⟨1001, 60000, some 0⟩, hrds := [⟨1, h⟩, ⟨2, h⟩] } }

/-- What is written beside its values. -/
def sharingFilling : Filling := ⟨3, 0xffff, 0x3fff, true, fun _ => 0x7fff⟩

theorem coded_sharing {h : Hrd} (fine : h.Coded 1) : (sharing h).Coded true := by
  have clock : Clock.Coded ⟨1001, 60000, some 0⟩ := by
    refine ⟨by decide, by decide, ?_⟩
    rintro ticks ⟨⟩
    decide
  refine { coded_sample with timing := ?_ }
  rintro t ⟨⟩
  refine ⟨clock, show 2 ≤ 2 + 1 by decide, fun x mem => ?_⟩
  simp only [List.mem_cons, List.not_mem_nil, or_false] at mem
  rcases mem with rfl | rfl
  · exact ⟨show 1 ≤ maxCode by decide, fine⟩
  · exact ⟨show 2 ≤ maxCode by decide, fine⟩

theorem shared_sharing (coded : Nat → Bool) (h : Hrd) :
    ∀ t ∈ (sharing h).timing, t.Shared coded := by
  rintro t ⟨⟩ place previous next before here -
  cases place with
  | zero =>
    obtain rfl := Option.some.inj before
    obtain rfl := Option.some.inj here
    rfl
  | succ place => exact absurd here (by simp)

theorem fits_sharingFilling : sharingFilling.Fits 1 :=
  ⟨by decide, by decide, by decide, fun _ => show 0x7fff < 2 ^ 15 by decide⟩

/-- The set whose structures have no buffers is read back where the second one leaves its common
information out, and the set whose structures have buffers is not. -/
theorem shared_read_written_alike :
    (∃ payload,
      escapedBytes (.bytes [0x40, 0x01]
          :: (sharing bufferlessHrd).sharedItems (fun _ => false) sharingFilling
            ++ [true].map Item.flag) = .ok (escape payload)
        ∧ (read (escape payload)).result = .ok { header, payload := sharing bufferlessHrd })
    ∧ ∃ payload,
      escapedBytes (.bytes [0x40, 0x01]
          :: (sharing sampleHrd).sharedItems (fun _ => false) sharingFilling
            ++ [true].map Item.flag) = .ok (escape payload)
        ∧ (read (escape payload)).result ≠ .ok { header, payload := sharing sampleHrd } := by
  constructor
  · obtain ⟨payload, written, back, -⟩ := shared_read_written
      (coded_sharing coded_bufferlessHrd) fits_sharingFilling
      (shared_sharing (fun _ => false) bufferlessHrd) [true]
    refine ⟨payload, written, ?_⟩
    rw [back]
    rintro t ⟨⟩ ⟨place, previous, h, before, here, -, buffers⟩
    cases place with
    | zero =>
      obtain rfl := Option.some.inj before
      exact absurd buffers (by decide)
    | succ place => exact absurd here (by simp)
  · obtain ⟨payload, written, -, never⟩ := shared_read_written
      (coded_sharing coded_sampleHrd) fits_sharingFilling
      (shared_sharing (fun _ => false) sampleHrd) [true]
    exact ⟨payload, written, never ⟨_, rfl, 0, _, _, rfl, rfl, by decide, rfl⟩⟩

/-- A parameter set with two structures, the second of which shares the buffers of the first. -/
def sharingBytes : List UInt8 :=
  [0x40, 0x01, 0xfc, 0x22, 0xff, 0xff, 0x22, 0x20, 0x00, 0x00, 0x03, 0x00, 0x90, 0x00, 0x00,
    0x03, 0x00, 0x00, 0x03, 0x00, 0x78, 0xff, 0xff, 0x01, 0x60, 0x00, 0x00, 0x03, 0x00, 0x00,
    0x03, 0x00, 0x00, 0x03, 0x00, 0x00, 0x03, 0x00, 0x5d, 0xac, 0xac, 0x00, 0x00, 0x03, 0x00,
    0x07, 0xff, 0xff, 0xff, 0xf8, 0x4f, 0x78, 0x00, 0x00, 0x1f, 0x48, 0x00, 0x07, 0x53, 0x06,
    0xd7, 0x62, 0x3d, 0x22, 0x47, 0xff, 0xfe, 0x00, 0x20, 0x01, 0x00, 0x3e, 0x90, 0x00, 0x00,
    0x03, 0x00, 0x1f, 0xff, 0xff, 0xff, 0xe4, 0x34, 0x01, 0xf4, 0x80, 0x00, 0x00, 0x03, 0x00,
    0xff, 0xff, 0xff, 0xff, 0x21, 0xa0, 0x0f, 0xa4, 0x00, 0x00, 0x03, 0x00, 0x07, 0xff, 0xff,
    0xff, 0xf9, 0x0d, 0x00, 0x7d, 0x20, 0x00, 0x00, 0x03, 0x00, 0x3f, 0xff, 0xff, 0xff, 0xc8,
    0x69, 0x00, 0x7d, 0x20, 0x00, 0x00, 0x03, 0x00, 0x3f, 0xff, 0xff, 0xff, 0xc8, 0x68, 0x03,
    0xe9, 0x00, 0x00, 0x03, 0x00, 0x01, 0xff, 0xff, 0xff, 0xfe, 0x43, 0x5a, 0x00, 0x20, 0x01,
    0x00, 0x3e, 0x90, 0x00, 0x00, 0x03, 0x00, 0x1f, 0xff, 0xff, 0xff, 0xe4, 0x34, 0x01, 0xf4,
    0x80, 0x00, 0x00, 0x03, 0x00, 0xff, 0xff, 0xff, 0xff, 0x21, 0xa0, 0x0f, 0xa4, 0x00, 0x00,
    0x03, 0x00, 0x07, 0xff, 0xff, 0xff, 0xf9, 0x0d, 0x00, 0x7d, 0x20, 0x00, 0x00, 0x03, 0x00,
    0x3f, 0xff, 0xff, 0xff, 0xc8, 0x69, 0x00, 0x7d, 0x20, 0x00, 0x00, 0x03, 0x00, 0x3f, 0xff,
    0xff, 0xff, 0xc8, 0x68, 0x03, 0xe9, 0x00, 0x00, 0x03, 0x00, 0x01, 0xff, 0xff, 0xff, 0xfe,
    0x43, 0x50]

/-- It is refused: what is written for the buffers of the second structure is taken for the number
of buffers of its next sub-layer. -/
theorem shared_refused :
    (sharing sampleHrd).Coded true
      ∧ (∀ t ∈ (sharing sampleHrd).timing, t.Shared fun _ => false)
      ∧ escapedBytes (.bytes [0x40, 0x01]
          :: (sharing sampleHrd).sharedItems (fun _ => false) sharingFilling
            ++ [false, true].map Item.flag) = .ok sharingBytes
      ∧ (read sharingBytes).result.toOption = none := by
  refine ⟨coded_sharing coded_sampleHrd, shared_sharing _ _, toOption_ok ?_, ?_⟩
  · decide +kernel
  · decide +kernel

end Vps

end Hevc
