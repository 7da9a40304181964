import Line21.Proofs.Conversion.Cues
import Line21.Proofs.Source.Frames

/-!
# Conversions of raw pairs

A unit that is too short for a pair makes no turn, so it leaves a conversion as it is. Main
statement: reading raw pairs loses no byte and may be split behind any even number of them, and a
single byte that is left at the end does not show in any document.
-/

namespace Line21

private theorem Stream.turn?_of_short {δ : Type} [CaptionDecoder δ] (s : Stream δ) {u : CaptionUnit}
    (h : u.data.length < 2) : s.turn? u = none := by
  have hh : s.heard? u = none := by
    unfold heard?
    split
    · next first second rest hd =>
      rw [hd, List.length_cons, List.length_cons] at h
      omega
    · rfl
  rw [turn?, hh]
  rfl

namespace Conversion

private theorem cues_append_short (input : List CaptionUnit) {u : CaptionUnit}
    (h : u.data.length < 2) :
    cues (input ++ [u]) = cues input := by
  have hturns : (Link.opened .plain).turns ((input ++ [u]).map .unit) =
      (Link.opened .plain).turns (input.map .unit) := by
    rw [List.map_append, Link.turns_append, List.map_singleton, Link.turns, Link.turn?,
      Stream.turn?_of_short _ h]
    exact List.append_nil _
  rw [cues, hturns]
  rfl

private theorem document_append_short (format : Format) (input : List CaptionUnit) {u : CaptionUnit}
    {time : Int} (ht : u.time = some time) (h : u.data.length < 2) :
    document format (input ++ [u]) = document format input := by
  have hfault : (input ++ [u]).findSome? CaptionUnit.fault? =
      input.findSome? CaptionUnit.fault? := by
    rw [List.findSome?_append, List.findSome?_singleton,
      CaptionUnit.fault?_of_timed ht (.inl h), Option.or_none]
  rw [document, document, units_eq, units_eq, hfault, cues_append_short input h]

end Conversion

namespace RawPairs

variable {rate : FrameRate}

private theorem StampedFrom.isTimed {first : Nat} {units : List CaptionUnit}
    (h : StampedFrom rate first units) : ∀ u ∈ units, u.IsTimed := by
  intro u hu
  obtain ⟨n, hn⟩ := List.getElem?_of_mem hu
  obtain ⟨time, hs, ht⟩ := h n u hn
  exact ⟨time, ht, FrameRate.timeInRange_of_stamp hs⟩

private theorem exists_read_append {front back : List UInt8} {units : List CaptionUnit}
    (h : read rate (front ++ back) = .ok units) (hf : front.length % 2 = 0) :
    ∃ us vs, units = us ++ vs ∧ read rate front = .ok us ∧ vs.map (·.data) = cut back ∧
      StampedFrom rate (front.length / 2) vs := by
  obtain ⟨hdata, hstamped⟩ := read_eq_ok_iff.mp h
  rw [cut_append hf, List.map_eq_append_iff] at hdata
  obtain ⟨us, vs, rfl, hus, hvs⟩ := hdata
  obtain ⟨hfront, hback⟩ := stampedFrom_append.mp hstamped
  have hlength : us.length = front.length / 2 := by
    rw [← List.length_map (f := (·.data)), hus, length_cut]
    omega
  rw [hlength, Nat.zero_add] at hback
  exact ⟨us, vs, rfl, read_eq_ok_iff.mpr ⟨hus, hfront⟩, hvs, hback⟩

/-- Bytes are read as raw pairs when all frames that begin before their end have stamps. The units
hold the bytes in order, two in each but perhaps the last, and are stamped with the frames from zero
on. When the bytes are split behind an even number of them, the units are those of the front, and
then those of the back with the same data and the frames that follow. When a single byte is left
behind an even number, the document in every format is that of the bytes before it. -/
theorem reads_without_loss {bytes : List UInt8}
    (h : ∀ n : Nat, 2 * n < bytes.length → ∃ time, rate.stamp n = .ok time) :
    ∃ units, read rate bytes = .ok units ∧
      (units.flatMap (·.data) = bytes ∧ units.length = (bytes.length + 1) / 2 ∧
        (∀ u ∈ units.dropLast, u.data.length = 2) ∧ StampedFrom rate 0 units) ∧
      (∀ front back, bytes = front ++ back → front.length % 2 = 0 →
        ∃ us vs later, read rate front = .ok us ∧ read rate back = .ok vs ∧
          units = us ++ later ∧ later.map (·.data) = vs.map (·.data) ∧
          StampedFrom rate (front.length / 2) later) ∧
      ∀ front byte, bytes = front ++ [byte] → front.length % 2 = 0 → ∀ format,
        ∃ us text, read rate front = .ok us ∧ Conversion.document format us = .ok text ∧
          Conversion.document format units = .ok text := by
  obtain ⟨units, hread⟩ := exists_read_of_stamps h
  obtain ⟨hdata, hstamped⟩ := read_eq_ok_iff.mp hread
  refine ⟨units, hread, ⟨?_, ?_, ?_, hstamped⟩, ?_, ?_⟩
  · rw [List.flatMap_def, hdata, flatten_cut]
  · rw [← length_cut, ← hdata, List.length_map]
  · intro u hu
    have hm : u.data ∈ (cut bytes).dropLast := by
      rw [← hdata, ← List.map_dropLast]
      exact List.mem_map_of_mem hu
    exact length_of_mem_dropLast_cut hm
  · rintro front back rfl hf
    obtain ⟨us, later, hunits, hfront, hlater, hback⟩ := exists_read_append hread hf
    obtain ⟨vs, hvs⟩ : ∃ vs, read rate back = .ok vs := by
      refine exists_read_of_stamps fun n hn ↦ h n ?_
      rw [List.length_append]
      omega
    exact ⟨us, vs, later, hfront, hvs, hunits, hlater.trans (read_eq_ok_iff.mp hvs).1.symm, hback⟩
  · rintro front byte rfl hf format
    obtain ⟨us, later, rfl, hfront, hlater, hback⟩ := exists_read_append hread hf
    obtain ⟨u, rfl, hu⟩ : ∃ u, later = [u] ∧ u.data = [byte] := by
      rw [cut_singleton, List.map_eq_singleton_iff] at hlater
      exact hlater
    obtain ⟨time, -, ht⟩ := hback 0 u rfl
    obtain ⟨text, htext⟩ :=
      Conversion.exists_document format (read_eq_ok_iff.mp hfront).2.isTimed
    have hshort : u.data.length < 2 := by
      rw [hu, List.length_singleton]
      exact Nat.one_lt_two
    refine ⟨us, text, hfront, htext, ?_⟩
    rw [Conversion.document_append_short format us ht hshort, htext]

/-- Characters on the screen, and the first byte of a code that would erase them: the document ends
with the cue of the characters. -/
theorem reads_without_loss_of_cut_code :
    let front : List UInt8 := [0x94, 0x29, 0xc8, 0x49]
    let bytes := front ++ [0x94]
    let us : List CaptionUnit := [⟨[0x94, 0x29], some 0⟩, ⟨[0xc8, 0x49], some 33366667⟩]
    (∀ n : Nat, 2 * n < bytes.length → ∃ time, FrameRate.standard.stamp n = .ok time) ∧
      read .standard front = .ok us ∧
      read .standard bytes = .ok (us ++ [⟨[0x94], some 66733333⟩]) ∧
      Conversion.document .subRip us =
        .ok "01\r\n0:00:00,033 --> 00:00:00,033\r\nHI\r\n\r\n" ∧
      Conversion.document .subRip (us ++ [⟨[0x94], some 66733333⟩]) =
        .ok "01\r\n0:00:00,033 --> 00:00:00,033\r\nHI\r\n\r\n" := by
  intro front bytes us
  have hstamps : ∀ n : Nat, 2 * n < bytes.length →
      ∃ time, FrameRate.standard.stamp n = .ok time := by
    intro n hn
    have hlength : bytes.length = 5 := rfl
    have hnumber : (n : Int).natAbs ≤ 2 ^ 65 := by omega
    obtain ⟨time, hs, -⟩ := FrameRate.exists_stamp_standard hnumber
    exact ⟨time, hs⟩
  have hfront : read .standard front = .ok us := by decide +kernel
  have hbytes : read .standard bytes = .ok (us ++ [⟨[0x94], some 66733333⟩]) := by decide +kernel
  obtain ⟨units, hread, -, -, hodd⟩ := reads_without_loss hstamps
  obtain ⟨us', text, hus, htext, htext'⟩ := hodd front 0x94 rfl (by simp [front]) .subRip
  obtain rfl : us' = us := Except.ok.inj (hus.symm.trans hfront)
  obtain rfl := Except.ok.inj (hread.symm.trans hbytes)
  have hdocument : Conversion.document .subRip us =
      .ok "01\r\n0:00:00,033 --> 00:00:00,033\r\nHI\r\n\r\n" := by decide +kernel
  exact ⟨hstamps, hfront, hbytes, hdocument, htext'.trans (htext.symm.trans hdocument)⟩

end RawPairs

end Line21
