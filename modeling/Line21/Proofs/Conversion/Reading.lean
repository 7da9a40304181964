import Line21.Proofs.Conversion.Cues
import Line21.Proofs.Receiver.Repertoire

/-!
# Reading documents back

A document in WebVTT or in SubRip tells how many cues a conversion has written, what their texts
are and when each comes up and leaves the screen, down to the millisecond. It does so because the
texts that a receiver can show are made of lines that are neither empty nor broken.
-/

namespace Line21

/-! ### The texts of a run -/

section Runs

variable {σ : Type} [Downstream σ]

/-- A decoder that holds characters that can be written holds no others after a pair. -/
theorem Receiver.Holds.decode {r : Receiver} (h : r.Holds (· ∈ Charset.repertoire))
    (pair : BytePair) (seconds : Rat) :
    (CaptionDecoder.decode r pair seconds).1.Holds (· ∈ Charset.repertoire) := by
  cases hr : r.receive pair with
  | error e =>
    rw [CaptionDecoder.decode_of_receive_error hr]
    exact h
  | ok result =>
    rw [CaptionDecoder.decode_of_receive_ok hr]
    exact h.receive hr

private theorem Stream.holds_accept {s s' : Stream Receiver}
    (h : s.decoder.Holds (· ∈ Charset.repertoire)) {u : CaptionUnit} {us : List TextUnit}
    (ha : s.accept u = .ok (s', us)) :
    s'.decoder.Holds (· ∈ Charset.repertoire) := by
  rcases accept_cases ha with ⟨-, rfl, -⟩ | ⟨f, time, pair, seconds, -, -, hr⟩
  · exact h
  · have hd := (react_frame ({ s with
      decoder := (CaptionDecoder.decode s.decoder pair seconds).1 } : Stream Receiver) f time
      (CaptionDecoder.decode s.decoder pair seconds).2).2
    rw [hr] at hd
    rw [hd]
    exact h.decode pair seconds

private theorem Stream.isMadeOf_of_turn? {s : Stream Receiver}
    (h : s.decoder.Holds (· ∈ Charset.repertoire)) {u : CaptionUnit} {t : Turn}
    (ht : s.turn? u = some t) {caption : Format × Int × String} (hc : t.caption? = some caption) :
    ∃ lines, Text.IsMadeOf caption.2.2 lines := by
  obtain ⟨⟨f, time, pair, seconds⟩, -, ht⟩ := Option.bind_eq_some_iff.mp ht
  dsimp only at ht
  have hd := h.decode pair seconds
  generalize CaptionDecoder.decode s.decoder pair seconds = result at ht hd
  rw [turnOf.eq_def] at ht
  split at ht
  · obtain ⟨text, hr, rfl⟩ := Option.map_eq_some_iff.mp ht
    obtain rfl := Option.some.inj hc
    change (Receiver.text result.1).toOption = some text at hr
    cases hx : Receiver.text result.1 with
    | error e =>
      rw [hx] at hr
      cases hr
    | ok shown =>
      rw [hx] at hr
      obtain rfl : shown = text := Option.some.inj hr
      exact hd.isMadeOf_text hx
  · obtain rfl := Option.some.inj ht
    cases hc
  · cases ht

private theorem Link.isMadeOf_of_mem_turns (hc : Downstream.Calm σ) {l : Link Receiver σ}
    (h : l.stream.decoder.Holds (· ∈ Charset.repertoire)) (us : List CaptionUnit) :
    ∀ caption ∈ (l.turns (us.map .unit)).filterMap Turn.caption?,
      ∃ lines, Text.IsMadeOf caption.2.2 lines := by
  induction us generalizing l with
  | nil => exact fun caption hm ↦ nomatch hm
  | cons u us ih =>
    have hcall : (l.call (.unit u)).1.stream.decoder.Holds (· ∈ Charset.repertoire) := by
      cases hu : l.stream.accept u with
      | error e =>
        rw [call, accept_of_error l u hu]
        exact h
      | ok r =>
        rw [call, accept_of_ok hc l u hu]
        exact Stream.holds_accept h hu
    intro caption hm
    rw [List.map_cons, turns, List.filterMap_append, List.mem_append] at hm
    rcases hm with hm | hm
    · obtain ⟨t, ht, hcaption⟩ := List.mem_filterMap.mp hm
      exact Stream.isMadeOf_of_turn? h (Option.mem_toList.mp ht) hcaption
    · exact ih hcall caption hm

end Runs

private theorem Conversion.isMadeOf_of_mem_cues {input : List CaptionUnit} {c : Cue}
    (h : c ∈ cues input) :
    ∃ lines, Text.IsMadeOf c.text lines := by
  obtain ⟨⟨s, i⟩, hs, rfl⟩ := List.mem_map.mp h
  have hs := List.mem_map_of_mem (f := Showing.caption) (List.fst_mem_of_mem_zipIdx hs)
  have hm := (Timeline.captions_showings_sublist _).subset hs
  have hend : [Turn.finished].filterMap Turn.caption? = [] := rfl
  rw [List.filterMap_append, hend, List.append_nil] at hm
  have hf : (Link.opened .plain).stream.decoder.Holds (· ∈ Charset.repertoire) :=
    Receiver.holds_fresh
  exact Link.isMadeOf_of_mem_turns Collector.calm hf input _ hm

/-! ### Documents -/

namespace Format

open Text (endLines IsMadeOf body)

/-- The lines that open a document of cues. -/
def lead (f : Format) (cues : List Cue) : List (List Char) :=
  match f, cues with
  | .webVtt, _ :: _ => ["WEBVTT".toList, []]
  | _, _ => []

private theorem toList_join {f : Format} (hf : f ≠ .plain) (us : List TextUnit) :
    (f.join us).toList = us.flatMap (·.text.toList) := by
  have hs : f.separator = "" := by
    cases f with
    | webVtt | subRip => rfl
    | plain => exact absurd rfl hf
  rw [join, hs, String.toList_intercalate, String.toList_empty, List.map_map]
  induction us with
  | nil => rfl
  | cons u us ih =>
    cases us with
    | nil => rw [List.map_singleton, List.intercalate_singleton, List.flatMap_singleton]; rfl
    | cons v us =>
      rw [List.map_cons, List.map_cons, List.intercalate_cons_cons, List.append_nil,
        ← List.map_cons, ih, List.flatMap_cons]
      rfl

private theorem toList_join_written {f : Format} (hf : f ≠ .plain) {cues : List Cue}
    {ls : Cue → List (List Char)} (h : ∀ c ∈ cues, IsMadeOf c.text (ls c)) :
    (f.join (f.written cues)).toList =
      endLines (f.lead cues ++ cues.flatMap fun c ↦ f.heading c ++ body (ls c)) := by
  have hlead : (cues.head?.bind fun c ↦ f.header c.start).toList.flatMap (·.text.toList) =
      endLines (f.lead cues) := by
    cases f with
    | plain => exact absurd rfl hf
    | subRip => cases cues <;> rfl
    | webVtt =>
      cases cues with
      | nil => rfl
      | cons c cues =>
        have hh : webVtt.header c.start = some ⟨"WEBVTT\r\n\r\n", c.start, none⟩ := rfl
        simp [hh, lead, endLines]
  have hcues : (cues.map f.render).flatMap (·.text.toList) =
      endLines (cues.flatMap fun c ↦ f.heading c ++ body (ls c)) := by
    rw [endLines, List.flatMap_map, List.flatMap_assoc]
    exact List.flatMap_congr fun c hc ↦ toList_cueText hf (h c hc)
  rw [toList_join hf, written, List.flatMap_append, hlead, hcues, Text.endLines_append]

private theorem unbroken_lead (f : Format) (cues : List Cue) : ∀ l ∈ f.lead cues, '\r' ∉ l := by
  cases f with
  | webVtt =>
    cases cues with
    | nil => exact fun l hl ↦ nomatch hl
    | cons c cues => simp [lead]
  | subRip | plain => exact fun l hl ↦ nomatch hl

/-- Documents of cues that read the same have cues that are alike. -/
theorem alike_of_join {f : Format} (hf : f ≠ .plain) {cues cues' : List Cue}
    (h : ∀ c ∈ cues, ∃ lines, IsMadeOf c.text lines)
    (h' : ∀ c ∈ cues', ∃ lines, IsMadeOf c.text lines)
    (hj : f.join (f.written cues) = f.join (f.written cues')) :
    List.Forall₂ Cue.Alike cues cues' := by
  choose! ls hls using h
  choose! ls' hls' using h'
  have hunbroken {cues : List Cue} {ls : Cue → List (List Char)}
      (h : ∀ c ∈ cues, IsMadeOf c.text (ls c)) :
      ∀ l ∈ f.lead cues ++ cues.flatMap fun c ↦ f.heading c ++ body (ls c), '\r' ∉ l := by
    intro l hl
    rcases List.mem_append.mp hl with hl | hl
    · exact f.unbroken_lead cues l hl
    · obtain ⟨c, hc, hl⟩ := List.mem_flatMap.mp hl
      rcases List.mem_append.mp hl with hl | hl
      · exact f.unbroken_heading c l hl
      · exact Text.unbroken_body (h c hc).unbroken l hl
  have hlines := congrArg String.toList hj
  rw [toList_join_written hf hls, toList_join_written hf hls'] at hlines
  have he := Text.endLines_inj (hunbroken hls) (hunbroken hls') hlines
  cases f with
  | plain => exact absurd rfl hf
  | subRip => exact alike_of_lines hf hls hls' he
  | webVtt =>
    cases cues with
    | nil =>
      cases cues' with
      | nil => exact .nil
      | cons c' cues' => cases he
    | cons c cues =>
      cases cues' with
      | nil => cases he
      | cons c' cues' => exact alike_of_lines hf hls hls' (List.append_cancel_left he)

end Format

namespace Conversion

/-- Documents in WebVTT or SubRip that are the same come from the same number of cues, which have
the same texts and, down to the millisecond, the same starts and the same ends. -/
theorem document_determines_cues {f : Format} (hf : f ≠ .plain) {input input' : List CaptionUnit}
    {d : String} (h : document f input = .ok d) (h' : document f input' = .ok d) :
    units f input = .ok (f.written (cues input)) ∧
      units f input' = .ok (f.written (cues input')) ∧
      List.Forall₂ Cue.Alike (cues input) (cues input') := by
  have hunits {input : List CaptionUnit} (h : document f input = .ok d) :
      units f input = .ok (f.written (cues input)) ∧ f.join (f.written (cues input)) = d := by
    rw [document] at h
    have hu := units_eq f input
    split at hu
    · rw [hu] at h
      cases h
    · rw [hu] at h
      exact ⟨hu, Except.ok.inj h⟩
  refine ⟨(hunits h).1, (hunits h').1, ?_⟩
  refine Format.alike_of_join hf (fun c hc ↦ isMadeOf_of_mem_cues hc)
    (fun c hc ↦ isMadeOf_of_mem_cues hc) ?_
  rw [(hunits h).2, (hunits h').2]

/-- A caption that comes up before the beginning, and an empty one after it. The times of two
sequences of units differ within a millisecond, and their documents are the same. -/
theorem document_determines_cues_subRip :
    let input : List CaptionUnit :=
      [⟨[0x94, 0x29], some 0⟩, ⟨[0xc1, 0x80], some (-1500000000)⟩,
        ⟨[0x94, 0x2f], some 1500000000⟩, ⟨[0x94, 0x2c], some 2000999999⟩]
    let input' : List CaptionUnit :=
      [⟨[0x94, 0x29], some 7⟩, ⟨[0xc1, 0x80], some (-1499000001)⟩,
        ⟨[0x94, 0x2f], some 1500000001⟩, ⟨[0x94, 0x2c], some 2000000000⟩]
    let d := "01\r\n-1:59:58,500 --> 00:00:01,500\r\nA\r\n\r\n" ++
      "02\r\n0:00:01,500 --> 00:00:02,000\r\n\r\n\r\n"
    Format.subRip ≠ .plain ∧ document .subRip input = .ok d ∧ document .subRip input' = .ok d ∧
      (cues input).map (·.start) ≠ (cues input').map (·.start) ∧
      List.Forall₂ Cue.Alike (cues input) (cues input') := by
  intro input input' d
  have hd : document .subRip input = .ok d := by decide +kernel
  have hd' : document .subRip input' = .ok d := by decide +kernel
  obtain ⟨-, -, ha⟩ := document_determines_cues (f := .subRip) (by decide) hd hd'
  exact ⟨by decide, hd, hd', by decide +kernel, ha⟩

end Conversion

end Line21
