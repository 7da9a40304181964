import Line21.Proofs.Format.Clock
import Mathlib.Data.List.Forall2

/-!
# Cues line by line

In WebVTT and in SubRip a cue is written on lines: what stands above its text, the lines of the
text and an empty line. A text without lines leaves an empty line of its own. As no line of a text
is empty or broken, the empty line tells where the text ends, and the lines of cues that follow
each other are the lines of no other cues.
-/

namespace Line21

namespace Text

/-- Lines as they stand in a document, each with its end. -/
def endLines (ls : List (List Char)) : List Char := ls.flatMap (· ++ ['\r', '\n'])

/-- The first line of a document is followed by its end. -/
theorem endLines_cons (l : List Char) (ls : List (List Char)) :
    endLines (l :: ls) = l ++ '\r' :: '\n' :: endLines ls := by
  rw [endLines, List.flatMap_cons, List.append_assoc]
  rfl

/-- Lines follow each other in a document. -/
theorem endLines_append (ls ls' : List (List Char)) :
    endLines (ls ++ ls') = endLines ls ++ endLines ls' := List.flatMap_append

/-- A document determines its lines if none of them is broken. -/
theorem endLines_inj {ls ls' : List (List Char)} (h : ∀ l ∈ ls, '\r' ∉ l)
    (h' : ∀ l ∈ ls', '\r' ∉ l) (he : endLines ls = endLines ls') : ls = ls' := by
  induction ls generalizing ls' with
  | nil =>
    cases ls' with
    | nil => rfl
    | cons l' ls' =>
      rw [endLines_cons] at he
      exact absurd he.symm (List.append_ne_nil_of_right_ne_nil l' (List.cons_ne_nil _ _))
  | cons l ls ih =>
    cases ls' with
    | nil =>
      rw [endLines_cons] at he
      exact absurd he (List.append_ne_nil_of_right_ne_nil l (List.cons_ne_nil _ _))
    | cons l' ls' =>
      rw [List.forall_mem_cons] at h h'
      rw [endLines_cons, endLines_cons] at he
      obtain ⟨rfl, hr⟩ := separated_inj h.1 h'.1 he
      rw [ih h.2 h'.2 (List.cons.inj hr).2]

/-- A text is made of lines that are neither empty nor broken. -/
structure IsMadeOf (text : String) (lines : List (List Char)) : Prop where
  eq : text = "\r\n".intercalate (lines.map String.ofList)
  nonempty : [] ∉ lines
  unbroken : ∀ l ∈ lines, '\r' ∉ l

/-- The lines of a text and an empty one. A text without lines leaves an empty line of its own. -/
def body (lines : List (List Char)) : List (List Char) :=
  if lines = [] then [[], []] else lines ++ [[]]

private theorem endLines_body {text : String} {lines : List (List Char)} (h : IsMadeOf text lines) :
    text.toList ++ ['\r', '\n', '\r', '\n'] = endLines (body lines) := by
  have hjoin (l : List Char) (ls : List (List Char)) :
      ['\r', '\n'].intercalate (l :: ls) ++ ['\r', '\n'] = endLines (l :: ls) := by
    induction ls generalizing l with
    | nil => rw [List.intercalate_singleton, endLines, List.flatMap_singleton]
    | cons l' ls ih =>
      rw [List.intercalate_cons_cons, List.append_assoc, ih, endLines_cons l, List.append_assoc]
      rfl
  have htext : text.toList = ['\r', '\n'].intercalate lines := by
    rw [h.eq, String.toList_intercalate, List.map_map, List.map_congr_left (g := id)]
    · rw [List.map_id]
      rfl
    · exact fun l _ ↦ String.toList_ofList
  rw [htext, body]
  cases lines with
  | nil => rfl
  | cons l ls =>
    rw [if_neg (List.cons_ne_nil l ls), endLines_append, ← hjoin, List.append_assoc]
    rfl

/-- The empty line tells where a text ends. -/
theorem body_append_inj {lines lines' rest rest' : List (List Char)} (h : [] ∉ lines)
    (h' : [] ∉ lines') (he : body lines ++ rest = body lines' ++ rest') :
    lines = lines' ∧ rest = rest' := by
  have hcons (l : List Char) (ls rest : List (List Char)) :
      body (l :: ls) ++ rest = (l :: ls) ++ [] :: rest := by
    rw [body, if_neg (List.cons_ne_nil l ls), List.append_assoc]
    rfl
  cases lines with
  | nil =>
    cases lines' with
    | nil => exact ⟨rfl, List.append_cancel_left he⟩
    | cons l' ls' =>
      rw [hcons] at he
      exact absurd ((List.cons.inj he).1 ▸ List.mem_cons_self) h'
  | cons l ls =>
    cases lines' with
    | nil =>
      rw [hcons] at he
      exact absurd ((List.cons.inj he).1 ▸ List.mem_cons_self) h
    | cons l' ls' =>
      rw [hcons, hcons] at he
      exact separated_inj h h' he

/-- No line of a text and of what closes it is broken. -/
theorem unbroken_body {lines : List (List Char)} (h : ∀ l ∈ lines, '\r' ∉ l) :
    ∀ l ∈ body lines, '\r' ∉ l := by
  intro l hl
  rw [body] at hl
  split at hl
  · simp only [List.mem_cons, List.not_mem_nil, or_false, or_self] at hl
    rw [hl]
    exact List.not_mem_nil
  · rcases List.mem_append.mp hl with hl | hl
    · exact h l hl
    · rw [List.mem_singleton.mp hl]
      exact List.not_mem_nil

end Text

/-- Cues that have the same text and show the same times, down to the millisecond. -/
structure Cue.Alike (c c' : Cue) : Prop where
  text : c.text = c'.text
  start : ClockTime.millisecondsOf c.start = ClockTime.millisecondsOf c'.start
  finish : ClockTime.millisecondsOf c.finish = ClockTime.millisecondsOf c'.finish

namespace Format

open Text (padded isNumeral isNumeral_of_mem_padded separated_inj endLines IsMadeOf body)

/-- The line with the times of a cue. -/
def span (width : Nat) (mark : Char) (c : Cue) : List Char :=
  clockChars width mark c.start ++ ' ' :: ("--> ".toList ++ clockChars 2 mark c.finish)

/-- The lines above the text of a cue. -/
def heading (f : Format) (c : Cue) : List (List Char) :=
  match f with
  | .webVtt => [span 2 '.' c]
  | .subRip => [(padded 2 c.number).toList, span 0 ',' c]
  | .plain => []

/-- A cue is written as the lines above its text, and the text with what closes it. -/
theorem toList_cueText {f : Format} (hf : f ≠ .plain) {c : Cue} {lines : List (List Char)}
    (h : IsMadeOf c.text lines) :
    (f.cueText c).toList = endLines (f.heading c ++ body lines) := by
  rw [Text.endLines_append, ← Text.endLines_body h]
  cases f with
  | plain => exact absurd rfl hf
  | webVtt =>
    have hc : webVtt.cueText c = webVttClock c.start ++ " --> " ++ webVttClock c.finish ++
      "\r\n" ++ c.text ++ "\r\n" ++ "\r\n" := rfl
    simp [hc, heading, span, endLines, toList_webVttClock]
  | subRip =>
    have hc : subRip.cueText c = padded 2 c.number ++ "\r\n" ++ subRipClock 0 c.start ++ " --> " ++
      subRipClock 2 c.finish ++ "\r\n" ++ c.text ++ "\r\n" ++ "\r\n" := rfl
    simp [hc, heading, span, endLines, toList_subRipClock]

/-- A line of times shows them. -/
theorem span_inj {width : Nat} {mark : Char} (hm : isNumeral mark = false) (hs : mark ≠ ' ')
    {c c' : Cue} (h : span width mark c = span width mark c') :
    ClockTime.millisecondsOf c.start = ClockTime.millisecondsOf c'.start ∧
      ClockTime.millisecondsOf c.finish = ClockTime.millisecondsOf c'.finish := by
  have hn (time : Int) : ' ' ∉ clockChars width mark time :=
    not_mem_clockChars (by decide) (by decide) (Ne.symm hs) width time
  obtain ⟨hstart, hrest⟩ := separated_inj (hn _) (hn _) h
  exact ⟨millisecondsOf_eq_of_clockChars hm hstart,
    millisecondsOf_eq_of_clockChars hm (List.append_cancel_left hrest)⟩

/-- The lines above a text show the times of the cue. -/
theorem heading_inj {f : Format} (hf : f ≠ .plain) {c c' : Cue} (h : f.heading c = f.heading c') :
    ClockTime.millisecondsOf c.start = ClockTime.millisecondsOf c'.start ∧
      ClockTime.millisecondsOf c.finish = ClockTime.millisecondsOf c'.finish := by
  cases f with
  | plain => exact absurd rfl hf
  | webVtt => exact span_inj (by decide) (by decide) (List.cons.inj h).1
  | subRip =>
    exact span_inj (by decide) (by decide) (List.cons.inj (List.cons.inj h).2).1

private theorem length_heading (f : Format) (c c' : Cue) :
    (f.heading c).length = (f.heading c').length := by
  cases f <;> rfl

/-- No line above a text is broken. -/
theorem unbroken_heading (f : Format) (c : Cue) : ∀ l ∈ f.heading c, '\r' ∉ l := by
  have hspan {width : Nat} {mark : Char} (hm : '\r' ≠ mark) : '\r' ∉ span width mark c := by
    have hn (width : Nat) (time : Int) : '\r' ∉ clockChars width mark time :=
      not_mem_clockChars (by decide) (by decide) hm width time
    simp [span, hn]
  have hnumber : '\r' ∉ (padded 2 c.number).toList :=
    fun h ↦ nomatch (isNumeral_of_mem_padded h : isNumeral '\r' = true)
  cases f with
  | plain => exact fun l hl ↦ nomatch hl
  | webVtt => simp [heading, hspan]
  | subRip => simp [heading, hspan, hnumber]

/-- Cues whose lines are the same are alike, one by one. -/
theorem alike_of_lines {f : Format} (hf : f ≠ .plain) {cues cues' : List Cue}
    {ls ls' : Cue → List (List Char)} (h : ∀ c ∈ cues, IsMadeOf c.text (ls c))
    (h' : ∀ c ∈ cues', IsMadeOf c.text (ls' c))
    (he : (cues.flatMap fun c ↦ f.heading c ++ body (ls c)) =
      cues'.flatMap fun c ↦ f.heading c ++ body (ls' c)) :
    List.Forall₂ Cue.Alike cues cues' := by
  have hne (c : Cue) (lines rest : List (List Char)) :
      (f.heading c ++ body lines) ++ rest ≠ [] := by
    intro hnil
    rw [List.append_eq_nil_iff, List.append_eq_nil_iff] at hnil
    have hb := hnil.1.2
    rw [body] at hb
    split at hb
    · cases hb
    · exact List.append_ne_nil_of_right_ne_nil _ (List.cons_ne_nil _ _) hb
  induction cues generalizing cues' with
  | nil =>
    cases cues' with
    | nil => exact .nil
    | cons c' cues' => exact absurd he.symm (hne c' _ _)
  | cons c cues ih =>
    cases cues' with
    | nil => exact absurd he (hne c _ _)
    | cons c' cues' =>
      rw [List.forall_mem_cons] at h h'
      rw [List.flatMap_cons, List.flatMap_cons, List.append_assoc, List.append_assoc] at he
      -- The headings are of one length, and the texts are cut at their empty lines.
      obtain ⟨hhead, hrest⟩ := List.append_inj he (f.length_heading c c')
      obtain ⟨hlines, hrest⟩ := Text.body_append_inj h.1.nonempty h'.1.nonempty hrest
      have htext : c.text = c'.text := by rw [h.1.eq, h'.1.eq, hlines]
      obtain ⟨hstart, hfinish⟩ := heading_inj hf hhead
      exact .cons ⟨htext, hstart, hfinish⟩ (ih h.2 h'.2 hrest)

end Format

end Line21
