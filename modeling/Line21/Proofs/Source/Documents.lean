import Line21.Proofs.Source.Files
import Line21.Proofs.Text.Trimming
import Line21.Proofs.Text.Utf8

/-!
# SCC documents

A document is laid out around its words: white space stands around and between them, lines end in
one way or another, and there may be blank lines, lines of something else and words that are no
pairs. Main statement: whatever stands around them, reading a document finds its pairs, each in the
frame of its word.
-/

namespace Line21

/-! ### Words of four digits -/

namespace Text.Hex

private theorem digit?_eq_some_iff {c : Char} {n : Nat} :
    digit? c = some n ↔ n < 16 ∧ c.toLower = digit n := by
  constructor
  · intro h
    have hnumber : n < 16 ∧ c.toLower.toNat = if n < 10 then 0x30 + n else 0x57 + n := by
      rw [digit?_eq] at h
      rw [toNat_toLower]
      grind
    refine ⟨hnumber.1, ?_⟩
    rw [digit, ← hnumber.2, Char.ofNat_toNat]
  · rintro ⟨hn, hc⟩
    rw [← digit?_toLower, hc, digit?_digit hn]

private theorem byte?_eq_some_iff {c d : Char} {b : UInt8} :
    byte? c d = some b ↔ [c.toLower, d.toLower] = ofByte b := by
  constructor
  · intro h
    simp only [byte?, Option.bind_eq_bind, Option.bind_eq_some_iff] at h
    obtain ⟨high, hh, low, hl, hb⟩ := h
    obtain ⟨hhigh, hc⟩ := digit?_eq_some_iff.mp hh
    obtain ⟨hlow, hd⟩ := digit?_eq_some_iff.mp hl
    obtain rfl := Option.some.inj hb
    have hn : (UInt8.ofNat (16 * high + low)).toNat = 16 * high + low :=
      UInt8.toNat_ofNat_of_lt' (show 16 * high + low < 256 by omega)
    have hdiv : (16 * high + low) / 16 = high := by omega
    have hmod : (16 * high + low) % 16 = low := by omega
    rw [ofByte, hn, hdiv, hmod, hc, hd]
  · intro h
    obtain ⟨hc, hd⟩ := List.cons.inj h
    have hd := (List.cons.inj hd).1
    have hsame : byte? c d = byte? c.toLower d.toLower := by
      rw [byte?, byte?, digit?_toLower, digit?_toLower]
    rw [hsame, hc, hd, byte?_digit]

end Text.Hex

namespace Scc

/-- A word is a pair of bytes if it is their four digits, in lower case or not. -/
theorem word?_eq_some_iff {word : List Char} {data : List UInt8} :
    word? word = some data ↔
      ∃ a b, data = [a, b] ∧ word.map Char.toLower = Text.Hex.ofBytes [a, b] := by
  constructor
  · intro h
    unfold word? at h
    split at h
    · next c₁ c₂ c₃ c₄ =>
      simp only [Option.bind_eq_bind, Option.bind_eq_some_iff] at h
      obtain ⟨a, ha, b, hb, h⟩ := h
      obtain rfl := Option.some.inj h
      rw [Text.Hex.byte?_eq_some_iff] at ha hb
      refine ⟨a, b, rfl, ?_⟩
      rw [Text.Hex.ofBytes, List.flatMap_cons, List.flatMap_singleton, ← ha, ← hb]
      rfl
    · cases h
  · rintro ⟨a, b, rfl, h⟩
    obtain ⟨c₁, word, rfl, h₁, h⟩ := List.map_eq_cons_iff.mp h
    obtain ⟨c₂, word, rfl, h₂, h⟩ := List.map_eq_cons_iff.mp h
    obtain ⟨c₃, word, rfl, h₃, h⟩ := List.map_eq_cons_iff.mp h
    obtain ⟨c₄, word, rfl, h₄, h⟩ := List.map_eq_cons_iff.mp h
    obtain rfl := List.map_eq_nil_iff.mp h
    have ha : Text.Hex.byte? c₁ c₂ = some a := Text.Hex.byte?_eq_some_iff.mpr (by rw [h₁, h₂]; rfl)
    have hb : Text.Hex.byte? c₃ c₄ = some b := Text.Hex.byte?_eq_some_iff.mpr (by rw [h₃, h₄]; rfl)
    rw [word?, ha, hb]
    rfl

/-! ### Layout -/

/-- White space within a line. -/
structure Space where
  chars : List Char
  isBlank : ∀ c ∈ chars, Text.isBlank c = true
  unbroken : ∀ c ∈ chars, Text.isLineEnd c = false

/-- White space that stands between two words. -/
structure Gap extends Space where
  nonempty : chars ≠ []

/-- What ends a line. -/
structure LineEnd where
  chars : List Char
  isEnd : chars ∈ Text.lineEnds

/-- A word of a line. -/
structure Word where
  chars : List Char
  nonempty : chars ≠ []
  isWhole : ∀ c ∈ chars, Text.isBlank c = false

/-- The text of a word. -/
def Word.text (w : Word) : String := String.ofList w.chars

/-- A word in the place of a pair, and the two bytes that it spells if it consists of their four
digits, in lower case or not. -/
structure Token extends Word where
  data? : Option (UInt8 × UInt8)
  spells : ∀ a b, data? = some (a, b) ↔ chars.map Char.toLower = Text.Hex.ofBytes [a, b]

/-- A line of a document. -/
inductive Line
  /-- There is nothing but white space. -/
  | blank (space : Space)
  /-- The first word is no timecode. -/
  | malformed (lead : Space) (first : Word) (rest : List (Gap × Word)) (trail : Space)
      (isNone : ∀ t, Timecode.ofText first.text ≠ .ok t)
  /-- The first word is a timecode. -/
  | timed (lead : Space) (code : Word) (timecode : Timecode) (tokens : List (Gap × Token))
      (trail : Space) (isCode : Timecode.ofText code.text = .ok timecode)

/-- Words with white space between them and around them. -/
def spread (lead : Space) (first : Word) (rest : List (Gap × Word)) (trail : Space) : List Char :=
  lead.chars ++
    (first.chars ++ ((rest.flatMap fun (gap, word) ↦ gap.chars ++ word.chars) ++ trail.chars))

namespace Line

/-- The characters of a line. -/
def chars : Line → List Char
  | blank space => space.chars
  | malformed lead first rest trail _ => spread lead first rest trail
  | timed lead code _ tokens trail _ =>
    spread lead code (tokens.map fun (gap, token) ↦ (gap, token.toWord)) trail

/-- The pairs that stand on a line, each with the number of its frame. Only a timecode says at which
frame the words begin; a word that is no pair keeps its frame. -/
def pairs : Line → List (List UInt8 × Nat)
  | blank _ => []
  | malformed .. => []
  | timed _ _ timecode tokens _ _ =>
    tokens.zipIdx.filterMap fun ((_, token), i) ↦
      token.data?.map fun (a, b) ↦ ([a, b], timecode.frame + i)

end Line

/-- A document: blank lines, the header, and lines. -/
structure Document where
  /-- A byte order mark stands in front. -/
  mark : Bool
  /-- The blank lines above the header, each with its end. -/
  above : List (Space × LineEnd)
  /-- The white space in front of the header. -/
  lead : Space
  /-- The white space behind the header. -/
  trail : Space
  /-- The lines below the header, each with the end of the line above it. -/
  below : List (LineEnd × Line)
  /-- What ends the last line, if anything does. -/
  finish : Option LineEnd

namespace Document

/-- The white space in front of the header. -/
def front (d : Document) : List Char :=
  (d.above.flatMap fun (space, lineEnd) ↦ space.chars ++ lineEnd.chars) ++ d.lead.chars

/-- The text of a document. -/
def chars (d : Document) : List Char :=
  d.front ++ (sccHeader.toList ++ (d.trail.chars ++
    ((d.below.flatMap fun (lineEnd, line) ↦ lineEnd.chars ++ line.chars) ++
      (d.finish.map LineEnd.chars).getD [])))

/-- The bytes of a document, in UTF-8. -/
def bytes (d : Document) : List UInt8 :=
  (if d.mark then [0xef, 0xbb, 0xbf] else []) ++ Text.Utf8.encode d.chars

/-- The pairs of a document, each with the number of its frame. -/
def pairs (d : Document) : List (List UInt8 × Nat) := d.below.flatMap fun (_, line) ↦ line.pairs

end Document

/-- Every word may stand in the place of a pair. -/
def Token.ofWord (w : Word) : Token where
  toWord := w
  data? := match word? w.chars with
    | some [a, b] => some (a, b)
    | _ => none
  spells a b := by
    constructor
    · intro h
      split at h
      · next he =>
        obtain ⟨rfl, rfl⟩ := Prod.mk.inj (Option.some.inj h)
        obtain ⟨a, b, hab, hs⟩ := word?_eq_some_iff.mp he
        rwa [hab]
      · cases h
    · intro h
      rw [word?_eq_some_iff.mpr ⟨a, b, rfl, h⟩]

/-! ### Words of a line -/

private theorem word?_token (token : Token) :
    word? token.chars = token.data?.map fun (a, b) ↦ [a, b] := by
  cases hd : token.data? with
  | none =>
    rw [Option.map_none, Option.eq_none_iff_forall_ne_some]
    intro data hw
    obtain ⟨a, b, -, hs⟩ := word?_eq_some_iff.mp hw
    rw [(token.spells a b).mpr hs] at hd
    cases hd
  | some pair => exact word?_eq_some_iff.mpr ⟨_, _, rfl, (token.spells _ _).mp hd⟩

/-- The words of a line are those that are spread over it. -/
theorem words_spread (lead : Space) (first : Word) (rest : List (Gap × Word)) (trail : Space) :
    Text.words (spread lead first rest trail) = first.chars :: rest.map (·.2.chars) := by
  rw [spread, Text.words_append_of_isBlank lead.isBlank, ← List.append_assoc,
    Text.words_append_isBlank trail.isBlank]
  induction rest generalizing first with
  | nil =>
    rw [List.flatMap_nil, List.append_nil, List.map_nil,
      Text.words_of_forall_not_isBlank first.nonempty first.isWhole]
  | cons next rest ih =>
    obtain ⟨gap, word⟩ := next
    obtain ⟨c, blanks, hg⟩ := List.exists_cons_of_ne_nil gap.nonempty
    have hblank := gap.isBlank
    rw [hg, List.forall_mem_cons] at hblank
    rw [List.flatMap_cons, List.append_assoc, hg, List.cons_append,
      Text.words_append_cons _ _ hblank.1, Text.words_append_of_isBlank hblank.2, ih word,
      Text.words_of_forall_not_isBlank first.nonempty first.isWhole]
    rfl

private theorem isLineEnd_of_mem_spread {lead : Space} {first : Word} {rest : List (Gap × Word)}
    {trail : Space} : ∀ c ∈ spread lead first rest trail, Text.isLineEnd c = false := by
  have hword (w : Word) : ∀ c ∈ w.chars, Text.isLineEnd c = false := by
    intro c hc
    cases he : Text.isLineEnd c with
    | false => rfl
    | true => exact absurd (Text.isBlank_of_isLineEnd he) (Bool.eq_false_iff.mp (w.isWhole c hc))
  have hrest : ∀ c ∈ rest.flatMap fun (gap, word) ↦ gap.chars ++ word.chars,
      Text.isLineEnd c = false := by
    intro c hc
    obtain ⟨⟨gap, word⟩, -, hc⟩ := List.mem_flatMap.mp hc
    exact List.forall_mem_append.mpr ⟨gap.unbroken, hword word⟩ c hc
  rw [spread]
  simp only [List.forall_mem_append]
  exact ⟨lead.unbroken, hword first, hrest, trail.unbroken⟩

private theorem lines_spread (lead : Space) (first : Word) (rest : List (Gap × Word))
    (trail : Space) :
    Text.lines (spread lead first rest trail) = [Text.trim (spread lead first rest trail)] := by
  have hne : Text.trim (spread lead first rest trail) ≠ [] := by
    intro h
    have hwords := Text.words_trim (spread lead first rest trail)
    rw [h, words_spread] at hwords
    cases hwords
  rw [Text.lines_of_forall_not_isLineEnd isLineEnd_of_mem_spread]
  exact List.filter_cons_of_pos (by simp [hne])

/-- A word is a timecode if its characters are one. -/
theorem ofText_text_eq_ok_iff {w : Word} {t : Timecode} :
    Timecode.ofText w.text = .ok t ↔ Timecode.ofChars? w.chars = some t := by
  have hlast : w.text.toList.getLast? ≠ some '\n' := by
    intro h
    rw [Word.text, String.toList_ofList] at h
    exact nomatch (w.isWhole _ (List.mem_of_getLast? h) : Text.isBlank '\n' = false)
  rw [Timecode.ofText, if_neg hlast, Word.text, String.toList_ofList]
  cases Timecode.ofChars? w.chars with
  | none => exact ⟨nofun, nofun⟩
  | some t' =>
    exact ⟨fun h ↦ congrArg some (Except.ok.inj h), fun h ↦ congrArg _ (Option.some.inj h)⟩

/-! ### Lines of a document -/

/-- A line of white space is not found. -/
theorem lines_space (space : Space) : Text.lines space.chars = [] := by
  rw [Text.lines_of_forall_not_isLineEnd space.unbroken, Text.trim_eq_nil_iff.mpr space.isBlank]
  rfl

private theorem flatMap_pairsOfLine_lines (line : Line) :
    (Text.lines line.chars).flatMap pairsOfLine = line.pairs := by
  cases line with
  | blank space =>
    rw [Line.chars, lines_space]
    rfl
  | malformed lead first rest trail isNone =>
    have hnone : Timecode.ofChars? first.chars = none :=
      Option.eq_none_iff_forall_ne_some.mpr fun t ht ↦ isNone t (ofText_text_eq_ok_iff.mpr ht)
    rw [Line.chars, lines_spread, List.flatMap_singleton, pairsOfLine, Text.words_trim,
      words_spread]
    dsimp only
    rw [hnone]
    rfl
  | timed lead code timecode tokens trail isCode =>
    have hcode := ofText_text_eq_ok_iff.mp isCode
    rw [Line.chars, lines_spread, List.flatMap_singleton, pairsOfLine, Text.words_trim,
      words_spread]
    dsimp only
    rw [hcode]
    dsimp only
    rw [Line.pairs, List.map_map, List.zipIdx_map, List.filterMap_map]
    apply List.filterMap_congr
    rintro ⟨⟨gap, token⟩, i⟩ -
    have hword := word?_token token
    cases hd : token.data? with
    | none => simp [hword, hd]
    | some pair => simp [hword, hd]

private theorem lines_append_flatMap (above : List Char) (below : List (LineEnd × Line)) :
    Text.lines (above ++ below.flatMap fun (lineEnd, line) ↦ lineEnd.chars ++ line.chars) =
      Text.lines above ++ below.flatMap fun (_, line) ↦ Text.lines line.chars := by
  induction below generalizing above with
  | nil => rw [List.flatMap_nil, List.flatMap_nil, List.append_nil, List.append_nil]
  | cons next below ih =>
    obtain ⟨lineEnd, line⟩ := next
    rw [List.flatMap_cons, List.flatMap_cons, List.append_assoc,
      Text.lines_append_lineEnd _ _ lineEnd.isEnd, ih]

private theorem Document.isBlank_of_mem_front {d : Document} :
    ∀ c ∈ d.front, Text.isBlank c = true := by
  have hend : ∀ e ∈ Text.lineEnds, e.all Text.isBlank = true := by decide
  intro c hc
  rcases List.mem_append.mp hc with hc | hc
  · obtain ⟨⟨space, lineEnd⟩, -, hc⟩ := List.mem_flatMap.mp hc
    rcases List.mem_append.mp hc with hc | hc
    · exact space.isBlank c hc
    · exact List.all_eq_true.mp (hend _ lineEnd.isEnd) c hc
  · exact d.lead.isBlank c hc

private theorem lines_append_of_blank (above : List (Space × LineEnd)) (below : List Char) :
    Text.lines ((above.flatMap fun (space, lineEnd) ↦ space.chars ++ lineEnd.chars) ++ below) =
      Text.lines below := by
  induction above with
  | nil => rfl
  | cons next above ih =>
    obtain ⟨space, lineEnd⟩ := next
    rw [List.flatMap_cons, List.append_assoc, List.append_assoc,
      Text.lines_append_lineEnd _ _ lineEnd.isEnd, lines_space, List.nil_append, ih]

/-- The first line that is found in a document is the header. -/
theorem Document.lines_chars (d : Document) :
    Text.lines d.chars =
      sccHeader.toList :: d.below.flatMap fun (_, line) ↦ Text.lines line.chars := by
  have hheader : Text.lines (d.lead.chars ++ (sccHeader.toList ++ d.trail.chars)) =
      [sccHeader.toList] := by
    have htrimmed : Text.IsTrimmed sccHeader.toList := by
      constructor <;> rintro c ⟨⟩ <;> rfl
    have hunbroken : ∀ c ∈ sccHeader.toList, Text.isLineEnd c = false :=
      Text.forall_mem_of_all rfl
    rw [Text.lines_of_forall_not_isLineEnd,
      (htrimmed.trimsTo d.lead.isBlank d.trail.isBlank).trim_eq]
    · rfl
    · simp only [List.forall_mem_append]
      exact ⟨d.lead.unbroken, hunbroken, d.trail.unbroken⟩
  -- What ends the last line leaves nothing behind it.
  have hfinish (cs : List Char) :
      Text.lines (cs ++ (d.finish.map LineEnd.chars).getD []) = Text.lines cs := by
    cases d.finish with
    | none => exact congrArg Text.lines (List.append_nil cs)
    | some lineEnd =>
      have h := Text.lines_append_lineEnd cs [] lineEnd.isEnd
      rw [List.append_nil] at h
      exact h.trans (List.append_nil _)
  rw [chars, front, List.append_assoc, lines_append_of_blank, ← List.append_assoc,
    ← List.append_assoc, ← List.append_assoc, hfinish, List.append_assoc d.lead.chars,
    lines_append_flatMap, hheader]
  rfl

private theorem Document.head?_chars_ne (d : Document) : d.chars.head? ≠ some '\uFEFF' := by
  intro h
  rw [chars] at h
  cases hf : d.front with
  | nil =>
    rw [hf] at h
    exact absurd (Option.some.inj h) (by decide)
  | cons c front =>
    have hblank := d.isBlank_of_mem_front c (hf ▸ List.mem_cons_self)
    rw [hf] at h
    obtain rfl := Option.some.inj h
    cases hblank

/-- The bytes of a document are read as its text. -/
theorem Document.decode_dropMark_bytes (d : Document) :
    (Text.Utf8.decode (Text.Utf8.dropMark d.bytes)).toList = d.chars := by
  have hdrop : Text.Utf8.dropMark d.bytes = Text.Utf8.encode d.chars := by
    rw [bytes]
    cases d.mark with
    | true => rfl
    | false => exact Text.Utf8.dropMark_encode d.head?_chars_ne
  rw [hdrop, Text.Utf8.decode_encode]

private theorem Document.isHeaded_bytes (d : Document) : IsHeaded d.bytes := by
  rw [IsHeaded, firstLine?, d.decode_dropMark_bytes, ← List.head?_filter]
  exact congrArg List.head? d.lines_chars

private theorem stamped_eq_ok {data : List UInt8} {frame : Nat} {u : CaptionUnit}
    (h : stamped data frame = .ok u) :
    u.data = data ∧ ∃ time, FrameRate.standard.stamp frame = .ok time ∧ u.time = some time := by
  unfold stamped at h
  cases hs : FrameRate.standard.stamp frame with
  | error e =>
    rw [hs] at h
    cases h
  | ok time =>
    rw [hs] at h
    obtain rfl := Except.ok.inj h
    exact ⟨rfl, time, rfl, rfl⟩

/-- Reading a document gives a unit for each of its pairs in order, stamped with its frame, whatever
white space, line ends, blank lines, lines without a timecode and words that are no pairs stand
around it, and whether or not a byte order mark stands in front. A document of fewer than `2 ^ 64`
bytes has no frame without a stamp. -/
theorem read_finds_pairs (d : Document) :
    read d.bytes = (d.pairs.mapM fun pair ↦ stamped pair.1 pair.2) ∧
      (d.bytes.length < 2 ^ 64 →
        ∃ units, read d.bytes = .ok units ∧
          List.Forall₂ (fun pair u ↦ u.data = pair.1 ∧
            ∃ time, FrameRate.standard.stamp pair.2 = .ok time ∧ u.time = some time)
            d.pairs units) := by
  have hpairs : pairsOfLines (Text.lines d.chars) = .ok d.pairs := by
    rw [d.lines_chars, pairsOfLines, if_pos (String.ofList_toList), List.flatMap_assoc]
    congr 2
    funext next
    exact flatMap_pairsOfLine_lines next.2
  have hread : read d.bytes = d.pairs.mapM fun pair ↦ stamped pair.1 pair.2 := by
    rw [read, d.decode_dropMark_bytes, hpairs]
    rfl
  refine ⟨hread, fun hl ↦ ?_⟩
  obtain ⟨units, hu, -⟩ := exists_read_of_isHeaded hl d.isHeaded_bytes
  exact ⟨units, hu, (mapM_eq_ok_iff.mp (hread.symm.trans hu)).imp fun _ _ h ↦ stamped_eq_ok h⟩

/-- A byte order mark stands in front, the header has white space around it, and there are a line of
notes, a word that is no pair and different line ends. The pairs are written in both cases. -/
theorem read_finds_pairs_among_notes :
    let empty : Space := ⟨[], nofun, nofun⟩
    let blank : Space := ⟨[' '], Text.forall_mem_of_all rfl, Text.forall_mem_of_all rfl⟩
    let gap : Gap := ⟨⟨['\t', ' '], Text.forall_mem_of_all rfl, Text.forall_mem_of_all rfl⟩, nofun⟩
    let d : Document :=
      { mark := true
        above := [(blank, ⟨['\r', '\n'], by decide⟩)]
        lead := empty
        trail := ⟨['\u00a0'], Text.forall_mem_of_all rfl, Text.forall_mem_of_all rfl⟩
        below :=
          [(⟨['\u2028'], by decide⟩, .blank empty),
            (⟨['\r'], by decide⟩,
              .malformed empty ⟨"notes".toList, by decide, Text.forall_mem_of_all rfl⟩
                [(gap, ⟨"942c".toList, by decide, Text.forall_mem_of_all rfl⟩)] empty
                (fun _ h ↦ nomatch ofText_text_eq_ok_iff.mp h)),
            (⟨['\n'], by decide⟩,
              .timed empty ⟨"00:00:01;02".toList, by decide, Text.forall_mem_of_all rfl⟩
                ⟨0, 0, 1, 2, true⟩
                [(gap, .ofWord ⟨"94aE".toList, by decide, Text.forall_mem_of_all rfl⟩),
                  (gap, .ofWord ⟨"94".toList, by decide, Text.forall_mem_of_all rfl⟩),
                  (gap, .ofWord ⟨"942F".toList, by decide, Text.forall_mem_of_all rfl⟩)] empty rfl)]
        finish := some ⟨['\u0085'], by decide⟩ }
    d.chars = (" \r\nScenarist_SCC V1.0\u00a0\u2028\rnotes\t 942c\n" ++
        "00:00:01;02\t 94aE\t 94\t 942F\u0085").toList ∧
      d.bytes.length < 2 ^ 64 ∧
      read d.bytes =
        .ok [⟨[0x94, 0xae], some 1067733333⟩, ⟨[0x94, 0x2f], some 1134466667⟩] := by
  intro empty blank gap d
  have hl : d.bytes.length < 2 ^ 64 := by decide +kernel
  obtain ⟨hread, hok⟩ := read_finds_pairs d
  obtain ⟨units, hunits, -⟩ := hok hl
  have hvalue : (d.pairs.mapM fun pair ↦ stamped pair.1 pair.2).toOption =
      some [⟨[0x94, 0xae], some 1067733333⟩, ⟨[0x94, 0x2f], some 1134466667⟩] := by decide +kernel
  rw [← hread, hunits] at hvalue
  refine ⟨by decide +kernel, hl, ?_⟩
  rw [hunits]
  exact congrArg Except.ok (Option.some.inj hvalue)

end Scc

end Line21
