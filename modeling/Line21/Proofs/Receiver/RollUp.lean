import Line21.Proofs.Code.Spelling
import Line21.Proofs.Screen.Window

/-!
# Roll-up captions

Lines that roll up are written straight to the screen, each on the base row of a window, and every
carriage return moves the window up by a row. Main statement: what is seen in the end are the last
lines, as many as the window has rows and the screen has room for.
-/

namespace Line21

/-- A line of basic characters that fits into a row. -/
structure RolledLine where
  text : List Char
  nonempty : text ≠ []
  fits : text.length ≤ 32
  isBasic : text ⊆ Charset.basics

/-- Lines that roll up from a base row in a window of some depth. -/
structure RollUp where
  depth : Depth
  base : Row
  lines : List RolledLine
  nonempty : lines ≠ []

namespace RolledLine

/-- The codes that type a line. -/
def codes (l : RolledLine) : List Code := (pairUp l.text).map .basic

/-- A line without the spaces around it. -/
def trimmed (l : RolledLine) : List Char := Text.trimBy (· == ' ') l.text

end RolledLine

namespace RollUp

/-- The codes that roll lines up: the depth of the window, its base row without an indent, and
the lines with a carriage return between each and the next. -/
def codes (u : RollUp) : List Code :=
  .control .one (.rollUp u.depth) :: .preamble .one (some u.base) 0 ::
    List.intercalate [.control .one .carriageReturn] (u.lines.map RolledLine.codes)

/-- The last lines, as many as there is room for in the window and on the screen. -/
def remaining (u : RollUp) : List RolledLine :=
  u.lines.drop (u.lines.length - min u.depth.rows (u.base.val + 1))

/-- What there is to read in the end: the last lines without the spaces around them. Lines of
spaces alone are left out. -/
def text (u : RollUp) : String :=
  "\r\n".intercalate
    (((u.remaining.map RolledLine.trimmed).filter (!·.isEmpty)).map String.ofList)

end RollUp

/-- Codes that say basic characters. -/
def Code.isText : Code → Bool
  | .basic _ => true
  | _ => false

/-- Lists that are joined by a single item are the first and then, behind the item, each other. -/
theorem intercalate_map_cons {α β : Type} (x : β) (f : α → List β) (a : α) (as : List α) :
    List.intercalate [x] ((a :: as).map f) = f a ++ as.flatMap fun b ↦ x :: f b := by
  induction as generalizing a with
  | nil => exact List.intercalate_singleton.trans (List.append_nil _).symm
  | cons b as ih =>
    have h := ih b
    rw [List.map_cons] at h
    rw [List.map_cons, List.map_cons, List.intercalate_cons_cons, h, List.flatMap_cons,
      List.append_assoc, List.singleton_append, List.cons_append]

/-- The codes that roll lines up can be sent. -/
theorem RollUp.isSpelled_of_mem_codes {u : RollUp} {c : Code} (h : c ∈ u.codes) :
    c.IsSpelled := by
  have hline {l : RolledLine} (hc : c ∈ l.codes) : c.IsSpelled := by
    obtain ⟨chars, hchars, rfl⟩ := List.mem_map.mp hc
    exact Code.isSpelled_basic l.isBasic hchars
  obtain ⟨first, rest, hlines⟩ := List.exists_cons_of_ne_nil u.nonempty
  rw [codes, hlines, intercalate_map_cons, List.mem_cons, List.mem_cons, List.mem_append,
    List.mem_flatMap] at h
  rcases h with rfl | rfl | h | ⟨l, -, h⟩
  · exact Code.isSpelled_control (.rollUp u.depth)
  · exact Code.isSpelled_preamble u.base 0
  · exact hline h
  · rcases List.mem_cons.mp h with rfl | h
    · exact Code.isSpelled_control .carriageReturn
    · exact hline h

namespace Receiver

variable {r : Receiver} {base : Row} {depth : Depth}

/-! ### Showing text as it comes -/

/-- A receiver hears pairs, shows a caption at each that says characters, is quiet at all others,
and ends in a state. -/
def Echoes (r : Receiver) (ps : List BytePair) (r' : Receiver) : Prop :=
  r.stepAll ps = (r', ps.map fun p ↦ if p.code.isText then .shown else .quiet)

/-- A pair goes before other pairs. -/
theorem Echoes.cons {r' r'' : Receiver} {p : BytePair} {ps : List BytePair}
    (hp : r.step p = (r', if p.code.isText then .shown else .quiet)) (h : r'.Echoes ps r'') :
    r.Echoes (p :: ps) r'' := by
  rw [Echoes, stepAll, hp, h, List.map_cons]

/-- Pairs go before other pairs. -/
theorem Echoes.append {r' r'' : Receiver} {ps qs : List BytePair} (hp : r.Echoes ps r')
    (hq : r'.Echoes qs r'') : r.Echoes (ps ++ qs) r'' := by
  rw [Echoes, stepAll_append, hp, hq, List.map_append]

/-! ### Rolling up -/

/-- Characters go to a window of the screen. -/
structure RollsUp (r : Receiver) (base : Row) (depth : Depth) : Prop where
  target : r.target = some .shown
  window : r.window = some depth
  channel : r.channel = .one
  inPacket : r.inPacket = false
  row : r.row = base

/-- Characters were the last to go to a window of the screen, which holds a memory. -/
structure HasTyped (r : Receiver) (base : Row) (depth : Depth) (m : Memory) : Prop
    extends r.RollsUp base depth where
  shown : r.shown = m
  displayed : r.displayed = true
  last : r.last.code.isDoubled = false

private theorem echoes_basic (h : r.RollsUp base depth) {ps : List BytePair}
    {chars : List (List Char)} (hp : ps.map BytePair.code = chars.map .basic)
    (hne : chars = [] → r.displayed = true ∧ r.last.code.isDoubled = false) :
    ∃ r', r.Echoes ps r' ∧
      r'.HasTyped base depth (r.shown.typed base r.column chars.flatten) := by
  induction chars generalizing r ps with
  | nil =>
    obtain rfl := List.map_eq_nil_iff.mp hp
    exact ⟨r, rfl, h, rfl, (hne rfl).1, (hne rfl).2⟩
  | cons xs chars ih =>
    obtain ⟨p, ps, rfl, hx, hp⟩ := List.map_eq_cons_iff.mp hp
    have hs : r.step p =
        ({ r with
            last := p
            shown := r.shown.typed r.row r.column xs
            column := r.column.advance xs.length
            displayed := true }, .shown) := by
      have ht : ({ r with last := p } : Receiver).target = some .shown := h.target
      rw [step_of_code hx rfl h.inPacket nofun, act, if_pos h.channel, write_of_shown ht]
    have hr : RollsUp { r with
        last := p
        shown := r.shown.typed r.row r.column xs
        column := r.column.advance xs.length
        displayed := true } base depth :=
      ⟨h.target, h.window, h.channel, h.inPacket, h.row⟩
    obtain ⟨r', he, hr'⟩ := ih hr hp fun _ ↦ ⟨rfl, by rw [hx]; rfl⟩
    refine ⟨r', .cons ?_ he, ?_⟩
    · rw [hs, hx]
      rfl
    · rw [List.flatten_cons, Memory.typed_append, ← h.row]
      exact h.row ▸ hr'

/-- A line that is typed from the left edge fills the room that was made for it. -/
theorem echoes_line {recent : List (List Char)} (h : r.RollsUp base depth)
    (hcolumn : r.column = 0) (hshown : r.shown = .rolled base depth ([] :: recent))
    (l : RolledLine) {ps : List BytePair} (hp : ps.map BytePair.code = l.codes) :
    ∃ r', r.Echoes ps r' ∧
      r'.HasTyped base depth (.rolled base depth (l.text :: recent)) := by
  have hne := pairUp_ne_nil l.nonempty
  obtain ⟨r', he, hr'⟩ := echoes_basic h hp fun hnil ↦ absurd hnil hne
  rw [flatten_pairUp, hcolumn, hshown, Memory.typed_rolled l.fits] at hr'
  exact ⟨r', he, hr'⟩

private theorem echoes_next {recent : List (List Char)}
    (h : r.HasTyped base depth (.rolled base depth recent)) (l : RolledLine) {ps : List BytePair}
    (hp : ps.map BytePair.code = .control .one .carriageReturn :: l.codes) :
    ∃ r', r.Echoes ps r' ∧
      r'.HasTyped base depth (.rolled base depth (l.text :: recent)) := by
  obtain ⟨p, ps, rfl, hreturn, hp⟩ := List.map_eq_cons_iff.mp hp
  have hne : r.last.code ≠ .control .one .carriageReturn := by
    intro he
    have hd := h.last
    rw [he] at hd
    cases hd
  have hs : r.step p =
      ({ r with
          last := p
          channel := .one
          shown := r.shown.rollUp r.row depth
          column := 0 }, .quiet) := by
    rw [step_of_code hreturn rfl h.inPacket fun _ ↦ hne, act, obey]
    dsimp only
    rw [h.window]
  have hr : RollsUp { r with
      last := p
      channel := .one
      shown := r.shown.rollUp r.row depth
      column := 0 } base depth := ⟨h.target, h.window, rfl, h.inPacket, h.row⟩
  have hshown : r.shown.rollUp r.row depth = .rolled base depth ([] :: recent) := by
    rw [h.shown, h.row, Memory.rollUp_rolled]
  obtain ⟨r', he, hr'⟩ := echoes_line hr rfl hshown l hp
  refine ⟨r', .cons ?_ he, hr'⟩
  rw [hs, hreturn]
  rfl

private theorem echoes_lines {recent : List (List Char)}
    (h : r.HasTyped base depth (.rolled base depth recent)) (ls : List RolledLine)
    {ps : List BytePair}
    (hp : ps.map BytePair.code =
      ls.flatMap fun l ↦ .control .one .carriageReturn :: l.codes) :
    ∃ r', r.Echoes ps r' ∧
      r'.HasTyped base depth
        (.rolled base depth ((ls.map RolledLine.text).reverse ++ recent)) := by
  induction ls generalizing r ps recent with
  | nil =>
    obtain rfl := List.map_eq_nil_iff.mp hp
    exact ⟨r, rfl, h⟩
  | cons l ls ih =>
    obtain ⟨ps₁, ps₂, rfl, hl, hls⟩ := List.map_eq_append_iff.mp hp
    obtain ⟨r₁, he₁, h₁⟩ := echoes_next h l hl
    obtain ⟨r₂, he₂, h₂⟩ := ih h₁ hls
    refine ⟨r₂, he₁.append he₂, ?_⟩
    rw [List.map_cons, List.reverse_cons, List.append_assoc, List.singleton_append]
    exact h₂

private theorem echoes_opening (base : Row) (depth : Depth) {p q : BytePair}
    (hp : p.code = .control .one (.rollUp depth)) (hq : q.code = .preamble .one (some base) 0) :
    ∃ r', fresh.Echoes [p, q] r' ∧ r'.RollsUp base depth ∧ r'.column = 0 ∧
      r'.shown = .rolled base depth [[]] := by
  have hfresh : fresh.last.code ≠ .control .one (.rollUp depth) := by
    have hz : fresh.last.code = .padding := by decide
    rw [hz]
    intro he
    cases he
  have hs : fresh.step p =
      ({ fresh with last := p, target := some .shown, window := some depth }, .quiet) := by
    rw [step_of_code hp rfl rfl fun _ ↦ hfresh, act, obey]
    rfl
  have hne : p.code ≠ .preamble .one (some base) 0 := by
    rw [hp]
    intro he
    cases he
  have ht : ({ fresh with
      last := p
      target := some .shown
      window := some depth } : Receiver).step q =
        ({ fresh with
            last := q
            target := some .shown
            window := some depth
            row := base }, .quiet) := by
    rw [step_of_code hq rfl rfl fun _ ↦ hne, act]
    rfl
  have he : fresh.Echoes [p, q] { fresh with
      last := q
      target := some .shown
      window := some depth
      row := base } := by
    rw [Echoes, stepAll, hs, stepAll, ht, List.map_cons, List.map_cons, hp, hq]
    rfl
  exact ⟨_, he, ⟨rfl, rfl, rfl, rfl, rfl⟩, rfl, Memory.rolled_singleton_nil.symm⟩

/-- A screen that holds a window of lines reads as the last of them. -/
theorem text_of_hasTyped (u : RollUp)
    (h : r.HasTyped u.base u.depth
      (.rolled u.base u.depth (u.lines.map RolledLine.text).reverse)) :
    r.text = .ok u.text := by
  have hlength : ∀ line ∈ (u.lines.map RolledLine.text).reverse, line.length ≤ 32 := by
    intro line hl
    obtain ⟨l, -, rfl⟩ := List.mem_map.mp (List.mem_reverse.mp hl)
    exact l.fits
  have htrim : Text.trim ∘ RolledLine.text = RolledLine.trimmed :=
    funext fun l ↦ Charset.trim_eq_of_subset_basics l.isBasic
  have hlines : r.shown.lines = (u.remaining.map RolledLine.trimmed).filter (!·.isEmpty) := by
    rw [h.shown, Memory.lines_rolled hlength, List.take_reverse, List.reverse_reverse,
      List.length_map, ← List.map_drop, List.map_map, htrim, RollUp.remaining]
  rw [text, if_pos h.displayed, Memory.text, hlines, RollUp.text]

/-- Lines that roll up can be sent, and all pairs that say their codes bring them to the screen of
a receiver that has heard nothing: a caption is shown at each pair of characters and nothing is
reported at the others, and in the end the screen reads as the last lines. -/
theorem shows_last_lines (u : RollUp) :
    (∃ ps, BytePair.Say ps u.codes) ∧
      ∀ ps, BytePair.Say ps u.codes →
        ∃ r', fresh.receiveAll ps =
            .ok (r', u.codes.map fun c ↦ if c.isText then .shown else .quiet) ∧
          r'.text = .ok u.text := by
  refine ⟨Code.exists_say fun c hc ↦ RollUp.isSpelled_of_mem_codes hc, fun ps hps ↦ ?_⟩
  obtain ⟨first, rest, hlines⟩ := List.exists_cons_of_ne_nil u.nonempty
  have hcodes := hps.map_code_stripped
  rw [RollUp.codes, hlines, intercalate_map_cons] at hcodes
  obtain ⟨p, ps₁, hps₁, hp, hcodes₁⟩ := List.map_eq_cons_iff.mp hcodes
  obtain ⟨q, ps₂, rfl, hq, hcodes₂⟩ := List.map_eq_cons_iff.mp hcodes₁
  obtain ⟨ps₃, ps₄, rfl, hfirst, hrest⟩ := List.map_eq_append_iff.mp hcodes₂
  obtain ⟨r₁, he₁, hr₁, hcolumn, hshown⟩ := echoes_opening u.base u.depth hp hq
  obtain ⟨r₂, he₂, hr₂⟩ := echoes_line hr₁ hcolumn hshown first hfirst
  obtain ⟨r₃, he₃, hr₃⟩ := echoes_lines hr₂ rest hrest
  have he : fresh.Echoes (ps.map BytePair.stripped) r₃ := by
    rw [hps₁]
    exact he₁.append (he₂.append he₃)
  have hmoments : (ps.map BytePair.stripped).map (fun p ↦
      if p.code.isText then Moment.shown else .quiet) =
        u.codes.map fun c ↦ if c.isText then .shown else .quiet := by
    rw [← hps.map_code, List.map_map, List.map_map]
    rfl
  refine ⟨r₃, ?_, text_of_hasTyped u ?_⟩
  · rw [receiveAll_of_parityHolds hps.parity, he, hmoments]
  · rw [hlines, List.map_cons, List.reverse_cons]
    exact hr₃

/-- Of three lines that roll up in the second row only two find room on the screen, however deep
the window. -/
theorem shows_last_lines_below_top :
    let u : RollUp :=
      ⟨.four, 1,
        [⟨['O', 'N', 'E'], by decide, by decide, by decide +kernel⟩,
          ⟨[' ', 'T', 'W', 'O'], by decide, by decide, by decide +kernel⟩,
          ⟨['ñ'], by decide, by decide, by decide +kernel⟩], by decide⟩
    let ps : List BytePair :=
      [⟨0x94, 0xa7⟩, ⟨0x91, 0xe0⟩, ⟨0x4f, 0xce⟩, ⟨0x45, 0x80⟩, ⟨0x94, 0xad⟩, ⟨0x20, 0x54⟩,
        ⟨0x57, 0x4f⟩, ⟨0x94, 0xad⟩, ⟨0xfe, 0x80⟩]
    BytePair.Say ps u.codes ∧
      ∃ r', fresh.receiveAll ps =
          .ok (r', [.quiet, .quiet, .shown, .shown, .quiet, .shown, .shown, .quiet, .shown]) ∧
        r'.text = .ok "TWO\r\nñ" := by
  intro u ps
  have hps : BytePair.Say ps u.codes := ⟨by decide +kernel, by decide +kernel⟩
  have hmoments : (u.codes.map fun c ↦ if c.isText then Moment.shown else .quiet) =
      [.quiet, .quiet, .shown, .shown, .quiet, .shown, .shown, .quiet, .shown] := by
    decide +kernel
  have htext : u.text = "TWO\r\nñ" := by decide +kernel
  obtain ⟨r', hall, hread⟩ := (shows_last_lines u).2 ps hps
  exact ⟨hps, r', hmoments ▸ hall, htext ▸ hread⟩

end Receiver

end Line21
