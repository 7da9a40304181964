import Line21.Proofs.Receiver.Gates
import Line21.Proofs.Receiver.Writing

/-!
# Loading a layout

A layout is loaded behind the caption that is shown: characters are directed to the hidden
memory, and each text is sent after a preamble that moves the cursor near to it and a tab
that moves it on. Loading is quiet. It ends with the memory of the layout, provided that the
hidden memory was empty and that no code was taken for a copy of the one before it.
-/

namespace Line21

/-- The column rounded down to one that a preamble can name. -/
def Column.indent (c : Column) : Column := ⟨4 * (c.val / 4), by omega⟩

private theorem Column.advance_indent (c : Column) : c.indent.advance (c.val % 4) = c := by
  have hv : c.indent.val = 4 * (c.val / 4) := rfl
  apply Fin.ext
  rw [val_advance, hv]
  omega

/-- Characters two by two, the last one alone if their number is odd. -/
def pairUp {α : Type} : List α → List (List α)
  | [] => []
  | [x] => [[x]]
  | x :: y :: rest => [x, y] :: pairUp rest

/-- Pairing up loses nothing. -/
theorem flatten_pairUp {α : Type} (xs : List α) : (pairUp xs).flatten = xs := by
  fun_induction pairUp xs with
  | case1 => rfl
  | case2 x => rfl
  | case3 x y rest ih => rw [List.flatten_cons, ih]; rfl

/-- Pairing up leaves something of anything. -/
theorem pairUp_ne_nil {α : Type} {xs : List α} (h : xs ≠ []) : pairUp xs ≠ [] := by
  intro he
  have hf := flatten_pairUp xs
  rw [he] at hf
  exact h hf.symm

/-! ### What is sent -/

namespace Placed

/-- The codes that load a text: a preamble, a tab unless the indent is exact, and the
characters two by two. -/
def codes (p : Placed) : List Code :=
  .preamble .one (some p.row) p.column.indent ::
    ((if p.column.val % 4 = 0 then [] else [.tab .one (p.column.val % 4)]) ++
      (pairUp p.text).map .basic)

end Placed

namespace Layout

/-- The codes that load a layout. -/
def codes (l : Layout) : List Code :=
  .control .one .resumeLoading :: l.placed.flatMap Placed.codes

end Layout

namespace Receiver

/-- A code outside of packets that is not repeated is remembered and acted upon. -/
theorem step_of_code {r : Receiver} {p : BytePair} {c : Code} (hp : p.code = c)
    (hc : c.isHeard = true) (hr : r.inPacket = false)
    (hl : c.isDoubled = true → r.last.code ≠ c) :
    r.step p = ({ r with last := p } : Receiver).act c := by
  have ha : r.Admits p := by
    refine ⟨hp ▸ hc, fun hi ↦ ?_⟩
    rw [hr] at hi
    cases hi
  have hd : ¬ r.Drops p := by
    intro hd
    refine hl (hp ▸ hd.2.1) ?_
    rw [← hd.2.2, hp]
  rw [step_of_admits ha hd, hp, ← hr]

/-! ### Loading -/

/-- Characters go to the hidden memory. -/
structure Writes (r : Receiver) : Prop where
  target : r.target = some .hidden
  channel : r.channel = .one
  inPacket : r.inPacket = false

/-- A receiver has loaded a memory and can load more. Of the codes that count once in a copy
only the order to load may have come last. -/
structure Loads (r : Receiver) (m : Memory) : Prop extends r.Writes where
  hidden : r.hidden = m
  last : r.last.code.isDoubled = true → r.last.code = .control .one .resumeLoading

/-- While a memory is loaded, any other code counts. -/
theorem Loads.code_last_ne {r : Receiver} {m : Memory} (h : r.Loads m) {c : Code}
    (hd : c.isDoubled = true) (hc : c ≠ .control .one .resumeLoading) : r.last.code ≠ c := by
  intro he
  rw [← he] at hd hc
  exact hc (h.last hd)

private theorem step_basic {r : Receiver} (h : r.Writes) {p : BytePair} {chars : List Char}
    (hp : p.code = .basic chars) :
    r.step p =
      ({ r with
          last := p
          hidden := r.hidden.typed r.row r.column chars
          column := r.column.advance chars.length }, .quiet) := by
  have ht : ({ r with last := p } : Receiver).target = some .hidden := h.target
  rw [step_of_code hp rfl h.inPacket nofun, act, if_pos h.channel, write_of_hidden ht]

private theorem absorbs_basic {r : Receiver} (h : r.Writes) {ps : List BytePair}
    {chars : List (List Char)} (hp : ps.map BytePair.code = chars.map .basic)
    (hl : r.last.code.isDoubled = true → chars ≠ []) :
    ∃ r', r.Absorbs ps r' ∧ r'.Loads (r.hidden.typed r.row r.column chars.flatten) := by
  induction chars generalizing r ps with
  | nil =>
    obtain rfl := List.map_eq_nil_iff.mp hp
    exact ⟨r, .nil r, h, rfl, fun hd ↦ absurd rfl (hl hd)⟩
  | cons xs chars ih =>
    obtain ⟨p, ps, rfl, hx, hp⟩ := List.map_eq_cons_iff.mp hp
    have hw : Writes { r with
        last := p
        hidden := r.hidden.typed r.row r.column xs
        column := r.column.advance xs.length } := ⟨h.target, h.channel, h.inPacket⟩
    have hd : p.code.isDoubled = false := by rw [hx]; rfl
    obtain ⟨r', hr, hr'⟩ := ih hw hp fun ht ↦ absurd ht (by rw [hd]; nofun)
    refine ⟨r', .cons (step_basic h hx) hr, ?_⟩
    rw [List.flatten_cons, Memory.typed_append]
    exact hr'

private theorem absorbs_tab {r : Receiver} (h : r.Writes) {row : Option Row} {column : Column}
    (hl : r.last.code = .preamble .one row column) (columns : Nat) {ps : List BytePair}
    (hp : ps.map BytePair.code = if columns = 0 then [] else [.tab .one columns]) :
    ∃ r', r.Absorbs ps r' ∧ r'.Writes ∧ r'.hidden = r.hidden ∧ r'.row = r.row ∧
      r'.column = r.column.advance columns := by
  by_cases hc : columns = 0
  · rw [if_pos hc] at hp
    obtain rfl := List.map_eq_nil_iff.mp hp
    refine ⟨r, .nil r, h, rfl, rfl, ?_⟩
    rw [hc, Column.advance_zero]
  · rw [if_neg hc] at hp
    obtain ⟨p, ps, rfl, ht, hp⟩ := List.map_eq_cons_iff.mp hp
    obtain rfl := List.map_eq_nil_iff.mp hp
    have hne : r.last.code ≠ .tab .one columns := by
      rw [hl]
      nofun
    have hs : r.step p =
        ({ r with last := p, column := r.column.advance columns }, .quiet) := by
      rw [step_of_code ht rfl h.inPacket fun _ ↦ hne, act, if_pos ⟨rfl, h.channel⟩]
    exact ⟨_, .cons hs (.nil _), ⟨h.target, h.channel, h.inPacket⟩, rfl, rfl, rfl⟩

private theorem absorbs_placed {r : Receiver} {m : Memory} (h : r.Loads m) (t : Placed)
    {ps : List BytePair} (hp : ps.map BytePair.code = t.codes) :
    ∃ r', r.Absorbs ps r' ∧ r'.Loads (t.on m) := by
  obtain ⟨p, rest, rfl, hpre, hrest⟩ := List.map_eq_cons_iff.mp hp
  obtain ⟨tabs, texts, rfl, htab, htext⟩ := List.map_eq_append_iff.mp hrest
  have hne := h.code_last_ne (c := .preamble .one (some t.row) t.column.indent) rfl nofun
  have hs : r.step p =
      ({ r with last := p, channel := .one, row := t.row, column := t.column.indent }, .quiet) := by
    rw [step_of_code hpre rfl h.inPacket fun _ ↦ hne, act]
  obtain ⟨r₁, hr₁, hw, hhid, hrow, hcol⟩ := absorbs_tab
    (r := { r with last := p, channel := .one, row := t.row, column := t.column.indent })
    ⟨h.target, rfl, h.inPacket⟩ hpre _ htab
  obtain ⟨r₂, hr₂, hm⟩ := absorbs_basic hw htext fun _ ↦ pairUp_ne_nil t.nonempty
  refine ⟨r₂, .cons hs (hr₁.append hr₂), ?_⟩
  rw [hhid, hrow, hcol, flatten_pairUp, Column.advance_indent] at hm
  exact h.hidden ▸ hm

/-- Texts that are sent are loaded one after the other. -/
theorem absorbs_flatMap_codes {r : Receiver} {m : Memory} (h : r.Loads m) (ts : List Placed)
    {ps : List BytePair} (hp : ps.map BytePair.code = ts.flatMap Placed.codes) :
    ∃ r', r.Absorbs ps r' ∧ r'.Loads (ts.foldl Placed.on m) := by
  induction ts generalizing r m ps with
  | nil =>
    obtain rfl := List.map_eq_nil_iff.mp hp
    exact ⟨r, .nil r, h⟩
  | cons t ts ih =>
    obtain ⟨ps₁, ps₂, rfl, ht, hts⟩ := List.map_eq_append_iff.mp hp
    obtain ⟨r₁, hr₁, h₁⟩ := absorbs_placed h t ht
    obtain ⟨r₂, hr₂, h₂⟩ := ih h₁ hts
    exact ⟨r₂, hr₁.append hr₂, h₂⟩

/-! ### Captions -/

/-- A receiver is ready for the next layout: the hidden memory is empty, and an order to load
would count. -/
structure Rests (r : Receiver) : Prop where
  hidden : r.hidden = .empty
  inPacket : r.inPacket = false
  last : r.last.code ≠ .control .one .resumeLoading

/-- A receiver that has heard nothing is ready. -/
theorem rests_fresh : fresh.Rests where
  hidden := rfl
  inPacket := rfl
  last := by decide

/-- A layout that is sent is loaded alone. -/
theorem absorbs_layout {r : Receiver} (h : r.Rests) (l : Layout) {ps : List BytePair}
    (hp : ps.map BytePair.code = l.codes) : ∃ r', r.Absorbs ps r' ∧ r'.Loads l.memory := by
  obtain ⟨p, ps, rfl, hload, hps⟩ := List.map_eq_cons_iff.mp hp
  have hs : r.step p =
      ({ r with last := p, channel := .one, target := some .hidden, window := none }, .quiet) := by
    rw [step_of_code hload rfl h.inPacket fun _ ↦ h.last, act, obey]
  have hl : Loads { r with
      last := p
      channel := .one
      target := some .hidden
      window := none } .empty := ⟨⟨rfl, rfl, h.inPacket⟩, h.hidden, fun _ ↦ hload⟩
  obtain ⟨r', hr, hm⟩ := absorbs_flatMap_codes hl l.placed hps
  exact ⟨r', .cons hs hr, hm⟩

/-- At its end a caption that was loaded comes to be read, and the receiver is ready again. -/
theorem step_endCaption {r : Receiver} {m : Memory} (h : r.Loads m) {p : BytePair}
    (hp : p.code = .control .one .endCaption) :
    ∃ r', r.step p = (r', .shown) ∧ r'.text = .ok m.text ∧ r'.Rests ∧ r'.last = p := by
  have hne := h.code_last_ne (c := .control .one .endCaption) rfl nofun
  have hs : r.step p =
      ({ r with
          last := p
          channel := .one
          shown := r.hidden
          hidden := .empty
          displayed := true }, .shown) := by
    rw [step_of_code hp rfl h.inPacket fun _ ↦ hne, act, obey]
  refine ⟨_, hs, ?_, ⟨rfl, h.inPacket, ?_⟩, rfl⟩
  · rw [text, if_pos rfl, h.hidden]
  · dsimp only
    rw [hp]
    nofun

/-- A receiver that is ready stays so when the screen is erased. -/
theorem step_eraseShown {r : Receiver} (h : r.Rests)
    (hl : r.last.code ≠ .control .one .eraseShown) {p : BytePair}
    (hp : p.code = .control .one .eraseShown) :
    ∃ r', r.step p = (r', .cleared) ∧ r'.Rests := by
  have hs : r.step p =
      ({ r with last := p, channel := .one, shown := .empty }, .cleared) := by
    rw [step_of_code hp rfl h.inPacket fun _ ↦ hl, act, obey]
  refine ⟨_, hs, h.hidden, h.inPacket, ?_⟩
  dsimp only
  rw [hp]
  nofun

end Receiver

end Line21
