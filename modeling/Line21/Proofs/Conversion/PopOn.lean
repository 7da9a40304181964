import Line21.Proofs.Code.Spelling
import Line21.Proofs.Conversion.Turns
import Mathlib.Data.List.Forall2
import Mathlib.Data.List.Permutation

/-!
# Pop-on captions from end to end

A pop-on caption is loaded behind the caption on the screen, comes up at a time, and may be
erased later. However its codes are spelled as pairs, and whenever the pairs that load it are
sent, a conversion writes each caption once, with the text of its layout, from its start to
the time at which it is erased or the next one comes up.
-/

namespace Line21

/-- Something to be sent, at a time if the time matters. -/
structure Prompt where
  code : Code
  time : Option Int
  deriving DecidableEq, Repr

/-- A pair on the air says what a prompt asks for, and does so in time. -/
structure Aired.Follows (a : Aired) (p : Prompt) : Prop where
  code : a.heard.code = p.code
  time : p.time = none ∨ p.time = some a.time
  inRange : TimeInRange a.time

instance (a : Aired) (p : Prompt) : Decidable (a.Follows p) :=
  decidable_of_iff
    (a.heard.code = p.code ∧ (p.time = none ∨ p.time = some a.time) ∧ TimeInRange a.time)
    ⟨fun h ↦ ⟨h.1, h.2.1, h.2.2⟩, fun h ↦ ⟨h.code, h.time, h.inRange⟩⟩

/-- A prompt that fixes a time is followed at that time. -/
theorem Aired.Follows.time_eq {a : Aired} {code : Code} {time : Int}
    (h : a.Follows ⟨code, some time⟩) : a.time = time := by
  rcases h.time with ht | ht
  · cases ht
  · exact (Option.some.inj ht).symm

/-- A pop-on caption with the times at which it comes up and is erased. -/
structure Caption where
  layout : Layout
  start : Int
  /-- When the screen is erased, unless the caption stays. -/
  erased : Option Int
  deriving DecidableEq

namespace Caption

/-- What is sent of a caption: its layout at any time, and then its end and its erasure. -/
def script (c : Caption) : List Prompt :=
  c.layout.codes.map (⟨·, none⟩) ++
    ⟨.control .one .endCaption, some c.start⟩ ::
      (c.erased.map fun time ↦ ⟨.control .one .eraseShown, some time⟩).toList

/-- The times that a caption fixes. -/
def times (c : Caption) : List Int := c.start :: c.erased.toList

/-- When a caption leaves the screen: when it is erased, or else when the next one comes up.
The last one, if it is not erased, leaves as it comes. -/
def finish (c : Caption) (next : List Caption) : Int :=
  c.erased.getD ((next.head?.map start).getD c.start)

/-- The units of text without markup that captions in a row make. -/
def texts : List Caption → List TextUnit
  | [] => []
  | c :: next => ⟨c.layout.text, c.start, some (c.finish next - c.start)⟩ :: texts next

/-- The turns that a caption makes. -/
def turns (f : Format) (c : Caption) : List Turn :=
  .shown f c.start c.layout.text :: (c.erased.map .cleared).toList

/-- The showings that captions in a row make. -/
def showings (f : Format) : List Caption → List Showing
  | [] => []
  | c :: next =>
    ⟨f, c.start, durationBetween c.start (c.finish next), c.layout.text⟩ :: showings f next

end Caption

/-! ### Captions can be sent -/

/-- Prompts can be followed if their codes are spelled by pairs and their times are in range. -/
theorem exists_follows {prompts : List Prompt} (hc : ∀ p ∈ prompts, p.code.IsSpelled)
    (ht : ∀ p ∈ prompts, ∀ time, p.time = some time → TimeInRange time) :
    ∃ airings : List Aired, List.Forall₂ Aired.Follows airings prompts := by
  induction prompts with
  | nil => exact ⟨[], .nil⟩
  | cons p prompts ih =>
    rw [List.forall_mem_cons] at hc ht
    obtain ⟨airings, h⟩ := ih hc.2 ht.2
    obtain ⟨pair, hp⟩ := hc.1
    cases hpt : p.time with
    | none =>
      have hz : TimeInRange 0 := by decide +kernel
      exact ⟨⟨pair, 0⟩ :: airings, .cons ⟨hp, .inl hpt, hz⟩ h⟩
    | some time => exact ⟨⟨pair, time⟩ :: airings, .cons ⟨hp, .inr hpt, ht.1 time hpt⟩ h⟩

/-- What is sent of a caption is spelled by pairs, at times that the caption fixes if at all. -/
theorem Caption.isSpelled_of_mem_script {c : Caption} {p : Prompt} (h : p ∈ c.script) :
    p.code.IsSpelled ∧ ∀ time, p.time = some time → time ∈ c.times := by
  rw [script, List.mem_append, List.mem_cons] at h
  rcases h with h | rfl | h
  · obtain ⟨code, hc, rfl⟩ := List.mem_map.mp h
    exact ⟨Code.isSpelled_of_mem_codes c.layout hc, nofun⟩
  · refine ⟨Code.isSpelled_control .endCaption, fun time ht ↦ ?_⟩
    obtain rfl := Option.some.inj ht
    exact List.mem_cons_self
  · rw [Option.mem_toList, Option.map_eq_some_iff] at h
    obtain ⟨erased, he, rfl⟩ := h
    refine ⟨Code.isSpelled_control .eraseShown, fun time ht ↦ ?_⟩
    obtain rfl := Option.some.inj ht
    rw [times, he]
    exact List.mem_cons_of_mem _ (List.mem_singleton_self _)

/-- Any captions whose times are in range can be sent. -/
theorem Caption.exists_airings {captions : List Caption}
    (h : ∀ c ∈ captions, ∀ time ∈ c.times, TimeInRange time) :
    ∃ airings : List Aired, List.Forall₂ Aired.Follows airings (captions.flatMap script) := by
  apply exists_follows
  · intro p hp
    obtain ⟨c, -, hp⟩ := List.mem_flatMap.mp hp
    exact (isSpelled_of_mem_script hp).1
  · intro p hp time ht
    obtain ⟨c, hc, hp⟩ := List.mem_flatMap.mp hp
    exact h c hc time ((isSpelled_of_mem_script hp).2 time ht)

/-! ### The turns of captions -/

section Turns

variable {σ : Type} [Downstream σ]

private theorem forall₂_append {α β : Type} {R : α → β → Prop} {as : List α} {bs cs : List β}
    (h : List.Forall₂ R as (bs ++ cs)) :
    ∃ as₁ as₂, as = as₁ ++ as₂ ∧ List.Forall₂ R as₁ bs ∧ List.Forall₂ R as₂ cs :=
  ⟨as.take bs.length, as.drop bs.length, (List.take_append_drop _ _).symm,
    List.forall₂_take_append as bs cs h, List.forall₂_drop_append as bs cs h⟩

private theorem Aired.map_code_of_follows {airings : List Aired} {codes : List Code}
    (h : List.Forall₂ Follows airings (codes.map (⟨·, none⟩))) :
    (airings.map heard).map BytePair.code = codes ∧ ∀ a ∈ airings, TimeInRange a.time := by
  induction codes generalizing airings with
  | nil =>
    obtain rfl := List.forall₂_nil_right_iff.mp h
    exact ⟨rfl, nofun⟩
  | cons c codes ih =>
    obtain ⟨a, airings, ha, hrest, rfl⟩ := List.forall₂_cons_right_iff.mp h
    obtain ⟨hc, hr⟩ := ih hrest
    refine ⟨?_, List.forall_mem_cons.mpr ⟨ha.inRange, hr⟩⟩
    rw [List.map_cons, List.map_cons, hc, ha.code]

private theorem Link.takes_endCaption (hc : Downstream.Calm σ) {l : Link Receiver σ} {f : Format}
    {r : Receiver} {m : Memory} (hl : l.Stands f r) (hr : r.Loads m) {a : Aired} {time : Int}
    (ha : a.Follows ⟨.control .one .endCaption, some time⟩) :
    ∃ l' r', l.Takes [a.unit] [.shown f time m.text] l' ∧ l'.Stands f r' ∧ r'.Rests ∧
      r'.last.code = .control .one .endCaption := by
  obtain ⟨r', hs, htext, hrests, hlast⟩ := Receiver.step_endCaption hr ha.code
  obtain ⟨l', ht, hl'⟩ := Link.takes_aired hc hl ha.inRange
  have hturn : Stream.turnOf f a.time r' (.ok .shown) = some (.shown f time m.text) := by
    change r'.text.toOption.map (Turn.shown f a.time) = _
    rw [htext, ha.time_eq]
    rfl
  rw [hs, hturn] at ht
  rw [hs] at hl'
  exact ⟨l', r', ht, hl', hrests, hlast ▸ ha.code⟩

private theorem Link.takes_eraseShown (hc : Downstream.Calm σ) {l : Link Receiver σ} {f : Format}
    {r : Receiver} (hl : l.Stands f r) (hr : r.Rests)
    (hlast : r.last.code ≠ .control .one .eraseShown) {a : Aired} {time : Int}
    (ha : a.Follows ⟨.control .one .eraseShown, some time⟩) :
    ∃ l' r', l.Takes [a.unit] [.cleared time] l' ∧ l'.Stands f r' ∧ r'.Rests := by
  obtain ⟨r', hs, hrests⟩ := Receiver.step_eraseShown hr hlast ha.code
  obtain ⟨l', ht, hl'⟩ := Link.takes_aired hc hl ha.inRange
  rw [hs, ha.time_eq] at ht
  rw [hs] at hl'
  exact ⟨l', r', ht, hl', hrests⟩

private theorem Link.takes_caption (hc : Downstream.Calm σ) {l : Link Receiver σ} {f : Format}
    {r : Receiver} (hl : l.Stands f r) (hr : r.Rests) (c : Caption) {airings : List Aired}
    (h : List.Forall₂ Aired.Follows airings c.script) :
    ∃ l' r', l.Takes (airings.map Aired.unit) (c.turns f) l' ∧ l'.Stands f r' ∧ r'.Rests := by
  obtain ⟨loading, rest, rfl, hload, hrest⟩ := forall₂_append h
  obtain ⟨a, erasing, ha, herase, rfl⟩ := List.forall₂_cons_right_iff.mp hrest
  obtain ⟨hcodes, hrange⟩ := Aired.map_code_of_follows hload
  obtain ⟨r₁, habs, hloads⟩ := Receiver.absorbs_layout hr c.layout hcodes
  obtain ⟨l₁, ht₁, hl₁⟩ := takes_of_absorbs hc hl hrange habs
  obtain ⟨l₂, r₂, ht₂, hl₂, hr₂, hlast⟩ := takes_endCaption hc hl₁ hloads ha
  rw [c.layout.text_memory] at ht₂
  rw [List.map_append, Caption.turns]
  cases he : c.erased with
  | none =>
    rw [he] at herase
    obtain rfl := List.forall₂_nil_right_iff.mp herase
    exact ⟨l₂, r₂, ht₁.append ht₂, hl₂, hr₂⟩
  | some time =>
    rw [he] at herase
    obtain ⟨b, none, hb, hnone, rfl⟩ := List.forall₂_cons_right_iff.mp herase
    obtain rfl := List.forall₂_nil_right_iff.mp hnone
    have hne : r₂.last.code ≠ .control .one .eraseShown := by
      rw [hlast]
      nofun
    obtain ⟨l₃, r₃, ht₃, hl₃, hr₃⟩ := takes_eraseShown hc hl₂ hr₂ hne hb
    exact ⟨l₃, r₃, ht₁.append (ht₂.append ht₃), hl₃, hr₃⟩

private theorem Link.takes_captions (hc : Downstream.Calm σ) {l : Link Receiver σ} {f : Format}
    {r : Receiver} (hl : l.Stands f r) (hr : r.Rests) (captions : List Caption)
    {airings : List Aired}
    (h : List.Forall₂ Aired.Follows airings (captions.flatMap Caption.script)) :
    ∃ l', l.Takes (airings.map Aired.unit) (captions.flatMap (Caption.turns f)) l' := by
  induction captions generalizing l r airings with
  | nil =>
    obtain rfl := List.forall₂_nil_right_iff.mp h
    exact ⟨l, .nil l⟩
  | cons c captions ih =>
    obtain ⟨first, rest, rfl, hfirst, hrest⟩ := forall₂_append h
    obtain ⟨l₁, r₁, ht₁, hl₁, hr₁⟩ := takes_caption hc hl hr c hfirst
    obtain ⟨l₂, ht₂⟩ := ih hl₁ hr₁ hrest
    rw [List.map_append, List.flatMap_cons]
    exact ⟨l₂, ht₁.append ht₂⟩

end Turns

/-! ### What captions write -/

namespace Caption

private theorem showings_flatMap_turns (f : Format) (captions : List Caption) :
    Timeline.showings (captions.flatMap (turns f) ++ [.finished]) = showings f captions := by
  induction captions with
  | nil => rfl
  | cons c captions ih =>
    rw [List.flatMap_cons, turns, List.append_assoc, List.cons_append, showings, finish]
    cases c.erased with
    | some time =>
      change Timeline.showings (.shown f c.start c.layout.text :: .cleared time ::
        (captions.flatMap (turns f) ++ [.finished])) = _
      rw [Timeline.showings_shown_cons rfl, Timeline.showings_cons_of_ne_shown fun _ ↦ rfl, ih]
      rfl
    | none =>
      cases captions with
      | nil =>
        change Timeline.showings [.shown f c.start c.layout.text, .finished] =
          [⟨f, c.start, durationBetween c.start c.start, c.layout.text⟩]
        rw [Timeline.showings_shown_cons rfl, durationBetween_self]
        rfl
      | cons d captions =>
        rw [List.flatMap_cons, turns, List.cons_append, List.cons_append] at ih
        change Timeline.showings (.shown f c.start c.layout.text ::
          .shown f d.start d.layout.text :: _) = _
        rw [Timeline.showings_shown_cons rfl]
        exact congrArg _ ih

private theorem start_le_finish {c : Caption} {captions : List Caption}
    (h : ((c :: captions).flatMap times).Pairwise (· ≤ ·)) : c.start ≤ c.finish captions := by
  rw [List.flatMap_cons, times, List.cons_append, List.pairwise_cons] at h
  rw [finish]
  cases he : c.erased with
  | some time =>
    apply h.1
    rw [he]
    exact List.mem_append_left _ (List.mem_singleton_self time)
  | none =>
    cases captions with
    | nil => exact Int.le_refl _
    | cons d captions =>
      apply h.1
      rw [List.flatMap_cons, times]
      exact List.mem_append_right _ List.mem_cons_self

private theorem written_showings (captions : List Caption) (before : Nat)
    (h : (captions.flatMap times).Pairwise (· ≤ ·)) :
    Timeline.written before (showings .plain captions) = texts captions := by
  induction captions generalizing before with
  | nil => rfl
  | cons c captions ih =>
    have hle := start_le_finish h
    have hd : durationBetween c.start (c.finish captions) = c.finish captions - c.start := by
      simp only [durationBetween]
      omega
    rw [List.flatMap_cons, List.pairwise_append] at h
    rw [showings, texts, ← ih (before + 1) h.2.1, hd]
    cases before <;> rfl

end Caption

/-- A conversion of captions that are sent in a row writes their showings, in any format. -/
theorem Conversion.units_of_follows (f : Format) {captions : List Caption}
    {airings : List Aired}
    (h : List.Forall₂ Aired.Follows airings (captions.flatMap Caption.script)) :
    units f (airings.map Aired.unit) =
      .ok (Timeline.written 0 (Caption.showings f captions)) := by
  obtain ⟨l, ht⟩ := Link.takes_captions Collector.calm (Link.stands_opened f)
    Receiver.rests_fresh captions h
  have hn : .restarted ∉ captions.flatMap (Caption.turns f) ++ [.finished] := by
    simp [Caption.turns]
  rw [units_of_takes ht, Timeline.units, Timeline.lives_of_not_mem hn, List.flatMap_singleton,
    Caption.showings_flatMap_turns]

/-- Captions that are sent in a row, each no later than the next, come out of a conversion to
plain text one by one: with the text of the layout, from the start to the erasure or to the
start of the next caption, and with no duration for a last one that is not erased. -/
theorem Conversion.units_plain_of_follows {captions : List Caption} {airings : List Aired}
    (h : List.Forall₂ Aired.Follows airings (captions.flatMap Caption.script))
    (ht : (captions.flatMap Caption.times).Pairwise (· ≤ ·)) :
    units .plain (airings.map Aired.unit) = .ok (Caption.texts captions) := by
  rw [units_of_follows .plain h, Caption.written_showings captions 0 ht]

/-- A caption of two rows that are loaded from the bottom, and one in the last column that
comes up as the first is erased. -/
theorem Conversion.units_plain_of_follows_twice :
    let captions : List Caption :=
      [⟨⟨[⟨14, 5, ['L', 'O', ' '], by decide, by decide, by decide +kernel⟩,
          ⟨2, 0, ['H', 'E', 'L'], by decide, by decide, by decide +kernel⟩], by decide⟩,
          1000000000, some 2000000000⟩,
        ⟨⟨[⟨0, 31, ['é'], by decide, by decide, by decide +kernel⟩], by decide⟩,
          2000000000, none⟩]
    let airings : List Aired :=
      [⟨⟨0x14, 0x20⟩, 0⟩, ⟨⟨0x14, 0x72⟩, 0⟩, ⟨⟨0x17, 0x21⟩, 0⟩, ⟨⟨0x4c, 0x4f⟩, 5⟩,
        ⟨⟨0x20, 0⟩, 5⟩, ⟨⟨0x12, 0x50⟩, 7⟩, ⟨⟨0x48, 0x45⟩, -7⟩, ⟨⟨0x4c, 0⟩, 9⟩,
        ⟨⟨0x14, 0x2f⟩, 1000000000⟩, ⟨⟨0x14, 0x2c⟩, 2000000000⟩,
        ⟨⟨0x14, 0x20⟩, 3⟩, ⟨⟨0x11, 0x5e⟩, 3⟩, ⟨⟨0x17, 0x23⟩, 3⟩, ⟨⟨0x5c, 0⟩, 3⟩,
        ⟨⟨0x14, 0x2f⟩, 2000000000⟩]
    List.Forall₂ Aired.Follows airings (captions.flatMap Caption.script) ∧
      (captions.flatMap Caption.times).Pairwise (· ≤ ·) ∧
      units .plain (airings.map Aired.unit) =
        .ok [⟨"HEL\r\nLO", 1000000000, some 1000000000⟩, ⟨"é", 2000000000, some 0⟩] := by
  intro captions airings
  have h : List.Forall₂ Aired.Follows airings (captions.flatMap Caption.script) := by
    decide +kernel
  have ht : (captions.flatMap Caption.times).Pairwise (· ≤ ·) := by decide
  have hw : Caption.texts captions =
      [⟨"HEL\r\nLO", 1000000000, some 1000000000⟩, ⟨"é", 2000000000, some 0⟩] := by
    cbv
  refine ⟨h, ht, ?_⟩
  rw [units_plain_of_follows h ht, hw]

end Line21
