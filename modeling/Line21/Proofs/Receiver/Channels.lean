import Line21.Proofs.Receiver.Reached

/-!
# The two channels

The codes of the two channels differ in a bit of the first byte, which only some codes are asked
for. Channel two, once it is selected, shuts the screen until a code selects channel one. A code of
channel two does nothing else, with one exception: a special or extended character is written while
channel one is selected, whichever channel it is for.
-/

namespace Line21

/-- Codes that a pair of channel two can say: those for that channel, and those that do not tell
which channel they are for. Basic characters have no bit for the channel. -/
def Code.fitsTwo : Code → Bool
  | .control channel _ | .tab channel _ | .preamble channel _ _ | .midRow channel =>
    channel == .two
  | .basic _ => false
  | _ => true

namespace BytePair

/-- The first byte is one of a code for channel two. -/
def isForTwo (p : BytePair) : Bool := 0x18 ≤ p.first && p.first ≤ 0x1f

private theorem channel_of_isForTwo {p : BytePair} (h : p.isForTwo = true) :
    p.channel = .two ∧ p.isBasic = false := by
  have hb : ∀ n : Fin 8, let b := UInt8.ofNat (n.val + 0x18)
      b &&& 0x08 ≠ 0 ∧ ¬ 0x20 ≤ b := by
    decide +kernel
  rw [isForTwo, Bool.and_eq_true, decide_eq_true_eq, decide_eq_true_eq, UInt8.le_iff_toNat_le,
    UInt8.le_iff_toNat_le] at h
  change 24 ≤ p.first.toNat ∧ p.first.toNat ≤ 31 at h
  have hn := hb ⟨p.first.toNat - 0x18, by omega⟩
  dsimp only at hn
  rw [Nat.sub_add_cancel h.1, UInt8.ofNat_toNat] at hn
  exact ⟨if_neg hn.1, decide_eq_false hn.2⟩

private theorem fitsTwo_code {p : BytePair} (h : p.isForTwo = true) : p.code.fitsTwo = true := by
  obtain ⟨hchannel, hbasic⟩ := channel_of_isForTwo h
  have hif {c : Prop} [Decidable c] {a b : Code} (ha : a.fitsTwo = true) (hb : b.fitsTwo = true) :
      (if c then a else b).fitsTwo = true := by
    split
    · exact ha
    · exact hb
  rw [code, hchannel, hbasic, if_neg Bool.false_ne_true]
  exact hif rfl (hif rfl (hif rfl (hif rfl (hif rfl (hif rfl (hif rfl (hif rfl rfl)))))))

end BytePair

namespace Receiver

variable {r : Receiver}

/-! ### While channel two is selected -/

private theorem act_of_channel_two (h : r.channel = .two) {c : Code} (hc : c.selects? ≠ some .one) :
    r.act c = (r, .quiet) := by
  have hr : ({ r with channel := .two } : Receiver) = r := by rw [← h]
  have hone : r.channel ≠ .one := by
    rw [h]
    nofun
  cases c with
  | control channel command =>
    cases channel with
    | one => exact absurd rfl hc
    | two => exact congrArg (·, Moment.quiet) hr
  | tab channel columns => exact if_neg fun hi ↦ hone hi.2
  | preamble channel row column =>
    cases channel with
    | one => exact absurd rfl hc
    | two => exact congrArg (·, Moment.quiet) hr
  | midRow channel =>
    cases channel with
    | one => exact absurd rfl hc
    | two => exact congrArg (·, Moment.quiet) hr
  | special x | extended x | basic chars => exact if_neg hone
  | padding | packet _ | unknown => rfl

private theorem step_of_channel_two (h : r.channel = .two) {p : BytePair}
    (hp : p.code.selects? ≠ some .one) :
    ∃ last inPacket, r.step p = ({ r with last, inPacket }, .quiet) := by
  rcases r.step_cases p with ⟨-, hs⟩ | ⟨-, hs⟩
  · exact hs
  · rw [hs, act_of_channel_two (r := { r with inPacket := false, last := p }) h hp]
    exact ⟨_, _, rfl⟩

private theorem absorbs_of_channel_two (h : r.channel = .two) {ps : List BytePair}
    (hps : ∀ p ∈ ps, p.code.selects? ≠ some .one) :
    ∃ last inPacket, r.Absorbs ps { r with last, inPacket } := by
  induction ps generalizing r with
  | nil => exact ⟨r.last, r.inPacket, .nil r⟩
  | cons p ps ih =>
    rw [List.forall_mem_cons] at hps
    obtain ⟨last, inPacket, hs⟩ := step_of_channel_two h hps.1
    obtain ⟨last', inPacket', hr⟩ := ih (r := { r with last, inPacket }) h hps.2
    exact ⟨last', inPacket', .cons hs hr⟩

private theorem step_selecting_two (h : r.Reachable) {p : BytePair} (hi : p.code.interrupts = true)
    (hs : p.code.selects? = some .two) :
    ∃ last inPacket, r.step p = ({ r with channel := .two, last, inPacket }, .quiet) := by
  have ha : r.Admits p := admits_of_interrupts hi
  by_cases hd : r.Drops p
  · have hc : r.channel = .two := h.heeds.channel .two (hd.2.2 ▸ hs)
    rw [step_of_drops hd, ← hc]
    exact ⟨_, _, rfl⟩
  · rw [step_of_admits ha hd]
    cases hc : p.code with
    | control channel command =>
      rw [hc] at hs
      obtain rfl := Option.some.inj hs
      exact ⟨_, _, rfl⟩
    | preamble channel row column =>
      rw [hc] at hs
      obtain rfl := Option.some.inj hs
      exact ⟨_, _, rfl⟩
    | _ =>
      rw [hc] at hi
      cases hi

/-- From a command or preamble of channel two on, until a code selects channel one, nothing
reaches the screen: every pair is heard quietly, and of the receiver only the channel, the last
pair and the place inside or outside of a packet may change. -/
theorem channel_two_shuts_screen (h : r.Reachable) {p : BytePair} {ps : List BytePair}
    (hparity : ∀ q ∈ p :: ps, q.parityHolds = true)
    (hp : (∃ command, p.stripped.code = .control .two command) ∨
      ∃ row column, p.stripped.code = .preamble .two row column)
    (hps : ∀ q ∈ ps, q.stripped.code.selects? ≠ some .one) :
    ∃ last inPacket, r.receiveAll (p :: ps) =
      .ok ({ r with channel := .two, last, inPacket },
        List.replicate (ps.length + 1) .quiet) := by
  have hi : p.stripped.code.interrupts = true ∧ p.stripped.code.selects? = some .two := by
    rcases hp with ⟨command, hc⟩ | ⟨row, column, hc⟩
    · rw [hc]
      exact ⟨rfl, rfl⟩
    · rw [hc]
      exact ⟨rfl, rfl⟩
  obtain ⟨last, inPacket, hs⟩ := step_selecting_two h hi.1 hi.2
  have hmap : ∀ q ∈ ps.map BytePair.stripped, q.code.selects? ≠ some .one := by
    rw [List.forall_mem_map]
    exact hps
  obtain ⟨last', inPacket', hr⟩ :=
    absorbs_of_channel_two (r := { r with channel := .two, last, inPacket }) rfl hmap
  have ha : r.Absorbs ((p :: ps).map BytePair.stripped)
      { r with channel := .two, last := last', inPacket := inPacket' } := .cons hs hr
  refine ⟨last', inPacket', ?_⟩
  rw [receiveAll_of_parityHolds hparity, ha, List.length_map, List.length_cons]

/-- A copy of the command that selected channel two, before characters of all kinds and a packet,
while the screen shows a caption that is still written. -/
theorem channel_two_shuts_screen_on_copy :
    let p : BytePair := ⟨0x1c, 0x20⟩
    let ps : List BytePair :=
      [⟨0xc1, 0x43⟩, ⟨0x91, 0xb0⟩, ⟨0x92, 0x20⟩, ⟨0x97, 0xa1⟩, ⟨0x01, 0x01⟩, ⟨0xc1, 0x80⟩,
        ⟨0x8f, 0x80⟩, ⟨0x80, 0x80⟩, ⟨0x19, 0x20⟩]
    ∃ r, fresh.receiveAll [⟨0x94, 0x29⟩, ⟨0xc1, 0xc2⟩, p] = .ok (r, [.quiet, .shown, .quiet]) ∧
      r.Reachable ∧ r.last = p.stripped ∧
      (∀ q ∈ p :: ps, q.parityHolds = true) ∧
      ((∃ command, p.stripped.code = .control .two command) ∨
        ∃ row column, p.stripped.code = .preamble .two row column) ∧
      (∀ q ∈ ps, q.stripped.code.selects? ≠ some .one) ∧
      ∃ last inPacket, r.receiveAll (p :: ps) =
        .ok ({ r with channel := .two, last, inPacket }, List.replicate 10 .quiet) := by
  intro p ps
  let r := (fresh.stepAll [⟨0x14, 0x29⟩, ⟨0x41, 0x42⟩, ⟨0x1c, 0x20⟩]).1
  have hs : fresh.receiveAll [⟨0x94, 0x29⟩, ⟨0xc1, 0xc2⟩, p] =
      .ok (r, [.quiet, .shown, .quiet]) :=
    (receiveAll_of_parityHolds (by decide +kernel) _).trans
      (congrArg Except.ok (by decide +kernel))
  have hr : r.Reachable := Reachable.fresh.receiveAll hs
  have hparity : ∀ q ∈ p :: ps, q.parityHolds = true := by decide +kernel
  have hp : p.stripped.code = .control .two .resumeLoading := by decide +kernel
  have hps : ∀ q ∈ ps, q.stripped.code.selects? ≠ some .one := by decide +kernel
  exact ⟨r, hs, hr, by decide +kernel, hparity, .inl ⟨_, hp⟩, hps,
    channel_two_shuts_screen hr hparity (.inl ⟨_, hp⟩) hps⟩

/-! ### Characters of channel two -/

/-- Put a character into a memory, with the cursor behind it, and report it if it is shown. -/
def putInto (r : Receiver) (plane : Plane) (column : Column) (x : Char) : Receiver × Moment :=
  match plane with
  | .shown =>
    ({ r with
        shown := r.shown.put r.row column (some x)
        column := column.advance 1
        displayed := true }, .shown)
  | .hidden =>
    ({ r with hidden := r.hidden.put r.row column (some x), column := column.advance 1 }, .quiet)

/-- The column in which a special or extended character is put, with the character. -/
def place? (r : Receiver) : Code → Option (Column × Char)
  | .special x => some (r.column, x)
  | .extended x => some (r.column.back?.getD r.column, x)
  | _ => none

/-- A special or extended character is let into a memory: it is heard and no copy, channel one is
selected, and characters go to the memory. -/
structure Takes (r : Receiver) (p : BytePair) (plane : Plane) (column : Column) (x : Char) :
    Prop where
  heard : r.inPacket = false
  kept : ¬ r.Drops p
  channel : r.channel = .one
  target : r.target = some plane
  place : r.place? p.code = some (column, x)

/-- A single character is put at the cursor. -/
theorem write_singleton {plane : Plane} (h : r.target = some plane) (x : Char) :
    r.write [x] = r.putInto plane r.column x := by
  cases plane with
  | shown => exact write_of_shown h [x]
  | hidden => exact write_of_hidden h [x]

/-- A character that replaces another is put before the cursor, or at the left edge. -/
theorem write_backspace {plane : Plane} (h : r.target = some plane) (x : Char) :
    r.backspace.write [x] = r.putInto plane (r.column.back?.getD r.column) x := by
  rw [write_singleton ((target_backspace r).trans h)]
  rcases r with ⟨_, _, row, column, target, _⟩
  obtain rfl := h
  unfold backspace
  cases column.back? with
  | none => rfl
  | some c => cases plane <;> simp only [edit, putInto, Option.getD_some, Memory.put_put]

private theorem step_of_takes {p : BytePair} {plane : Plane} {column : Column} {x : Char}
    (h : r.Takes p plane column x) :
    r.step p = ({ r with last := p } : Receiver).putInto plane column x := by
  have hplace := h.place
  have hr : ({ r with inPacket := false, last := p } : Receiver) = { r with last := p } := by
    rw [← h.heard]
  have hadmits (hc : p.code.isHeard = true) : r.Admits p :=
    ⟨hc, fun hi ↦ absurd (h.heard.symm.trans hi) nofun⟩
  cases hc : p.code with
  | special y =>
    rw [hc] at hplace
    obtain ⟨rfl, rfl⟩ := Prod.mk.inj (Option.some.inj hplace)
    rw [step_of_admits (hadmits (by rw [hc]; rfl)) h.kept, hr, hc, act, if_pos h.channel]
    exact write_singleton (r := { r with last := p }) h.target y
  | extended y =>
    rw [hc] at hplace
    obtain ⟨rfl, rfl⟩ := Prod.mk.inj (Option.some.inj hplace)
    rw [step_of_admits (hadmits (by rw [hc]; rfl)) h.kept, hr, hc, act, if_pos h.channel]
    exact write_backspace (r := { r with last := p }) h.target y
  | _ =>
    rw [hc] at hplace
    cases hplace

private theorem act_of_fitsTwo {c : Code} (h : c.fitsTwo = true)
    (hp : r.channel = .one → r.target ≠ none → r.place? c = none) :
    ∃ channel, r.act c = ({ r with channel }, .quiet) := by
  -- Where a place is found, the character is written nowhere.
  have hlost (hplace : r.place? c ≠ none) (hone : r.channel = .one) : r.target = none :=
    Classical.byContradiction fun ht ↦ hplace (hp hone ht)
  cases c with
  | control channel command | preamble channel row column | midRow channel =>
    obtain rfl := eq_of_beq h
    exact ⟨.two, rfl⟩
  | tab channel columns =>
    obtain rfl := eq_of_beq h
    have hone : ¬ (Channel.two = .one ∧ r.channel = .one) := nofun
    refine ⟨r.channel, ?_⟩
    rw [act, if_neg hone]
  | special x =>
    refine ⟨r.channel, ?_⟩
    rw [act]
    split
    · next hone => exact write_of_none (hlost nofun hone) [x]
    · rfl
  | extended x =>
    refine ⟨r.channel, ?_⟩
    rw [act]
    split
    · next hone =>
      have ht := hlost nofun hone
      rw [backspace_of_none ht]
      exact write_of_none ht [x]
    · rfl
  | basic chars => cases h
  | padding | packet _ | unknown => exact ⟨r.channel, rfl⟩

private theorem Admits.inPacket_eq_false {p : BytePair} (ha : r.Admits p)
    (hp : r.place? p.code ≠ none) :
    r.inPacket = false := by
  rw [Bool.eq_false_iff]
  intro hi
  have hinterrupts := ha.2 hi
  cases hc : p.code with
  | special x | extended x =>
    rw [hc] at hinterrupts
    cases hinterrupts
  | _ =>
    rw [hc] at hp
    exact hp rfl

private theorem step_of_isForTwo {p : BytePair} (h : p.isForTwo = true)
    (hn : ∀ plane column x, ¬ r.Takes p plane column x) :
    ∃ channel last inPacket, r.step p = ({ r with channel, last, inPacket }, .quiet) := by
  rcases r.step_cases p with ⟨-, hs⟩ | ⟨⟨ha, hd⟩, hs⟩
  · exact ⟨r.channel, hs⟩
  · have hplace (hone : r.channel = .one) (ht : r.target ≠ none) : r.place? p.code = none := by
      obtain ⟨plane, htarget⟩ := Option.ne_none_iff_exists'.mp ht
      rw [Option.eq_none_iff_forall_ne_some]
      intro ⟨column, x⟩ hx
      have hi := ha.inPacket_eq_false (by rw [hx]; nofun)
      exact hn plane column x ⟨hi, hd, hone, htarget, hx⟩
    obtain ⟨channel, hact⟩ := act_of_fitsTwo (r := { r with inPacket := false, last := p })
      (BytePair.fitsTwo_code h) hplace
    rw [hs]
    exact ⟨channel, _, _, hact⟩

/-- What comes of a pair whose first byte is one of channel two. If it brings a special or extended
character that is let into a memory, this is put there as one of channel one would be. Any other
pair is heard quietly and leaves the screen, the hidden memory and the cursor as they are. -/
theorem outcome_of_channel_two {p : BytePair} (hp : p.parityHolds = true)
    (ht : p.stripped.isForTwo = true) :
    (∀ plane column x, r.Takes p.stripped plane column x →
      r.receive p = .ok (({ r with last := p.stripped } : Receiver).putInto plane column x)) ∧
    ((∀ plane column x, ¬ r.Takes p.stripped plane column x) →
      ∃ channel last inPacket,
        r.receive p = .ok ({ r with channel, last, inPacket }, .quiet)) := by
  rw [receive_of_parityHolds hp]
  refine ⟨fun plane column x h ↦ ?_, fun hn ↦ ?_⟩
  · rw [step_of_takes h]
  · obtain ⟨channel, last, inPacket, hs⟩ := step_of_isForTwo ht hn
    exact ⟨channel, last, inPacket, congrArg Except.ok hs⟩

/-- An extended character of channel two takes the place of a character on the screen. -/
theorem outcome_of_channel_two_over_caption :
    ∃ r r', fresh.receiveAll [⟨0x94, 0x29⟩, ⟨0xc1, 0xc2⟩] = .ok (r, [.quiet, .shown]) ∧
      r.text = .ok "AB" ∧
      (⟨0x1a, 0x20⟩ : BytePair).parityHolds = true ∧
      (⟨0x1a, 0x20⟩ : BytePair).stripped.isForTwo = true ∧
      r.receive ⟨0x1a, 0x20⟩ = .ok (r', .shown) ∧ r'.text = .ok "AÁ" := by
  let r := (fresh.stepAll [⟨0x14, 0x29⟩, ⟨0x41, 0x42⟩]).1
  have hs : fresh.receiveAll [⟨0x94, 0x29⟩, ⟨0xc1, 0xc2⟩] = .ok (r, [.quiet, .shown]) :=
    (receiveAll_of_parityHolds (by decide +kernel) _).trans
      (congrArg Except.ok (by decide +kernel))
  have hp : (⟨0x1a, 0x20⟩ : BytePair).parityHolds = true := by decide +kernel
  have ht : (⟨0x1a, 0x20⟩ : BytePair).stripped.isForTwo = true := by decide +kernel
  have hk : r.Takes (⟨0x1a, 0x20⟩ : BytePair).stripped .shown 1 'Á' :=
    ⟨by decide +kernel, by decide +kernel, by decide +kernel, by decide +kernel,
      by decide +kernel⟩
  have hbefore : r.text = .ok "AB" :=
    (if_pos (by decide +kernel)).trans (congrArg Except.ok (by decide +kernel))
  refine ⟨r, _, hs, hbefore, hp, ht, (outcome_of_channel_two hp ht).1 .shown 1 'Á' hk, ?_⟩
  exact (if_pos rfl).trans (congrArg Except.ok (by decide +kernel))

end Receiver

end Line21
