import Line21.Proofs.Code.Spelling
import Line21.Proofs.Receiver.Reached
import Line21.Proofs.Receiver.Repetition

/-!
# Pop-on captions from anywhere

Whatever a receiver has heard before, an order to load directs characters to the hidden memory, an
order to erase empties it, and what follows is loaded alone. Main statement: a layout that is sent
behind these orders comes to the screen as it was laid out, quietly up to its end.
-/

namespace Line21

/-- The codes that bring a layout to the screen of any receiver: an order to load and one to erase
what was loaded before, the texts, and the end of the caption. -/
def Layout.popOn (l : Layout) : List Code :=
  .control .one .resumeLoading :: .control .one .eraseHidden ::
    (l.placed.flatMap Placed.codes ++ [.control .one .endCaption])

/-- Every code that brings a layout to the screen is said by some pair. -/
theorem Layout.isSpelled_of_mem_popOn {l : Layout} {c : Code} (h : c ∈ l.popOn) :
    c.IsSpelled := by
  rw [popOn, List.mem_cons, List.mem_cons, List.mem_append, List.mem_singleton] at h
  rcases h with rfl | rfl | h | rfl
  · exact Code.isSpelled_control .resumeLoading
  · exact Code.isSpelled_control .eraseHidden
  · exact Code.isSpelled_of_mem_codes l (List.mem_cons_of_mem _ h)
  · exact Code.isSpelled_control .endCaption

/-- A pair that was forgotten is no code that could be repeated. -/
theorem BytePair.not_isDoubled_zero : ¬ zero.code.isDoubled = true := by
  decide

private theorem Layout.exists_popOn_head (l : Layout) :
    ∃ c cs, l.placed.flatMap Placed.codes ++ [.control .one .endCaption] = c :: cs ∧
      c.isHeard = true ∧ c ≠ .control .one .eraseHidden := by
  cases l.placed with
  | nil => exact ⟨_, _, rfl, rfl, nofun⟩
  | cons t ts => exact ⟨_, _, rfl, rfl, nofun⟩

namespace Receiver

variable {r : Receiver}

/-- After an order to load, characters go to the hidden memory, which stays as it is. This holds
also where the order is dropped as a copy, because then the one before it is still in force. -/
theorem step_resumeLoading (h : r.Reachable) {p : BytePair}
    (hp : p.code = .control .one .resumeLoading) :
    ∃ r', r.step p = (r', .quiet) ∧ r'.Loads r.hidden := by
  by_cases hd : r.Drops p
  · have hheeds := h.heeds
    rw [← hd.2.2, hp] at hheeds
    have hw : Writes { r with inPacket := false, last := .zero } :=
      ⟨(hheeds.command .resumeLoading rfl).1, hheeds.channel .one rfl, rfl⟩
    exact ⟨_, step_of_drops hd, hw, rfl, fun hc ↦ absurd hc BytePair.not_isDoubled_zero⟩
  · have ha : r.Admits p := admits_of_interrupts (by rw [hp]; rfl)
    have hs : r.step p =
        ({ r with
            inPacket := false
            last := p
            channel := .one
            target := some .hidden
            window := none }, .quiet) := by
      rw [step_of_admits ha hd, hp, act, obey]
    exact ⟨_, hs, ⟨rfl, rfl, rfl⟩, rfl, fun _ ↦ hp⟩

private theorem step_eraseHidden {m : Memory} (h : r.Loads m) {p : BytePair}
    (hp : p.code = .control .one .eraseHidden) :
    ∃ r', r.step p = (r', .quiet) ∧ r'.last = p ∧
      ({ r' with last := .zero } : Receiver).Loads .empty := by
  have hne := h.code_last_ne (c := .control .one .eraseHidden) rfl nofun
  have hs : r.step p =
      ({ r with last := p, channel := .one, hidden := .empty }, .quiet) := by
    rw [step_of_code hp rfl h.inPacket fun _ ↦ hne, act, obey]
  exact ⟨_, hs, rfl, ⟨h.target, rfl, h.inPacket⟩, rfl,
    fun hc ↦ absurd hc BytePair.not_isDoubled_zero⟩

private theorem step_forgetful (hr : r.inPacket = false) {p : BytePair} (hp : p.code.isHeard = true)
    (hl : r.last.code ≠ p.code) : ({ r with last := .zero } : Receiver).step p = r.step p := by
  have ha : r.Admits p := ⟨hp, fun hi ↦ absurd (hr.symm.trans hi) nofun⟩
  have hd : ¬ r.Drops p := fun hd ↦ hl (congrArg BytePair.code hd.2.2.symm)
  have hd' : ¬ ({ r with last := .zero } : Receiver).Drops p :=
    not_drops_of_mayForget (.inr rfl) hd
  rw [step_of_admits ha hd, step_of_admits (r := { r with last := .zero }) ha hd']

/-- The texts of a layout and the end of the caption show the layout, where nothing else was
loaded. -/
theorem stepAll_placed (h : r.Loads .empty) (l : Layout) {ps : List BytePair}
    (hp : ps.map BytePair.code =
      l.placed.flatMap Placed.codes ++ [.control .one .endCaption]) :
    ∃ r', r.stepAll ps = (r', List.replicate (ps.length - 1) .quiet ++ [.shown]) ∧
      r'.text = .ok l.text := by
  obtain ⟨texts, last, rfl, htexts, hlast⟩ := List.map_eq_append_iff.mp hp
  obtain ⟨p, none, rfl, hend, hnone⟩ := List.map_eq_cons_iff.mp hlast
  obtain rfl := List.map_eq_nil_iff.mp hnone
  obtain ⟨r₁, habs, hloads⟩ := absorbs_flatMap_codes h l.placed htexts
  obtain ⟨r₂, hs, htext, -, -⟩ := step_endCaption hloads hend
  refine ⟨r₂, ?_, ?_⟩
  · rw [stepAll_append, habs, stepAll, hs, stepAll, List.length_append, List.length_singleton,
      Nat.add_sub_cancel]
  · rw [htext, ← l.text_memory, Layout.memory]

/-- Whatever a receiver has heard, a layout can be sent so that it comes to the screen, and all
pairs that say its codes bring it there: they are heard quietly up to the last, which shows a
caption, and the screen then reads as the layout. -/
theorem shows_layout_from_anywhere (h : r.Reachable) (l : Layout) :
    (∃ ps, BytePair.Say ps l.popOn) ∧
      ∀ ps, BytePair.Say ps l.popOn →
        ∃ r', r.receiveAll ps =
            .ok (r', List.replicate (ps.length - 1) .quiet ++ [.shown]) ∧
          r'.text = .ok l.text := by
  refine ⟨Code.exists_say fun c hc ↦ Layout.isSpelled_of_mem_popOn hc, fun ps hps ↦ ?_⟩
  obtain ⟨c, cs, hrest, hheard, hne⟩ := l.exists_popOn_head
  obtain ⟨p₁, ps₁, hps₁, hload, hcodes₁⟩ := List.map_eq_cons_iff.mp hps.map_code_stripped
  obtain ⟨p₂, ps₂, rfl, herase, hcodes₂⟩ := List.map_eq_cons_iff.mp hcodes₁
  obtain ⟨r₁, hs₁, hloads⟩ := step_resumeLoading h hload
  obtain ⟨r₂, hs₂, hlast, hempty⟩ := step_eraseHidden hloads herase
  obtain ⟨r₃, hs₃, htext⟩ := stepAll_placed hempty l hcodes₂
  rw [hrest] at hcodes₂
  obtain ⟨p₃, ps₃, rfl, hfirst, -⟩ := List.map_eq_cons_iff.mp hcodes₂
  -- The order to erase is not repeated, so that it may as well have been forgotten.
  have hforget : ({ r₂ with last := .zero } : Receiver).step p₃ = r₂.step p₃ := by
    have hinPacket : r₂.inPacket = false := hempty.inPacket
    refine step_forgetful hinPacket (hfirst ▸ hheard) ?_
    rw [hlast, herase, hfirst]
    exact hne.symm
  rw [stepAll, hforget, ← stepAll] at hs₃
  have hlength : ps.length = ps₃.length + 3 := by
    rw [← List.length_map (f := BytePair.stripped), hps₁]
    rfl
  refine ⟨r₃, ?_, htext⟩
  rw [receiveAll_of_parityHolds hps.parity, hps₁, stepAll, hs₁, stepAll, hs₂, hs₃, hlength]
  rfl

/-- A layout of two rows is sent to a receiver that is in a packet, shows a caption and has loaded
another, and that takes the first order for a copy. -/
theorem shows_layout_from_anywhere_in_packet :
    let l : Layout :=
      ⟨[⟨12, 6, ['D', 'O', 'W', 'N', ' '], by decide, by decide, by decide +kernel⟩,
        ⟨3, 30, ['U', 'P'], by decide, by decide, by decide +kernel⟩], by decide⟩
    let ps : List BytePair :=
      [⟨0x94, 0x20⟩, ⟨0x94, 0xae⟩, ⟨0x13, 0xf2⟩, ⟨0x97, 0xa2⟩, ⟨0xc4, 0x4f⟩, ⟨0x57, 0xce⟩,
        ⟨0x20, 0x80⟩, ⟨0x92, 0xfe⟩, ⟨0x97, 0xa2⟩, ⟨0xd5, 0xd0⟩, ⟨0x94, 0x2f⟩]
    ∃ r, fresh.receiveAll [⟨0x94, 0x29⟩, ⟨0xc1, 0xc2⟩, ⟨0x94, 0x20⟩, ⟨0x43, 0xc4⟩,
          ⟨0x94, 0x20⟩, ⟨0x01, 0x01⟩] =
        .ok (r, [.quiet, .shown, .quiet, .quiet, .quiet, .quiet]) ∧
      r.Reachable ∧ r.inPacket = true ∧ r.last = (⟨0x14, 0x20⟩ : BytePair) ∧
      BytePair.Say ps l.popOn ∧
      ∃ r', r.receiveAll ps = .ok (r', List.replicate 10 .quiet ++ [.shown]) ∧
        r'.text = .ok "UP\r\nDOWN" := by
  intro l ps
  let r := (fresh.stepAll [⟨0x14, 0x29⟩, ⟨0x41, 0x42⟩, ⟨0x14, 0x20⟩, ⟨0x43, 0x44⟩, ⟨0x14, 0x20⟩,
    ⟨0x01, 0x01⟩]).1
  have hs : fresh.receiveAll [⟨0x94, 0x29⟩, ⟨0xc1, 0xc2⟩, ⟨0x94, 0x20⟩, ⟨0x43, 0xc4⟩,
      ⟨0x94, 0x20⟩, ⟨0x01, 0x01⟩] =
        .ok (r, [.quiet, .shown, .quiet, .quiet, .quiet, .quiet]) :=
    (receiveAll_of_parityHolds (by decide +kernel) _).trans
      (congrArg Except.ok (by decide +kernel))
  have hr : r.Reachable := Reachable.fresh.receiveAll hs
  have hps : BytePair.Say ps l.popOn := ⟨by decide +kernel, by decide +kernel⟩
  have htext : l.text = "UP\r\nDOWN" := l.text_memory.symm.trans (by decide +kernel)
  obtain ⟨r', hall, hread⟩ := (shows_layout_from_anywhere hr l).2 ps hps
  exact ⟨r, hs, hr, by decide +kernel, by decide +kernel, hps, r', hall, htext ▸ hread⟩

end Receiver

end Line21
