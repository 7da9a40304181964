import Line21.Proofs.Receiver.Gates
import Line21.Proofs.Receiver.Writing

/-!
# Quiet changes of the screen

A receiver reports the moments at which a caption comes up or is erased. Three commands touch
the screen and report nothing: going back and erasing to the end of the row while characters go
to the shown memory, and rolling up. No other quiet pair changes the text on the screen. A receiver
that reports a caption has one on the screen: it may be empty, but it can be read.
-/

namespace Line21

/-- The command that a code gives to a receiver of channel one. -/
def Code.command? : Code → Option Command
  | .control .one command => some command
  | _ => none

namespace Receiver

/-- The command that a receiver carries out on hearing a pair, if any. -/
def obeyed? (r : Receiver) (p : BytePair) : Option Command :=
  if r.Admits p ∧ ¬ r.Drops p then p.code.command? else none

/-- What commands make of the shown memory without a report. -/
inductive Rubs (r : Receiver) : Command → Memory → Prop
  /-- Going back empties the cell before the cursor. -/
  | backspace {c : Column} (target : r.target = some .shown) (column : r.column.back? = some c) :
    Rubs r .backspace (r.shown.put r.row c none)
  /-- The row is emptied from the cursor on. -/
  | eraseToEnd (target : r.target = some .shown) :
    Rubs r .eraseToEnd (r.shown.eraseFrom r.row r.column)
  /-- The window rolls up. -/
  | carriageReturn {depth : Depth} (window : r.window = some depth) :
    Rubs r .carriageReturn (r.shown.rollUp r.row depth)

/-- The gates have no part in what a command makes of the shown memory. -/
theorem Rubs.frame {r : Receiver} {command : Command} {m : Memory} (channel : Channel)
    (last : BytePair) (inPacket : Bool) (h : r.Rubs command m) :
    ({ r with channel, last, inPacket } : Receiver).Rubs command m := by
  cases h with
  | backspace target column => exact .backspace target column
  | eraseToEnd target => exact .eraseToEnd target
  | carriageReturn window => exact .carriageReturn window

private theorem shown_obey_of_rubs {r : Receiver} {command : Command} {m : Memory}
    (h : r.Rubs command m) : (r.obey command).1.shown = m := by
  cases h with
  | backspace target column => simp only [obey, Receiver.backspace, target, column, edit]
  | eraseToEnd target => simp only [obey, edit, target]
  | carriageReturn window => simp only [obey, window]

/-- Going back changes the shown memory only while it is the target. -/
theorem shown_backspace (r : Receiver) :
    r.backspace.displayed = r.displayed ∧
      (r.backspace.shown = r.shown ∨ r.Rubs .backspace r.backspace.shown) := by
  rcases r with ⟨shown, hidden, row, column, target, _⟩
  cases target with
  | none => exact ⟨rfl, .inl rfl⟩
  | some plane =>
    unfold backspace
    dsimp only
    cases hb : column.back? with
    | none => exact ⟨rfl, .inl rfl⟩
    | some c =>
      cases plane with
      | shown => exact ⟨rfl, .inr (.backspace rfl hb)⟩
      | hidden => exact ⟨rfl, .inl rfl⟩

private theorem shown_obey_of_quiet {r : Receiver} {command : Command}
    (h : (r.obey command).2 = .quiet) :
    (r.obey command).1.displayed = r.displayed ∧
      ((r.obey command).1.shown = r.shown ∨ r.Rubs command (r.obey command).1.shown) := by
  cases command with
  | backspace => exact r.shown_backspace
  | eraseToEnd =>
    rcases r with ⟨_, _, _, _, target, _⟩
    cases target with
    | none => exact ⟨rfl, .inl rfl⟩
    | some plane =>
      cases plane with
      | shown => exact ⟨rfl, .inr (.eraseToEnd rfl)⟩
      | hidden => exact ⟨rfl, .inl rfl⟩
  | carriageReturn =>
    rcases r with ⟨_, _, _, _, _, window, _⟩
    cases window with
    | none => exact ⟨rfl, .inl rfl⟩
    | some depth => exact ⟨rfl, .inr (.carriageReturn rfl)⟩
  | eraseShown | endCaption => cases h
  | resumeLoading | rollUp _ | resumeDirect | resumeText | eraseHidden | none =>
    exact ⟨rfl, .inl rfl⟩

/-- Quiet writing leaves the shown memory alone. -/
theorem shown_write_of_quiet {r : Receiver} {chars : List Char} (h : (r.write chars).2 = .quiet) :
    (r.write chars).1.displayed = r.displayed ∧ (r.write chars).1.shown = r.shown := by
  cases ht : r.target with
  | none =>
    rw [write_of_none ht]
    exact ⟨rfl, rfl⟩
  | some plane =>
    cases plane with
    | hidden =>
      rw [write_of_hidden ht]
      exact ⟨rfl, rfl⟩
    | shown =>
      rw [write_of_shown ht] at h
      cases h

private theorem target_of_rubs_backspace {r : Receiver} {m : Memory} (h : r.Rubs .backspace m) :
    r.target = some .shown := by
  cases h with
  | backspace target column => exact target

private theorem shown_replace_of_quiet {r : Receiver} {chars : List Char}
    (h : (r.backspace.write chars).2 = .quiet) :
    (r.backspace.write chars).1.displayed = r.displayed ∧
      (r.backspace.write chars).1.shown = r.shown := by
  obtain ⟨hd, hs⟩ := shown_write_of_quiet h
  obtain ⟨hd', hs' | hr⟩ := r.shown_backspace
  · exact ⟨hd.trans hd', hs.trans hs'⟩
  · rw [write_of_shown ((target_backspace r).trans (target_of_rubs_backspace hr))] at h
    cases h

private theorem shown_ite_of_quiet {r : Receiver} {x : Receiver × Moment} {c : Prop} [Decidable c]
    (h : (if c then x else (r, .quiet)).2 = .quiet)
    (hx : x.2 = .quiet → x.1.displayed = r.displayed ∧ x.1.shown = r.shown) :
    (if c then x else (r, .quiet)).1.displayed = r.displayed ∧
      (if c then x else (r, .quiet)).1.shown = r.shown := by
  by_cases hc : c
  · rw [if_pos hc] at h ⊢
    exact hx h
  · rw [if_neg hc]
    exact ⟨rfl, rfl⟩

private theorem shown_act_of_quiet {r : Receiver} {c : Code} (h : (r.act c).2 = .quiet) :
    (r.act c).1.displayed = r.displayed ∧
      ((r.act c).1.shown = r.shown ∨
        ∃ command, c.command? = some command ∧ r.Rubs command (r.act c).1.shown) := by
  cases c with
  | control channel command =>
    cases channel with
    | one =>
      obtain ⟨hd, hs | hr⟩ := shown_obey_of_quiet (r := { r with channel := .one }) h
      · exact ⟨hd, .inl hs⟩
      · exact ⟨hd, .inr ⟨command, rfl, hr.frame r.channel r.last r.inPacket⟩⟩
    | two => exact ⟨rfl, .inl rfl⟩
  | tab channel columns =>
    unfold act
    dsimp only
    split <;> exact ⟨rfl, .inl rfl⟩
  | preamble channel row column =>
    cases channel with
    | one => cases row <;> exact ⟨rfl, .inl rfl⟩
    | two => exact ⟨rfl, .inl rfl⟩
  | midRow channel =>
    cases channel with
    | one =>
      obtain ⟨hd, hs⟩ := shown_write_of_quiet (r := { r with channel := .one }) h
      exact ⟨hd, .inl hs⟩
    | two => exact ⟨rfl, .inl rfl⟩
  | special x =>
    obtain ⟨hd, hs⟩ := shown_ite_of_quiet (x := r.write [x]) h shown_write_of_quiet
    exact ⟨hd, .inl hs⟩
  | extended x =>
    obtain ⟨hd, hs⟩ := shown_ite_of_quiet (x := r.backspace.write [x]) h shown_replace_of_quiet
    exact ⟨hd, .inl hs⟩
  | basic chars =>
    obtain ⟨hd, hs⟩ := shown_ite_of_quiet (x := r.write chars) h shown_write_of_quiet
    exact ⟨hd, .inl hs⟩
  | padding | packet _ | unknown => exact ⟨rfl, .inl rfl⟩

private theorem shown_act_of_rubs {r : Receiver} {c : Code} {command : Command} {m : Memory}
    (hc : c.command? = some command) (h : r.Rubs command m) : (r.act c).1.shown = m := by
  cases c with
  | control channel command' =>
    cases channel with
    | one =>
      obtain rfl : command' = command := Option.some.inj hc
      exact shown_obey_of_rubs (h.frame .one r.last r.inPacket)
    | two => cases hc
  | _ => cases hc

/-- A quiet pair leaves the shown memory alone, unless the receiver carries out a command that
rubs it. -/
theorem shown_step_of_quiet {r : Receiver} {p : BytePair} (h : (r.step p).2 = .quiet) :
    (r.step p).1.displayed = r.displayed ∧
      ((r.step p).1.shown = r.shown ∨
        ∃ command, r.obeyed? p = some command ∧ r.Rubs command (r.step p).1.shown) := by
  rcases r.step_cases p with ⟨-, last, inPacket, hs⟩ | ⟨ha, hs⟩
  · rw [hs]
    exact ⟨rfl, .inl rfl⟩
  · rw [hs] at h ⊢
    obtain ⟨hd, hm | ⟨command, hc, hr⟩⟩ := shown_act_of_quiet h
    · exact ⟨hd, .inl hm⟩
    · refine ⟨hd, .inr ⟨command, ?_, hr.frame r.channel r.last r.inPacket⟩⟩
      rw [obeyed?, if_pos ha, hc]

/-- A command that is carried out and rubs the shown memory leaves what it makes of it. -/
theorem shown_step_of_rubs {r : Receiver} {p : BytePair} {command : Command} {m : Memory}
    (ho : r.obeyed? p = some command) (h : r.Rubs command m) : (r.step p).1.shown = m := by
  rw [obeyed?] at ho
  split at ho
  · next ha =>
    rw [step_of_admits ha.1 ha.2]
    exact shown_act_of_rubs ho (h.frame r.channel p false)
  · cases ho

private theorem text_ne_text_iff {r r' : Receiver} (h : r'.displayed = r.displayed) :
    r'.text ≠ r.text ↔ r.displayed = true ∧ r'.shown.text ≠ r.shown.text := by
  unfold text
  rw [h]
  cases r.displayed with
  | false => exact ⟨fun hn ↦ absurd rfl hn, fun hn ↦ nomatch hn.1⟩
  | true => exact ⟨fun hn ↦ ⟨rfl, fun he ↦ hn (congrArg Except.ok he)⟩,
      fun hn he ↦ hn.2 (Except.ok.inj he)⟩

/-- A quiet pair changes the text on the screen exactly when a caption was shown and the
receiver carries out a command that rubs the shown memory, so that it reads differently. -/
theorem text_changes_quietly_iff {r r' : Receiver} {p : BytePair}
    (h : r.receive p = .ok (r', .quiet)) :
    r'.text ≠ r.text ↔
      r.displayed = true ∧
        ∃ command m, r.obeyed? p.stripped = some command ∧ r.Rubs command m ∧
          m.text ≠ r.shown.text := by
  have hs : r.step p.stripped = (r', .quiet) := by
    unfold receive at h
    split at h
    · exact Except.ok.inj h
    · cases h
  have hq : (r.step p.stripped).2 = .quiet := by rw [hs]
  obtain ⟨hd, hm⟩ := shown_step_of_quiet hq
  rw [hs] at hd hm
  rw [text_ne_text_iff hd]
  refine and_congr_right fun _ ↦ ⟨fun ht ↦ ?_, ?_⟩
  · rcases hm with he | ⟨command, ho, hr⟩
    · exact absurd (congrArg Memory.text he) ht
    · exact ⟨command, r'.shown, ho, hr, ht⟩
  · rintro ⟨command, m, ho, hr, ht⟩
    have he := shown_step_of_rubs ho hr
    rw [hs] at he
    rw [he]
    exact ht

/-- A character that was painted on the screen is taken back without a report. -/
theorem text_changes_quietly_by_backspace :
    ∃ r r', fresh.receiveAll [⟨0x94, 0x29⟩, ⟨0xc1, 0xc2⟩] = .ok (r, [.quiet, .shown]) ∧
      r.receive ⟨0x94, 0xa1⟩ = .ok (r', .quiet) ∧ r'.text ≠ r.text := by
  let r := (fresh.stepAll [⟨0x14, 0x29⟩, ⟨0x41, 0x42⟩]).1
  let r' := (r.step ⟨0x14, 0x21⟩).1
  have hs : fresh.receiveAll [⟨0x94, 0x29⟩, ⟨0xc1, 0xc2⟩] = .ok (r, [.quiet, .shown]) :=
    (receiveAll_of_parityHolds (by decide +kernel) _).trans
      (congrArg Except.ok (by decide +kernel))
  have h : r.receive ⟨0x94, 0xa1⟩ = .ok (r', .quiet) :=
    (receive_of_parityHolds (by decide +kernel) _).trans (congrArg Except.ok (by decide +kernel))
  have hr : r.Rubs .backspace (r.shown.put r.row 1 none) :=
    .backspace (by decide +kernel) (by decide +kernel)
  refine ⟨r, r', hs, h, (text_changes_quietly_iff h).mpr ?_⟩
  exact ⟨by decide +kernel, .backspace, _, by decide +kernel, hr, by decide +kernel⟩

end Receiver

/-! ### Moments at which a caption is shown -/

namespace Receiver

variable {r : Receiver}

private theorem displayed_write_of_shown {chars : List Char} (h : (r.write chars).2 = .shown) :
    (r.write chars).1.displayed = true := by
  cases ht : r.target with
  | none =>
    rw [write_of_none ht] at h
    cases h
  | some plane =>
    cases plane with
    | hidden =>
      rw [write_of_hidden ht] at h
      cases h
    | shown =>
      rw [write_of_shown ht]

private theorem displayed_obey_of_shown {command : Command} (h : (r.obey command).2 = .shown) :
    (r.obey command).1.displayed = true := by
  cases command with
  | endCaption => rfl
  | carriageReturn =>
    rw [obey] at h
    split at h <;> cases h
  | _ => cases h

private theorem displayed_ite_of_shown {x : Receiver × Moment} {c : Prop} [Decidable c]
    (h : (if c then x else (r, .quiet)).2 = .shown) (hx : x.2 = .shown → x.1.displayed = true) :
    (if c then x else (r, .quiet)).1.displayed = true := by
  by_cases hc : c
  · rw [if_pos hc] at h ⊢
    exact hx h
  · rw [if_neg hc] at h
    cases h

private theorem displayed_act_of_shown {c : Code} (h : (r.act c).2 = .shown) :
    (r.act c).1.displayed = true := by
  cases c with
  | control channel command =>
    cases channel with
    | one => exact displayed_obey_of_shown h
    | two => cases h
  | tab channel columns => exact displayed_ite_of_shown h nofun
  | preamble channel row column =>
    cases channel with
    | one => cases row <;> cases h
    | two => cases h
  | midRow channel =>
    cases channel with
    | one => exact displayed_write_of_shown h
    | two => cases h
  | special x => exact displayed_ite_of_shown (x := r.write [x]) h displayed_write_of_shown
  | extended x =>
    exact displayed_ite_of_shown (x := r.backspace.write [x]) h displayed_write_of_shown
  | basic chars => exact displayed_ite_of_shown (x := r.write chars) h displayed_write_of_shown
  | padding | packet _ | unknown => cases h

private theorem displayed_step_of_shown {p : BytePair} (h : (r.step p).2 = .shown) :
    (r.step p).1.displayed = true := by
  rcases r.step_cases p with ⟨-, last, inPacket, hs⟩ | ⟨-, hs⟩
  · rw [hs] at h
    cases h
  · rw [hs] at h ⊢
    exact displayed_act_of_shown h

/-- When a receiver reports a caption, the screen has a text, whatever the receiver heard before. -/
theorem text_of_receive_shown {r' : Receiver} {p : BytePair} (h : r.receive p = .ok (r', .shown)) :
    r'.text = .ok r'.shown.text := by
  have hs := step_of_receive h
  have hd : (r.step p.stripped).1.displayed = true :=
    displayed_step_of_shown (congrArg Prod.snd hs)
  rw [hs] at hd
  exact if_pos hd

end Receiver

end Line21
