import Line21.Proofs.Receiver.Reached

/-!
# Away from the screen

While characters go to the hidden memory or nowhere, only a few commands concern the screen:
those that direct characters to it, that erase it and that show the hidden memory. One thing is
left: as long as a window is open, every carriage return rolls it up. An order to load closes the
window, and a change to the text service leaves it as it is. Main statements: a caption is loaded
unseen, and the text service leaves the screen alone but for carriage returns in a window that is
still open.
-/

namespace Line21

/-- Commands that direct characters to the screen, erase it or fill it. -/
def Command.reachesScreen : Command → Bool
  | .rollUp _ | .resumeDirect | .eraseShown | .endCaption => true
  | _ => false

/-- A code that does not give a receiver of channel one a command for the screen. -/
def Code.sparesScreen (c : Code) : Bool := !c.command?.any Command.reachesScreen

/-- Where characters go, and how deep the window is in which they roll up. -/
structure Mode where
  target : Option Plane
  window : Option Depth

/-- The mode that a command leaves. -/
def Mode.after (m : Mode) : Command → Mode
  | .resumeLoading => ⟨some .hidden, none⟩
  | .resumeDirect => ⟨some .shown, none⟩
  | .rollUp depth => ⟨some .shown, some depth⟩
  | .resumeText => ⟨none, m.window⟩
  | _ => m

/-- Windows that are rolled up one after the other, each given by its base row and its depth. -/
def Memory.rolledUp (m : Memory) (rolls : List (Row × Depth)) : Memory :=
  rolls.foldl (fun m (base, depth) ↦ m.rollUp base depth) m

/-- A code spares the screen if each command that it gives does. -/
theorem Code.sparesScreen_iff {c : Code} :
    c.sparesScreen = true ↔ ∀ command, c.command? = some command →
      command.reachesScreen = false := by
  rw [sparesScreen]
  cases c.command? with
  | none => exact ⟨fun _ ↦ nofun, fun _ ↦ rfl⟩
  | some command =>
    rw [Option.any_some, Bool.not_eq_true']
    exact ⟨fun h _ hc ↦ Option.some.inj hc ▸ h, fun h ↦ h command rfl⟩

namespace Receiver

variable {r : Receiver}

/-! ### Modes -/

/-- Where characters of a receiver go, and the depth of its window. -/
def mode (r : Receiver) : Mode := ⟨r.target, r.window⟩

/-- Changing a memory keeps the mode. -/
theorem mode_edit (r : Receiver) (f : Memory → Memory) : (r.edit f).mode = r.mode := by
  unfold edit
  split <;> rfl

private theorem mode_write (r : Receiver) (chars : List Char) :
    (r.write chars).1.mode = r.mode := by
  cases ht : r.target with
  | none => rw [write_of_none ht]
  | some plane =>
    cases plane with
    | shown => rw [write_of_shown ht]; rfl
    | hidden => rw [write_of_hidden ht]; rfl

/-- Taking back a character keeps the mode. -/
theorem mode_backspace (r : Receiver) : r.backspace.mode = r.mode := by
  unfold backspace
  split
  · exact r.mode_edit _
  · rfl

private theorem mode_obey (r : Receiver) (command : Command) :
    (r.obey command).1.mode = r.mode.after command := by
  cases command with
  | backspace => exact r.mode_backspace
  | eraseToEnd => exact r.mode_edit _
  | carriageReturn =>
    rw [obey]
    split <;> rfl
  | _ => rfl

private theorem mode_act (r : Receiver) (c : Code) :
    (r.act c).1.mode = c.command?.elim r.mode r.mode.after := by
  cases c with
  | control channel command =>
    cases channel with
    | one => exact mode_obey { r with channel := .one } command
    | two => rfl
  | preamble channel row column =>
    cases channel with
    | one => cases row <;> rfl
    | two => rfl
  | midRow channel =>
    cases channel with
    | one => exact mode_write { r with channel := .one } [' ']
    | two => rfl
  | tab channel columns =>
    rw [act]
    split <;> rfl
  | special x =>
    rw [act]
    split
    · exact r.mode_write [x]
    · rfl
  | extended x =>
    rw [act]
    split
    · exact (r.backspace.mode_write [x]).trans r.mode_backspace
    · rfl
  | basic chars =>
    rw [act]
    split
    · exact r.mode_write chars
    · rfl
  | padding | packet _ | unknown => rfl

/-- A pair changes the mode by the command that is carried out. -/
theorem mode_step (r : Receiver) (p : BytePair) :
    (r.step p).1.mode = (r.obeyed? p).elim r.mode r.mode.after := by
  rcases r.step_cases p with ⟨ha, last, inPacket, hs⟩ | ⟨ha, hs⟩
  · rw [hs, obeyed?, if_neg ha]
    rfl
  · rw [hs, obeyed?, if_pos ha, mode_act]
    rfl

/-! ### Pairs that spare the screen -/

/-- The window that is rolled up when a pair is heard, if any. -/
def roll? (r : Receiver) (p : BytePair) : Option (Row × Depth) :=
  if r.obeyed? p = some .carriageReturn then r.window.map (r.row, ·) else none

/-- The windows that are rolled up while pairs are heard. -/
def rolls (r : Receiver) : List BytePair → List (Row × Depth)
  | [] => []
  | p :: ps => (r.roll? p).toList ++ (r.step p).1.rolls ps

/-- A command that is carried out is that of the code. -/
theorem command?_of_obeyed? {p : BytePair} {command : Command}
    (h : r.obeyed? p = some command) : p.code.command? = some command := by
  unfold obeyed? at h
  split at h
  · exact h
  · cases h

private theorem write_quiet (h : r.target ≠ some .shown) (chars : List Char) :
    (r.write chars).2 = .quiet := by
  cases ht : r.target with
  | none => rw [write_of_none ht]
  | some plane =>
    cases plane with
    | shown => exact absurd ht h
    | hidden => rw [write_of_hidden ht]

/-- Commands that do not reach the screen are quiet. -/
theorem obey_quiet (r : Receiver) {command : Command} (h : command.reachesScreen = false) :
    (r.obey command).2 = .quiet := by
  cases command with
  | carriageReturn =>
    rw [obey]
    split <;> rfl
  | rollUp _ | resumeDirect | eraseShown | endCaption => cases h
  | _ => rfl

private theorem act_quiet (h : r.target ≠ some .shown) {c : Code} (hc : c.sparesScreen = true) :
    (r.act c).2 = .quiet := by
  cases c with
  | control channel command =>
    cases channel with
    | one => exact obey_quiet { r with channel := .one } (Code.sparesScreen_iff.mp hc command rfl)
    | two => rfl
  | preamble channel row column =>
    cases channel with
    | one => cases row <;> rfl
    | two => rfl
  | midRow channel =>
    cases channel with
    | one => exact write_quiet (r := { r with channel := .one }) h [' ']
    | two => rfl
  | tab channel columns =>
    rw [act]
    split <;> rfl
  | special x =>
    rw [act]
    split
    · exact write_quiet h [x]
    · rfl
  | extended x =>
    rw [act]
    split
    · exact write_quiet ((target_backspace r).symm ▸ h) [x]
    · rfl
  | basic chars =>
    rw [act]
    split
    · exact write_quiet h chars
    · rfl
  | padding | packet _ | unknown => rfl

private theorem step_quiet (h : r.target ≠ some .shown) {p : BytePair}
    (hp : p.code.sparesScreen = true) : (r.step p).2 = .quiet := by
  rcases r.step_cases p with ⟨-, last, inPacket, hs⟩ | ⟨-, hs⟩
  · rw [hs]
  · rw [hs]
    exact act_quiet (r := { r with inPacket := false, last := p }) h hp

private theorem Rubs.window {command : Command} {m : Memory} (h : r.Rubs command m)
    (ht : r.target ≠ some .shown) : command = .carriageReturn ∧ r.window ≠ none := by
  cases h with
  | backspace target column => exact absurd target ht
  | eraseToEnd target => exact absurd target ht
  | carriageReturn window => exact ⟨rfl, window ▸ nofun⟩

/-- Away from the screen, a quiet pair changes what is shown only by rolling up a window. -/
theorem shown_step (h : r.target ≠ some .shown) {p : BytePair} (hq : (r.step p).2 = .quiet) :
    (r.step p).1.displayed = r.displayed ∧
      (r.step p).1.shown = r.shown.rolledUp (r.roll? p).toList := by
  obtain ⟨hd, hs⟩ := shown_step_of_quiet hq
  refine ⟨hd, ?_⟩
  have hsame (hno : r.obeyed? p = some .carriageReturn → r.window = none) :
      (r.step p).1.shown = r.shown := by
    rcases hs with hs | ⟨command, ho, hr⟩
    · exact hs
    · obtain ⟨rfl, hw⟩ := hr.window h
      exact absurd (hno ho) hw
  by_cases ho : r.obeyed? p = some .carriageReturn
  · rw [roll?, if_pos ho]
    cases hw : r.window with
    | none => exact hsame fun _ ↦ hw
    | some depth => exact shown_step_of_rubs ho (.carriageReturn hw)
  · rw [roll?, if_neg ho]
    exact hsame fun hr ↦ absurd hr ho

/-- Away from the screen, a pair that spares it does not lead back to it, and opens no window. -/
theorem mode_step_of_spares (h : r.target ≠ some .shown) {p : BytePair}
    (hp : p.code.sparesScreen = true) :
    (r.step p).1.target ≠ some .shown ∧ (r.window = none → (r.step p).1.window = none) := by
  have hm := r.mode_step p
  cases ho : r.obeyed? p with
  | none =>
    rw [ho] at hm
    obtain ⟨ht, hw⟩ := Mode.mk.inj hm
    exact ⟨ht ▸ h, fun hn ↦ hw.trans hn⟩
  | some command =>
    have hc := Code.sparesScreen_iff.mp hp command (command?_of_obeyed? ho)
    rw [ho] at hm
    cases command with
    | rollUp _ | resumeDirect | eraseShown | endCaption => cases hc
    | resumeLoading =>
      obtain ⟨ht, hw⟩ := Mode.mk.inj hm
      exact ⟨ht ▸ nofun, fun _ ↦ hw⟩
    | resumeText =>
      obtain ⟨ht, hw⟩ := Mode.mk.inj hm
      exact ⟨ht ▸ nofun, fun hn ↦ hw.trans hn⟩
    | _ =>
      obtain ⟨ht, hw⟩ := Mode.mk.inj hm
      exact ⟨ht ▸ h, fun hn ↦ hw.trans hn⟩

/-! ### Runs that spare the screen -/

private theorem absorbs_of_spares (h : r.target ≠ some .shown) {ps : List BytePair}
    (hps : ∀ p ∈ ps, p.code.sparesScreen = true) :
    ∃ r', r.Absorbs ps r' ∧ r'.displayed = r.displayed ∧
      r'.shown = r.shown.rolledUp (r.rolls ps) := by
  induction ps generalizing r with
  | nil => exact ⟨r, .nil r, rfl, rfl⟩
  | cons p ps ih =>
    rw [List.forall_mem_cons] at hps
    have hq := step_quiet h hps.1
    obtain ⟨hd, hs⟩ := shown_step h hq
    obtain ⟨r', ha, hd', hs'⟩ := ih (mode_step_of_spares h hps.1).1 hps.2
    refine ⟨r', absorbs_cons.mpr ⟨hq, ha⟩, hd'.trans hd, ?_⟩
    rw [hs', hs, rolls, Memory.rolledUp, Memory.rolledUp, Memory.rolledUp, List.foldl_append]

/-- Where no window is open and none is opened, none is rolled up. -/
theorem rolls_of_window_none (h : r.target ≠ some .shown) (hw : r.window = none)
    {ps : List BytePair} (hps : ∀ p ∈ ps, p.code.sparesScreen = true) : r.rolls ps = [] := by
  induction ps generalizing r with
  | nil => rfl
  | cons p ps ih =>
    rw [List.forall_mem_cons] at hps
    obtain ⟨ht, hw'⟩ := mode_step_of_spares h hps.1
    have hroll : r.roll? p = none := by
      rw [roll?, hw]
      exact ite_self none
    rw [rolls, hroll, ih ht (hw' hw) hps.2]
    rfl

private theorem rolls_of_no_return {ps : List BytePair}
    (hps : ∀ p ∈ ps, p.code ≠ .control .one .carriageReturn) : r.rolls ps = [] := by
  induction ps generalizing r with
  | nil => rfl
  | cons p ps ih =>
    rw [List.forall_mem_cons] at hps
    have hroll : r.roll? p = none := by
      refine if_neg fun ho ↦ ?_
      have hc := command?_of_obeyed? ho
      cases hcode : p.code with
      | control channel command =>
        rw [hcode] at hc
        cases channel with
        | one => exact hps.1 (Option.some.inj hc ▸ hcode)
        | two => cases hc
      | _ =>
        rw [hcode] at hc
        cases hc
    rw [rolls, hroll, ih hps.2]
    rfl

/-! ### Turning away -/

/-- After a command what it sets is set, even where it is dropped as a copy. -/
theorem obeys_step (h : r.Reachable) {p : BytePair} {command : Command}
    (hp : p.code = .control .one command) : (r.step p).1.Obeys command := by
  have ha : r.Admits p := admits_of_interrupts (by rw [hp]; rfl)
  by_cases hd : r.Drops p
  · have hh := h.heeds
    rw [← hd.2.2, hp] at hh
    rw [step_of_drops hd]
    exact (hh.frame .zero false).command command rfl
  · rw [step_of_admits ha hd, hp]
    exact obeys_obey _ command

private theorem step_quiet_of_command {p : BytePair} {command : Command}
    (hp : p.code = .control .one command) (hc : command.reachesScreen = false) :
    (r.step p).2 = .quiet := by
  rcases r.step_cases p with ⟨-, last, inPacket, hs⟩ | ⟨-, hs⟩
  · rw [hs]
  · rw [hs, hp]
    exact obey_quiet _ hc

/-- An order to load and a change to the text service turn characters away from the screen and leave
it as it is. -/
theorem step_away (h : r.Reachable) {p : BytePair} {command : Command}
    (hp : p.code = .control .one command)
    (hc : command = .resumeLoading ∨ command = .resumeText) :
    (r.step p).2 = .quiet ∧ (r.step p).1.displayed = r.displayed ∧
      (r.step p).1.shown = r.shown ∧ (r.step p).1.target ≠ some .shown ∧ r.roll? p = none := by
  have hreach : command.reachesScreen = false := by
    rcases hc with rfl | rfl <;> rfl
  have hq : (r.step p).2 = .quiet := step_quiet_of_command hp hreach
  have ho {command' : Command} (ho : r.obeyed? p = some command') : command' = command := by
    have hcode := command?_of_obeyed? ho
    rw [hp] at hcode
    exact (Option.some.inj hcode).symm
  have htarget : (r.step p).1.target ≠ some .shown := by
    have hs := obeys_step h hp
    rcases hc with rfl | rfl
    · exact hs.1 ▸ nofun
    · exact (hs : _ = none) ▸ nofun
  obtain ⟨hd, hs⟩ := shown_step_of_quiet hq
  refine ⟨hq, hd, ?_, htarget, if_neg fun hr ↦ ?_⟩
  · rcases hs with hs | ⟨command', ho', hr⟩
    · exact hs
    · obtain rfl := ho ho'
      rcases hc with rfl | rfl <;> cases hr
  · obtain rfl := ho hr
    rcases hc with hc | hc <;> cases hc

/-- A change to the text service opens no window. -/
theorem window_step_of_resumeText {p : BytePair} (hp : p.code = .control .one .resumeText)
    (hw : r.window = none) : (r.step p).1.window = none := by
  have hm := r.mode_step p
  cases ho : r.obeyed? p with
  | none =>
    rw [ho] at hm
    exact (Mode.mk.inj hm).2.trans hw
  | some command =>
    have hcode := command?_of_obeyed? ho
    rw [hp] at hcode
    obtain rfl := Option.some.inj hcode
    rw [ho] at hm
    exact (Mode.mk.inj hm).2.trans hw

/-- Pairs that spare the screen are received quietly behind a command that turns away from it, and
what is shown changes by the windows alone that roll up. -/
theorem receiveAll_away (h : r.Reachable) {p : BytePair} {ps : List BytePair} {command : Command}
    (hparity : ∀ q ∈ p :: ps, q.parityHolds = true)
    (hp : p.stripped.code = .control .one command)
    (hc : command = .resumeLoading ∨ command = .resumeText)
    (hps : ∀ q ∈ ps, q.stripped.code.sparesScreen = true) :
    ∃ r', r.receiveAll (p :: ps) = .ok (r', List.replicate (ps.length + 1) .quiet) ∧
      r'.displayed = r.displayed ∧
      r'.shown = r.shown.rolledUp (r.rolls ((p :: ps).map BytePair.stripped)) := by
  obtain ⟨hq, hd, hs, ht, hroll⟩ := step_away h hp hc
  have hmap : ∀ q ∈ ps.map BytePair.stripped, q.code.sparesScreen = true :=
    List.forall_mem_map.mpr hps
  obtain ⟨r', ha, hd', hs'⟩ := absorbs_of_spares ht hmap
  have hall : r.Absorbs ((p :: ps).map BytePair.stripped) r' := absorbs_cons.mpr ⟨hq, ha⟩
  refine ⟨r', ?_, hd'.trans hd, ?_⟩
  · rw [receiveAll_of_parityHolds hparity, hall, List.length_map, List.length_cons]
  · rw [hs', hs, List.map_cons, rolls, hroll]
    rfl

/-- A caption is loaded unseen. From an order to load on, until a command reaches the screen, every
pair is heard quietly, and what is shown stays as it is. -/
theorem loads_unseen (h : r.Reachable) {p : BytePair} {ps : List BytePair}
    (hparity : ∀ q ∈ p :: ps, q.parityHolds = true)
    (hp : p.stripped.code = .control .one .resumeLoading)
    (hps : ∀ q ∈ ps, q.stripped.code.sparesScreen = true) :
    ∃ r', r.receiveAll (p :: ps) = .ok (r', List.replicate (ps.length + 1) .quiet) ∧
      r'.shown = r.shown ∧ r'.displayed = r.displayed := by
  obtain ⟨r', hall, hd, hs⟩ := receiveAll_away h hparity hp (.inl rfl) hps
  obtain ⟨-, -, -, ht, hroll⟩ := step_away h hp (.inl rfl)
  have hmap : ∀ q ∈ ps.map BytePair.stripped, q.code.sparesScreen = true :=
    List.forall_mem_map.mpr hps
  have hw : (r.step p.stripped).1.window = none := (obeys_step h hp).2
  refine ⟨r', hall, ?_, hd⟩
  rw [hs, List.map_cons, rolls, hroll, rolls_of_window_none ht hw hmap]
  rfl

/-- A caption is loaded behind one that rolls up, by an order that is taken for a copy: characters,
corrections and a carriage return, a change to the text service, channel two and a packet. -/
theorem loads_unseen_behind_window :
    let p : BytePair := ⟨0x94, 0x20⟩
    let ps : List BytePair :=
      [⟨0x94, 0x70⟩, ⟨0x43, 0xc4⟩, ⟨0x94, 0xad⟩, ⟨0x94, 0xa1⟩, ⟨0x94, 0xae⟩, ⟨0x92, 0x20⟩,
        ⟨0x94, 0x2a⟩, ⟨0x43, 0xc4⟩, ⟨0x1c, 0x2f⟩, ⟨0x01, 0x01⟩, ⟨0xc1, 0x80⟩, ⟨0x94, 0xa4⟩]
    ∃ r, fresh.receiveAll [⟨0x94, 0x25⟩, ⟨0xc8, 0x49⟩, ⟨0x94, 0x20⟩] =
        .ok (r, [.quiet, .shown, .quiet]) ∧
      r.Reachable ∧ r.text = .ok "HI" ∧ r.last = p.stripped ∧
      (∀ q ∈ p :: ps, q.parityHolds = true) ∧
      p.stripped.code = .control .one .resumeLoading ∧
      (∀ q ∈ ps, q.stripped.code.sparesScreen = true) ∧
      ∃ r', r.receiveAll (p :: ps) = .ok (r', List.replicate 13 .quiet) ∧
        r'.shown = r.shown ∧ r'.displayed = r.displayed := by
  intro p ps
  let r := (fresh.stepAll [⟨0x14, 0x25⟩, ⟨0x48, 0x49⟩, ⟨0x14, 0x20⟩]).1
  have hs : fresh.receiveAll [⟨0x94, 0x25⟩, ⟨0xc8, 0x49⟩, ⟨0x94, 0x20⟩] =
      .ok (r, [.quiet, .shown, .quiet]) :=
    (receiveAll_of_parityHolds (by decide +kernel) _).trans
      (congrArg Except.ok (by decide +kernel))
  have hr : r.Reachable := Reachable.fresh.receiveAll hs
  have htext : r.text = .ok "HI" :=
    (if_pos (by decide +kernel)).trans (congrArg Except.ok (by decide +kernel))
  have hparity : ∀ q ∈ p :: ps, q.parityHolds = true := by decide +kernel
  have hp : p.stripped.code = .control .one .resumeLoading := by decide +kernel
  have hps : ∀ q ∈ ps, q.stripped.code.sparesScreen = true := by decide +kernel
  exact ⟨r, hs, hr, htext, by decide +kernel, hparity, hp, hps, loads_unseen hr hparity hp hps⟩

/-- The text service leaves the screen alone, but for the window that was open before it. From the
change to the text service on, until a command reaches the screen, every pair is heard quietly, and
what is shown is rolled up at each carriage return that finds the window still open. It stays as it
is if no window was open or no carriage return comes. -/
theorem text_service_rolls_open_window (h : r.Reachable) {p : BytePair} {ps : List BytePair}
    (hparity : ∀ q ∈ p :: ps, q.parityHolds = true)
    (hp : p.stripped.code = .control .one .resumeText)
    (hps : ∀ q ∈ ps, q.stripped.code.sparesScreen = true) :
    ∃ r', r.receiveAll (p :: ps) = .ok (r', List.replicate (ps.length + 1) .quiet) ∧
      r'.displayed = r.displayed ∧
      r'.shown = r.shown.rolledUp (r.rolls ((p :: ps).map BytePair.stripped)) ∧
      (r.window = none ∨ (∀ q ∈ ps, q.stripped.code ≠ .control .one .carriageReturn) →
        r'.shown = r.shown) := by
  obtain ⟨r', hall, hd, hs⟩ := receiveAll_away h hparity hp (.inr rfl) hps
  obtain ⟨-, -, -, ht, hroll⟩ := step_away h hp (.inr rfl)
  refine ⟨r', hall, hd, hs, fun hno ↦ ?_⟩
  have hrolls : r.rolls ((p :: ps).map BytePair.stripped) = [] := by
    rw [List.map_cons, rolls, hroll]
    rcases hno with hw | hreturn
    · have hmap : ∀ q ∈ ps.map BytePair.stripped, q.code.sparesScreen = true :=
        List.forall_mem_map.mpr hps
      exact rolls_of_window_none ht (window_step_of_resumeText hp hw) hmap
    · exact rolls_of_no_return (List.forall_mem_map.mpr hreturn)
  rw [hs, hrolls]
  rfl

/-- A caption that rolls up is rolled off the screen while the text service goes on. -/
theorem text_service_rolls_open_window_off_screen :
    let p : BytePair := ⟨0x94, 0x2a⟩
    let ps : List BytePair := [⟨0x94, 0xad⟩, ⟨0xc1, 0xc2⟩, ⟨0x94, 0xad⟩]
    ∃ r r', fresh.receiveAll [⟨0x94, 0x25⟩, ⟨0xc8, 0x49⟩] = .ok (r, [.quiet, .shown]) ∧
      r.Reachable ∧ r.text = .ok "HI" ∧
      (∀ q ∈ p :: ps, q.parityHolds = true) ∧
      p.stripped.code = .control .one .resumeText ∧
      (∀ q ∈ ps, q.stripped.code.sparesScreen = true) ∧
      r.receiveAll (p :: ps) = .ok (r', List.replicate 4 .quiet) ∧ r'.text = .ok "" := by
  intro p ps
  let r := (fresh.stepAll [⟨0x14, 0x25⟩, ⟨0x48, 0x49⟩]).1
  have hs : fresh.receiveAll [⟨0x94, 0x25⟩, ⟨0xc8, 0x49⟩] = .ok (r, [.quiet, .shown]) :=
    (receiveAll_of_parityHolds (by decide +kernel) _).trans
      (congrArg Except.ok (by decide +kernel))
  have hr : r.Reachable := Reachable.fresh.receiveAll hs
  have hdisplayed : r.displayed = true := by decide +kernel
  have htext : r.text = .ok "HI" :=
    (if_pos hdisplayed).trans (congrArg Except.ok (by decide +kernel))
  have hparity : ∀ q ∈ p :: ps, q.parityHolds = true := by decide +kernel
  have hp : p.stripped.code = .control .one .resumeText := by decide +kernel
  have hps : ∀ q ∈ ps, q.stripped.code.sparesScreen = true := by decide +kernel
  obtain ⟨r', hall, hd, hshown, -⟩ := text_service_rolls_open_window hr hparity hp hps
  have hempty : r.shown.rolledUp (r.rolls ((p :: ps).map BytePair.stripped)) = .empty := by
    decide +kernel
  refine ⟨r, r', hs, hr, htext, hparity, hp, hps, hall, ?_⟩
  rw [text, hd, if_pos hdisplayed, hshown, hempty]
  exact congrArg Except.ok (by decide +kernel)

end Receiver

end Line21
