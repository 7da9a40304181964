import Line21.Proofs.Receiver.Channels
import Line21.Proofs.Receiver.Loading

/-!
# Correcting the last character

A character that was just written can be taken back, or an extended character can take its place.
Either way it is looked for before the cursor. The cursor does not leave the last column, so that
a character that was written there is not found: it stays, and the one before it is corrected in
its stead. Main statement: every other character that was just written is corrected itself.
-/

namespace Line21

/-- The column that is corrected when a column was written last: that column, or at the right edge
the one before it. -/
def Column.corrected (c : Column) : Column := ⟨min c.val 30, by omega⟩

private theorem Column.back?_advance (c : Column) : (c.advance 1).back? = some c.corrected := by
  have hv : (c.advance 1).val = min c.val 30 + 1 := by
    rw [val_advance]
    omega
  have hne : min c.val 30 + 1 ≠ 0 := Nat.succ_ne_zero _
  simp only [back?, hv, if_neg hne, Nat.add_sub_cancel, corrected]

private theorem Column.corrected_of_ne_last {c : Column} (h : c ≠ .last) : c.corrected = c := by
  have hv : c.val ≠ 31 := fun he ↦ h (Fin.ext he)
  apply Fin.ext
  change min c.val 30 = c.val
  omega

/-- What a code leaves in place of the character before the cursor: no character, or another. -/
def Code.correction? : Code → Option (Option Char)
  | .control .one .backspace => some none
  | .extended x => some (some x)
  | _ => none

private theorem Code.correction?_eq_some {c : Code} {z : Option Char} (h : c.correction? = some z) :
    (c = .control .one .backspace ∧ z = none) ∨ ∃ x, c = .extended x ∧ z = some x := by
  unfold correction? at h
  split at h
  · exact .inl ⟨rfl, (Option.some.inj h).symm⟩
  · next x => exact .inr ⟨x, rfl, (Option.some.inj h).symm⟩
  · cases h

namespace Receiver

variable {r : Receiver} {plane : Plane}

/-- A cell of one memory is set, and the cursor stands in some column of the same row. -/
structure Puts (r : Receiver) (plane : Plane) (column : Column) (z : Option Char)
    (cursor : Column) (r' : Receiver) : Prop where
  memory : ∀ other, r'.memory other =
    if other = plane then (r.memory plane).put r.row column z else r.memory other
  row : r'.row = r.row
  column : r'.column = cursor

/-- A character is put in its column, with the cursor behind it. -/
theorem puts_putInto (r : Receiver) (plane : Plane) (column : Column) (x : Char) :
    r.Puts plane column (some x) (column.advance 1) (r.putInto plane column x).1 := by
  cases plane <;> exact ⟨fun other ↦ by cases other <;> rfl, rfl, rfl⟩

private theorem puts_backspace (h : r.target = some plane) {column : Column}
    (hc : r.column.back? = some column) : r.Puts plane column none column r.backspace := by
  have hb : r.backspace = { r.edit (·.put r.row column none) with column := column } := by
    unfold backspace
    rw [h, hc]
  rw [hb, edit, h]
  cases plane <;> exact ⟨fun other ↦ by cases other <;> rfl, rfl, rfl⟩

/-- The cursor behind a cell that was set to a character or emptied. -/
def cursorBehind (column : Column) : Option Char → Column
  | none => column
  | some _ => column.advance 1

/-- A receiver is ready to write a memory: it hears characters of channel one outside of packets,
and they go to the memory. -/
structure Hears (r : Receiver) (plane : Plane) : Prop where
  inPacket : r.inPacket = false
  channel : r.channel = .one
  target : r.target = some plane

private theorem step_single (h : r.Hears plane) {p : BytePair} {x : Char}
    (hp : p.code = .basic [x]) :
    r.Puts plane r.column (some x) (r.column.advance 1) (r.step p).1 ∧
      (r.step p).1.Hears plane ∧ (r.step p).1.last.code.isDoubled = false := by
  have hs : r.step p = ({ r with last := p } : Receiver).putInto plane r.column x := by
    rw [step_of_code hp rfl h.inPacket nofun, act, if_pos h.channel]
    exact write_singleton (r := { r with last := p }) h.target x
  have hx := puts_putInto { r with last := p } plane r.column x
  rw [hs]
  refine ⟨⟨hx.memory, hx.row, hx.column⟩, ?_, ?_⟩
  · cases plane <;> exact ⟨h.inPacket, h.channel, h.target⟩
  · cases plane <;> exact congrArg Code.isDoubled hp

private theorem step_correction (h : r.Hears plane) (hl : r.last.code.isDoubled = false)
    {column : Column} (hb : r.column.back? = some column) {q : BytePair} {z : Option Char}
    (hq : q.code.correction? = some z) :
    r.Puts plane column z (cursorBehind column z) (r.step q).1 := by
  rcases Code.correction?_eq_some hq with ⟨hc, rfl⟩ | ⟨y, hc, rfl⟩
  · have hne : r.last.code ≠ .control .one .backspace := by
      intro he
      rw [he] at hl
      cases hl
    have hz := puts_backspace (r := { r with last := q, channel := .one }) h.target hb
    rw [step_of_code hc rfl h.inPacket fun _ ↦ hne]
    exact ⟨hz.memory, hz.row, hz.column⟩
  · have hz := puts_putInto { r with last := q } plane column y
    rw [step_of_code hc rfl h.inPacket nofun, act, if_pos h.channel,
      write_backspace (r := { r with last := q }) h.target, hb]
    exact ⟨hz.memory, hz.row, hz.column⟩

/-- A basic character that was just written is corrected itself, unless it stands in the last
column. The cursor does not move on from there, so that the character stays and the one before it
is corrected. -/
theorem corrects_unless_at_edge (h : r.Hears plane) {p q : BytePair}
    (hparity : ∀ p' ∈ [p, q], p'.parityHolds = true) {x : Char}
    (hp : p.stripped.code = .basic [x]) {z : Option Char}
    (hq : q.stripped.code.correction? = some z) :
    ∃ r' moments, r.receiveAll [p, q] = .ok (r', moments) ∧ r'.row = r.row ∧
      (∀ other, other ≠ plane → r'.memory other = r.memory other) ∧
      (r.column ≠ .last → r'.column = cursorBehind r.column z ∧
        r'.memory plane = (r.memory plane).put r.row r.column z) ∧
      (r.column = .last → r'.column = cursorBehind 30 z ∧
        r'.memory plane = ((r.memory plane).put r.row .last (some x)).put r.row 30 z) := by
  obtain ⟨hx, hh, hl⟩ := step_single h hp
  have hb : (r.step p.stripped).1.column.back? = some r.column.corrected := by
    rw [hx.column]
    exact r.column.back?_advance
  have hz := step_correction hh hl hb hq
  have hrow := hz.row.trans hx.row
  have hmemory : ((r.step p.stripped).1.step q.stripped).1.memory plane =
      ((r.memory plane).put r.row r.column (some x)).put r.row r.column.corrected z := by
    rw [hz.memory, if_pos rfl, hx.memory, if_pos rfl, hx.row]
  refine ⟨_, _, receiveAll_of_parityHolds hparity r, hrow, fun other ho ↦ ?_, fun hne ↦ ?_,
    fun he ↦ ?_⟩
  · exact (hz.memory other).trans ((if_neg ho).trans ((hx.memory other).trans (if_neg ho)))
  · rw [Column.corrected_of_ne_last hne] at hz hmemory
    rw [Memory.put_put] at hmemory
    exact ⟨hz.column, hmemory⟩
  · rw [he] at hz hmemory
    exact ⟨hz.column, hmemory⟩

/-- At the right edge an extended character that is to take the place of a basic one takes that of
the cell before. -/
theorem corrects_unless_at_edge_of_row :
    let p : BytePair := ⟨0xc1, 0x80⟩
    let q : BytePair := ⟨0x92, 0x20⟩
    ∃ r r' moments, fresh.receiveAll [⟨0x94, 0x29⟩, ⟨0x94, 0xfe⟩, ⟨0x97, 0x23⟩] =
        .ok (r, [.quiet, .quiet, .quiet]) ∧
      r.Hears .shown ∧ r.column = .last ∧
      (∀ p' ∈ [p, q], p'.parityHolds = true) ∧
      p.stripped.code = .basic ['A'] ∧ q.stripped.code.correction? = some (some 'Á') ∧
      r.receiveAll [p, q] = .ok (r', moments) ∧ r'.shown.text = "ÁA" := by
  intro p q
  let r := (fresh.stepAll [⟨0x14, 0x29⟩, ⟨0x14, 0x7e⟩, ⟨0x17, 0x23⟩]).1
  have hs : fresh.receiveAll [⟨0x94, 0x29⟩, ⟨0x94, 0xfe⟩, ⟨0x97, 0x23⟩] =
      .ok (r, [.quiet, .quiet, .quiet]) :=
    (receiveAll_of_parityHolds (by decide +kernel) _).trans
      (congrArg Except.ok (by decide +kernel))
  have hh : r.Hears .shown := ⟨by decide +kernel, by decide +kernel, by decide +kernel⟩
  have hcolumn : r.column = .last := by decide +kernel
  have hparity : ∀ p' ∈ [p, q], p'.parityHolds = true := by decide +kernel
  have hp : p.stripped.code = .basic ['A'] := by decide +kernel
  have hq : q.stripped.code.correction? = some (some 'Á') := by decide +kernel
  obtain ⟨r', moments, hall, -, -, -, hedge⟩ := corrects_unless_at_edge hh hparity hp hq
  refine ⟨r, r', moments, hs, hh, hcolumn, hparity, hp, hq, hall, ?_⟩
  have hshown : r'.shown = (r.shown.put r.row .last (some 'A')).put r.row 30 (some 'Á') :=
    (hedge hcolumn).2
  rw [hshown]
  decide +kernel

end Receiver

end Line21
