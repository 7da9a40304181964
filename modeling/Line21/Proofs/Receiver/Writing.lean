import Line21.Proofs.Screen.Layout
import Line21.Receiver

/-!
# Writing

Writing characters is typing them into the memory that characters go to and leaving the cursor
behind the last. Each operation on the target is given by one equation for each target.
-/

namespace Line21

namespace Receiver

/-- The memory of a receiver that is shown or hidden. -/
def memory (r : Receiver) : Plane → Memory
  | .shown => r.shown
  | .hidden => r.hidden

/-- A receiver with another memory shown or hidden. -/
def withMemory (r : Receiver) (plane : Plane) (m : Memory) : Receiver :=
  match plane with
  | .shown => { r with shown := m }
  | .hidden => { r with hidden := m }

/-- Changing the target is changing the memory that characters go to. -/
theorem edit_of_target {r : Receiver} {plane : Plane} (h : r.target = some plane)
    (f : Memory → Memory) : r.edit f = r.withMemory plane (f (r.memory plane)) := by
  cases plane <;> simp only [edit, h, withMemory, memory]

/-- A memory that was put in a receiver's place is there. -/
theorem memory_withMemory (r : Receiver) (plane : Plane) (m : Memory) :
    (r.withMemory plane m).memory plane = m := by
  cases plane <;> rfl

/-- Only the memory that was put last counts. -/
theorem withMemory_withMemory (r : Receiver) (plane : Plane) (m n : Memory) :
    (r.withMemory plane m).withMemory plane n = r.withMemory plane n := by
  cases plane <;> rfl

/-- Putting the memory that is there changes nothing. -/
theorem withMemory_memory (r : Receiver) (plane : Plane) :
    r.withMemory plane (r.memory plane) = r := by
  cases plane <;> rfl

/-- Typing a character keeps the target. -/
theorem target_type (r : Receiver) (x : Char) : (r.type x).target = r.target := by
  rcases r with ⟨_, _, _, _, target, _⟩
  cases target with
  | none => rfl
  | some plane => cases plane <;> rfl

/-- Typing characters leaves the cursor behind them and changes the target alone. -/
theorem foldl_type (r : Receiver) (chars : List Char) :
    chars.foldl type r =
      { r.edit (·.typed r.row r.column chars) with column := r.column.advance chars.length } := by
  induction chars generalizing r with
  | nil =>
    rcases r with ⟨_, _, _, column, target, _⟩
    have hc : column.advance 0 = column := column.advance_zero
    cases target with
    | none => simp only [List.foldl_nil, edit, List.length_nil, hc]
    | some plane =>
      cases plane <;> simp only [List.foldl_nil, edit, Memory.typed, List.length_nil, hc]
  | cons x xs ih =>
    rw [List.foldl_cons, ih]
    rcases r with ⟨_, _, _, column, target, _⟩
    have hc : (column.advance 1).advance xs.length = column.advance (xs.length + 1) := by
      rw [Column.advance_advance, Nat.add_comm]
    cases target with
    | none => simp only [type, edit, List.length_cons, hc]
    | some plane => cases plane <;> simp only [type, edit, Memory.typed, List.length_cons, hc]

/-- Taking back a character keeps the target. -/
theorem target_backspace (r : Receiver) : r.backspace.target = r.target := by
  rcases r with ⟨_, _, _, column, target, _⟩
  unfold backspace
  cases target with
  | none => rfl
  | some plane =>
    dsimp only
    cases column.back? with
    | none => rfl
    | some c => cases plane <;> rfl

/-- Nothing is taken back while there is no target. -/
theorem backspace_of_none {r : Receiver} (h : r.target = none) : r.backspace = r := by
  unfold backspace
  rw [h]

/-- Writing goes nowhere while there is no target. -/
theorem write_of_none {r : Receiver} (h : r.target = none) (chars : List Char) :
    r.write chars = (r, .quiet) := by
  unfold write
  rw [h]

/-- Writing into the hidden memory is quiet. -/
theorem write_of_hidden {r : Receiver} (h : r.target = some .hidden) (chars : List Char) :
    r.write chars =
      ({ r with
          hidden := r.hidden.typed r.row r.column chars
          column := r.column.advance chars.length }, .quiet) := by
  unfold write
  rw [foldl_type, edit, h]

/-- Writing into the shown memory shows a caption. -/
theorem write_of_shown {r : Receiver} (h : r.target = some .shown) (chars : List Char) :
    r.write chars =
      ({ r with
          shown := r.shown.typed r.row r.column chars
          column := r.column.advance chars.length
          displayed := true }, .shown) := by
  unfold write
  rw [foldl_type, edit, h]

end Receiver

end Line21
