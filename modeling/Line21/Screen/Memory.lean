import Line21.Text.Blank

/-!
# Caption memories

A caption memory is a grid of cells that are empty or hold a character; a space that was
written is a character. It has fifteen rows of thirty-two columns, counted from zero at the top
left. Every operation is described by the cells it leaves behind, and memories with equal cells
are equal.
-/

namespace Line21

/-! ### Positions -/

/-- A row of a memory, from the top. -/
abbrev Row := Fin 15

/-- A column of a memory, from the left. -/
abbrev Column := Fin 32

/-- There is a top row. -/
instance instNeZeroRows : @NeZero Nat Zero.ofOfNat0 15 := ⟨by decide⟩

/-- There is a leftmost column. -/
instance instNeZeroColumns : @NeZero Nat Zero.ofOfNat0 32 := ⟨by decide⟩

namespace Column

/-- The rightmost column. -/
def last : Column := Fin.last 31

/-- The column some places further right, but no further than the last. -/
def advance (c : Column) (n : Nat) : Column := ⟨min (c.val + n) 31, by omega⟩

/-- The column to the left, unless there is none. -/
def back? (c : Column) : Option Column :=
  if c.val = 0 then none else some ⟨c.val - 1, by omega⟩

/-- Advancing adds, up to the last column. -/
theorem val_advance (c : Column) (n : Nat) : (c.advance n).val = min (c.val + n) 31 := rfl

/-- Advancing by nothing stays. -/
theorem advance_zero (c : Column) : c.advance 0 = c := by
  apply Fin.ext
  have := c.isLt
  simp only [val_advance]
  omega

/-- Advancing twice is advancing by the sum. -/
theorem advance_advance (c : Column) (m n : Nat) :
    (c.advance m).advance n = c.advance (m + n) := by
  apply Fin.ext
  simp only [val_advance]
  omega

/-- Back from the next column is the column itself, unless it is the last. -/
theorem back?_advance_one {c : Column} (h : c.val < 31) : (c.advance 1).back? = some c := by
  have hv : (c.advance 1).val = c.val + 1 := by
    rw [val_advance]
    omega
  have hne : c.val + 1 ≠ 0 := by omega
  simp only [back?, hv, if_neg hne, Nat.add_sub_cancel]

/-- Only the first column has none to its left. -/
theorem back?_eq_none_iff {c : Column} : c.back? = none ↔ c.val = 0 := by
  unfold back?
  split
  · next h => exact ⟨fun _ ↦ h, fun _ ↦ rfl⟩
  · next h => exact ⟨nofun, fun hz ↦ absurd hz h⟩

/-- A column that lies left of another is not the last. -/
theorem val_lt_of_back? {c d : Column} (h : c.back? = some d) : d.val < 31 := by
  unfold back? at h
  split at h
  · cases h
  · cases h
    dsimp only
    omega

end Column

/-- How many rows a roll-up caption keeps on the screen. -/
inductive Depth
  | two
  | three
  | four
  deriving DecidableEq, Repr

/-- The number of rows of a roll-up caption. -/
def Depth.rows : Depth → Nat
  | .two => 2
  | .three => 3
  | .four => 4

/-- A roll-up caption keeps a row. -/
theorem Depth.rows_pos (depth : Depth) : 0 < depth.rows := by
  cases depth <;> decide

/-! ### Memories -/

/-- Fifteen rows of thirty-two cells, each empty or holding a character. -/
structure Memory where
  rows : Vector (Vector (Option Char) 32) 15
  deriving DecidableEq, Repr

namespace Memory

/-- The cells of a row. -/
def row (m : Memory) (r : Row) : Vector (Option Char) 32 := m.rows[r]

/-- The cell at a position. -/
def cell (m : Memory) (r : Row) (c : Column) : Option Char := (m.row r)[c]

/-- The memory whose cells are given. -/
def ofCells (f : Row → Column → Option Char) : Memory := ⟨Vector.ofFn fun r ↦ Vector.ofFn (f r)⟩

/-- A row without characters. -/
def emptyRow : Vector (Option Char) 32 := Vector.replicate 32 none

/-- The memory without characters. -/
def empty : Memory := ⟨Vector.replicate 15 emptyRow⟩

/-- Set one cell. -/
def put (m : Memory) (r : Row) (c : Column) (x : Option Char) : Memory :=
  ⟨m.rows.set r.val ((m.row r).set c.val x c.isLt) r.isLt⟩

/-- Empty a row from a column to its end. -/
def eraseFrom (m : Memory) (r : Row) (c : Column) : Memory :=
  ⟨m.rows.set r.val (Vector.ofFn fun k ↦ if c ≤ k then none else m.cell r k) r.isLt⟩

/-- The top row of the roll-up window that stands on a base row. -/
def windowTop (base : Row) (depth : Depth) : Nat := base.val - (depth.rows - 1)

/-- Roll the window that stands on a base row up by a row. Its top row is lost, its base row
and all rows above the window become empty, and rows below the base stay. -/
def rollUp (m : Memory) (base : Row) (depth : Depth) : Memory :=
  ⟨Vector.ofFn fun r ↦
    if h : r.val < base.val then
      if windowTop base depth ≤ r.val then m.row ⟨r.val + 1, by omega⟩ else emptyRow
    else if r = base then emptyRow
    else m.row r⟩

/-- The characters of a row of cells from left to right, trimmed. -/
def lineOf (cells : Vector (Option Char) 32) : List Char :=
  Text.trim (cells.toList.filterMap id)

/-- The rows that are not blank, as lines from the top. -/
def lines (m : Memory) : List (List Char) :=
  (m.rows.toList.map lineOf).filter (!·.isEmpty)

/-- The memory as text: its lines, joined by line breaks. -/
def text (m : Memory) : String := "\r\n".intercalate (m.lines.map String.ofList)

/-- The maximal runs of characters in a list of cells, with the position at which each run
starts when the first cell stands at a given position. -/
def runsFrom (start : Nat) : List (Option Char) → List (Nat × List Char)
  | [] => []
  | none :: rest => runsFrom (start + 1) rest
  | some x :: rest =>
    match rest.head?, runsFrom (start + 1) rest with
    | some (some _), (_, xs) :: runs => (start, x :: xs) :: runs
    | _, runs => (start, [x]) :: runs

/-- The maximal horizontal runs of characters: row, first column and characters. -/
def runs (m : Memory) : List (Nat × Nat × List Char) :=
  m.rows.toList.zipIdx.flatMap fun (cells, r) ↦ (runsFrom 0 cells.toList).map (r, ·)

/-- Memories with equal cells are equal. -/
@[ext] theorem ext {m n : Memory} (h : ∀ r c, m.cell r c = n.cell r c) : m = n := by
  cases m with
  | mk a =>
    cases n with
    | mk b =>
      congr 1
      apply Vector.ext
      intro r hr
      apply Vector.ext
      intro c hc
      exact h ⟨r, hr⟩ ⟨c, hc⟩

/-- A memory has the cells it is made of. -/
@[simp] theorem cell_ofCells (f : Row → Column → Option Char) (r : Row) (c : Column) :
    (ofCells f).cell r c = f r c := by
  simp [ofCells, cell, row, Fin.getElem_fin]

/-- The empty memory has empty cells. -/
@[simp] theorem cell_empty (r : Row) (c : Column) : empty.cell r c = none := by
  simp [empty, emptyRow, cell, row, Fin.getElem_fin]

/-- Setting a cell changes that cell alone. -/
theorem cell_put (m : Memory) (r : Row) (c : Column) (x : Option Char) (r' : Row) (c' : Column) :
    (m.put r c x).cell r' c' = if r' = r ∧ c' = c then x else m.cell r' c' := by
  simp only [put, cell, row, Fin.getElem_fin, Vector.getElem_set, Fin.ext_iff]
  by_cases hr : r.val = r'.val
  · by_cases hc : c.val = c'.val
    · simp [hr, hc]
    · simp [hr, hc, Ne.symm hc]
  · simp [hr, Ne.symm hr]

/-- Setting a cell again leaves nothing of the value it had. -/
theorem put_put (m : Memory) (r : Row) (c : Column) (x y : Option Char) :
    (m.put r c x).put r c y = m.put r c y := by
  ext r' c'
  rw [cell_put, cell_put, cell_put]
  split <;> rfl

/-- Erasing to the end of a row empties the row's cells from the column on. -/
theorem cell_eraseFrom (m : Memory) (r : Row) (c : Column) (r' : Row) (c' : Column) :
    (m.eraseFrom r c).cell r' c' = if r' = r ∧ c ≤ c' then none else m.cell r' c' := by
  simp only [eraseFrom, cell, row, Fin.getElem_fin, Vector.getElem_set, Fin.ext_iff]
  by_cases hr : r.val = r'.val
  · by_cases hc : c ≤ c'
    · simp [hr, hc]
    · simp [hr, hc]
  · simp [hr, Ne.symm hr]

/-- What rolling up leaves in a cell. -/
theorem cell_rollUp (m : Memory) (base : Row) (depth : Depth) (r : Row) (c : Column) :
    (m.rollUp base depth).cell r c =
      if h : r.val < base.val then
        if windowTop base depth ≤ r.val then m.cell ⟨r.val + 1, by omega⟩ c else none
      else if r = base then none
      else m.cell r c := by
  simp only [rollUp, cell, row, Fin.getElem_fin, Vector.getElem_ofFn]
  split
  · split <;> simp [emptyRow]
  · split <;> simp [emptyRow]

end Memory

end Line21
