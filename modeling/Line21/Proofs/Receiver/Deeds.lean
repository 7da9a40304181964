import Line21.Proofs.Receiver.Masks

/-!
# Bare receivers do as receivers do

A receiver has a bare form. What a bare receiver does in it, to cells, rows and the cursor, it
does without a stop, and it ends in the bare form of the receiver that did the same.
-/

namespace Line21

namespace Memory

/-- A memory as a list of rows. -/
def grid (m : Memory) : Grid := m.rows.toList.map Vector.toList

/-- A memory with another row. -/
def setRow (m : Memory) (row : Row) (cells : Vector (Option Char) 32) : Memory :=
  ⟨m.rows.setIfInBounds row.val cells⟩

/-- Only the row that is set changes. -/
theorem cell_setRow (m : Memory) (row : Row) (cells : Vector (Option Char) 32) (r : Row)
    (c : Column) : (m.setRow row cells).cell r c = if r = row then cells.get c else m.cell r c := by
  have hc : cells.get c = cells[c.val] := rfl
  simp only [setRow, cell, Memory.row, Fin.getElem_fin, Vector.getElem_setIfInBounds, Fin.ext_iff,
    hc]
  by_cases h : row.val = r.val
  · simp [h]
  · simp [h, Ne.symm h]

private theorem setRow_set (m : Memory) (row : Row) (column : Column) (x : Option Char) :
    m.setRow row ((m.row row).set column.val x column.isLt) = m.put row column x := by
  ext r c
  have hc : ((m.row row).set column.val x column.isLt).get c =
      if column.val = c.val then x else m.cell row c := Vector.getElem_set column.isLt c.isLt
  rw [cell_setRow, cell_put, hc]
  simp only [Fin.ext_iff]
  grind

/-- A memory has fifteen rows. -/
theorem length_grid (m : Memory) : m.grid.length = 15 := by
  rw [grid, List.length_map, Vector.length_toList]

/-- The rows of a memory stand in their places. -/
theorem getElem?_grid (m : Memory) (row : Row) :
    m.grid[row.val]? = some (m.row row).toList := by
  have hrow : row.val < m.rows.toList.length := by
    rw [Vector.length_toList]
    exact row.isLt
  rw [grid, List.getElem?_map, List.getElem?_eq_getElem hrow, Vector.getElem_toList]
  rfl

private theorem grid_setRow (m : Memory) (row : Row) (cells : Vector (Option Char) 32) :
    (m.setRow row cells).grid = m.grid.set row.val cells.toList := by
  rw [grid, setRow, grid, Vector.toList_setIfInBounds, List.map_set]

/-- A memory with some columns of a row empty. -/
def erasedBetween (m : Memory) (row : Row) (first next : Nat) : Memory :=
  ofCells fun r c ↦ if r = row ∧ first ≤ c.val ∧ c.val < next then none else m.cell r c

/-- A memory in which some rows hold what stands below them. -/
def copiedUp (m : Memory) (first next : Nat) : Memory :=
  ofCells fun r c ↦
    if h : first ≤ r.val ∧ r.val < next ∧ r.val + 1 < 15 then m.cell ⟨r.val + 1, h.2.2⟩ c
    else m.cell r c

/-- A memory with its top rows empty. -/
def clearedAbove (m : Memory) (next : Nat) : Memory :=
  ofCells fun r c ↦ if r.val < next then none else m.cell r c

private theorem erasedBetween_self (m : Memory) (row : Row) (column : Nat) :
    m.erasedBetween row column column = m := by
  ext r c
  rw [erasedBetween, cell_ofCells, if_neg (by omega)]

private theorem copiedUp_self (m : Memory) (first : Nat) : m.copiedUp first first = m := by
  ext r c
  rw [copiedUp, cell_ofCells, dif_neg (by omega)]

private theorem clearedAbove_zero (m : Memory) : m.clearedAbove 0 = m := by
  ext r c
  rw [clearedAbove, cell_ofCells, if_neg r.val.not_lt_zero]

private theorem put_erasedBetween (m : Memory) (row : Row) (column : Column) {first : Nat}
    (h : first ≤ column.val) :
    (m.erasedBetween row first column.val).put row column none =
      m.erasedBetween row first (column.val + 1) := by
  ext r c
  simp only [cell_put, erasedBetween, cell_ofCells, Fin.ext_iff]
  grind

private theorem setRow_copiedUp (m : Memory) (row : Row) {first : Nat} (h : first ≤ row.val)
    (hnext : row.val + 1 < 15) :
    (m.copiedUp first row.val).setRow row ((m.copiedUp first row.val).row ⟨row.val + 1, hnext⟩) =
      m.copiedUp first (row.val + 1) := by
  ext r c
  have hc : ((m.copiedUp first row.val).row ⟨row.val + 1, hnext⟩).get c =
      (m.copiedUp first row.val).cell ⟨row.val + 1, hnext⟩ c := rfl
  rw [cell_setRow, hc]
  simp only [copiedUp, cell_ofCells, Fin.ext_iff]
  grind

private theorem setRow_clearedAbove (m : Memory) (row : Row) :
    (m.clearedAbove row.val).setRow row emptyRow = m.clearedAbove (row.val + 1) := by
  ext r c
  have hc : emptyRow.get c = none := cell_empty 0 c
  rw [cell_setRow, hc]
  simp only [clearedAbove, cell_ofCells, Fin.ext_iff]
  grind

private theorem erasedBetween_last (m : Memory) (row : Row) (column : Column) :
    m.erasedBetween row column.val 32 = m.eraseFrom row column := by
  ext r c
  simp only [erasedBetween, cell_ofCells, cell_eraseFrom, Fin.le_def]
  grind

private theorem clearedAbove_setRow_copiedUp (m : Memory) (base : Row) (depth : Depth) :
    ((m.copiedUp (windowTop base depth) base.val).setRow base emptyRow).clearedAbove
      (windowTop base depth) = m.rollUp base depth := by
  ext r c
  have hc : emptyRow.get c = none := cell_empty 0 c
  have htop : windowTop base depth ≤ base.val := Nat.sub_le _ _
  simp only [clearedAbove, cell_ofCells, cell_setRow, hc, copiedUp, cell_rollUp, Fin.ext_iff]
  grind

/-- The memory without characters has rows without any. -/
theorem grid_empty : empty.grid = Bare.emptyGrid := by
  decide +kernel

/-- Emptying each cell of a memory empties it. -/
theorem map_grid (m : Memory) : m.grid.map (·.map fun _ ↦ none) = empty.grid := by
  have hrow (cells : Vector (Option Char) 32) :
      cells.toList.map (fun _ ↦ none) = Bare.emptyRow := by
    rw [List.map_const', Vector.length_toList, Bare.emptyRow]
  rw [grid_empty, grid, List.map_map, Bare.emptyGrid]
  have hc : (List.map fun _ ↦ (none : Option Char)) ∘ Vector.toList =
      fun _ : Vector (Option Char) 32 ↦ Bare.emptyRow := funext hrow
  rw [hc, List.map_const', Vector.length_toList]

end Memory

namespace Receiver

/-- A receiver on bare numbers. -/
def bare (r : Receiver) : Bare where
  shown := r.shown.grid
  hidden := r.hidden.grid
  row := r.row.val
  column := r.column.val
  target := r.target
  depth := (r.window.elim 0 Depth.rows : Nat)
  channel := r.channel.number
  last := r.last.toNat
  inPacket := r.inPacket
  displayed := r.displayed

end Receiver

open Bare (Deed)

/-- A deed takes one receiver to another and has a result, without a stop. -/
def Bare.Deed.Takes {α : Type} (x : Deed α) (r : Receiver) (a : α) (r' : Receiver) : Prop :=
  x r.bare = .ok a r'.bare

namespace Bare.Deed

variable {α β : Type} {r r' r'' : Receiver}

/-- Doing nothing takes a receiver to itself. -/
theorem takes_pure (r : Receiver) (a : α) : (pure a : Deed α).Takes r a r := rfl

/-- Deeds follow each other. -/
theorem Takes.bind {x : Deed α} {f : α → Deed β} {a : α} {b : β} (hx : x.Takes r a r')
    (hf : (f a).Takes r' b r'') : (x >>= f).Takes r b r'' := by
  have hb : (x >>= f) r.bare = (f a) r'.bare := by
    change EStateM.bind x f r.bare = _
    rw [EStateM.bind, hx]
  exact hb.trans hf

/-- The state of a receiver is what it is. -/
theorem takes_get (r : Receiver) : (get : Deed Bare).Takes r r.bare r := rfl

/-- A change of the state that goes from one receiver to another. -/
theorem takes_modify {f : Bare → Bare} (h : f r.bare = r'.bare) :
    (modify f : Deed Unit).Takes r () r' := congrArg (EStateM.Result.ok ()) h

private theorem takes_forM {f : α → Deed Unit} {g : Receiver → α → Receiver} {P : Receiver → Prop}
    (hf : ∀ r a, P r → (f a).Takes r () (g r a) ∧ P (g r a)) (as : List α) (hr : P r) :
    (as.forM f).Takes r () (as.foldl g r) := by
  induction as generalizing r with
  | nil => exact takes_pure r ()
  | cons a as ih =>
    obtain ⟨ha, hg⟩ := hf r a hr
    exact ha.bind (ih hg)

/-- What stands in a list can be looked up. -/
theorem takes_look (r : Receiver) {xs : List α} {n : Nat} {x : α} (h : xs[n]? = some x) :
    (Bare.look xs n).Takes r x r := by
  obtain ⟨hn, rfl⟩ := List.getElem?_eq_some_iff.mp h
  have hp : 0 ≤ (n : Int) ∧ (n : Int).toNat < xs.length := ⟨Int.natCast_nonneg n, hn⟩
  rw [Bare.look, dif_pos hp]
  exact takes_pure r _

/-- A place that is in a list can be replaced. -/
theorem takes_replace (r : Receiver) {xs : List α} {n : Nat} (h : n < xs.length) (x : α) :
    (Bare.replace xs n x).Takes r (xs.set n x) r := by
  have hp : 0 ≤ (n : Int) ∧ (n : Int).toNat < xs.length := ⟨Int.natCast_nonneg n, h⟩
  rw [Bare.replace, if_pos hp]
  exact takes_pure r _

/-! ### Memories -/

/-- The memory that is shown or hidden is read as a list of rows. -/
theorem takes_grid (r : Receiver) (plane : Plane) :
    (Bare.grid plane).Takes r (r.memory plane).grid r := by
  cases plane <;> rfl

private theorem takes_setGrid (r : Receiver) (plane : Plane) (m : Memory) :
    (Bare.setGrid plane m.grid).Takes r () (r.withMemory plane m) := by
  cases plane <;> exact takes_modify rfl

/-- A row of a memory can be set. -/
theorem takes_setRow (r : Receiver) (plane : Plane) (row : Row) (cells : Vector (Option Char) 32) :
    (Bare.setRow plane row.val cells.toList).Takes r ()
      (r.withMemory plane ((r.memory plane).setRow row cells)) := by
  have hrow : row.val < (r.memory plane).grid.length := by
    rw [Memory.length_grid]
    exact row.isLt
  refine (takes_grid r plane).bind ((takes_replace r hrow cells.toList).bind ?_)
  rw [← Memory.grid_setRow]
  exact takes_setGrid r plane _

/-- A cell of a memory can be set. -/
theorem takes_setCell (r : Receiver) (plane : Plane) (row : Row) (column : Column)
    (x : Option Char) :
    (Bare.setCell plane row.val column.val x).Takes r ()
      (r.withMemory plane ((r.memory plane).put row column x)) := by
  have hrow := (r.memory plane).getElem?_grid row
  have hcolumn : column.val < ((r.memory plane).row row).toList.length := by
    rw [Vector.length_toList]
    exact column.isLt
  refine (takes_grid r plane).bind ((takes_look r hrow).bind ((takes_replace r hcolumn x).bind ?_))
  rw [← Vector.toList_set, ← Memory.setRow_set]
  exact takes_setRow r plane row _

/-- The cursor moves on to a column. -/
theorem takes_moveOn (r : Receiver) (columns : Nat) :
    (Bare.moveOn columns).Takes r () { r with column := r.column.advance columns } := by
  refine takes_modify ?_
  have hc : ((r.column.advance columns).val : Int) = min ((r.column.val : Int) + columns) 31 := by
    rw [Column.val_advance]
    omega
  exact congrArg (fun column ↦ { r.bare with column }) hc.symm

private theorem takes_type {plane : Plane} (h : r.target = some plane) (x : Char) :
    (Bare.type plane x).Takes r () (r.type x) := by
  let typed := r.withMemory plane ((r.memory plane).put r.row r.column (some x))
  have ht : r.type x = { typed with column := typed.column.advance 1 } := by
    rw [Receiver.type, Receiver.edit_of_target h]
    cases plane <;> rfl
  rw [ht]
  exact (takes_get r).bind
    ((takes_setCell r plane r.row r.column (some x)).bind (takes_moveOn typed 1))

/-! ### Loops -/

/-- A loop over columns or rows passes through the receivers that its rounds lead to. -/
theorem takes_forM_range {f : Int → Deed Unit} {g : Nat → Receiver} {first next : Nat}
    (h : first ≤ next) (hf : ∀ i, first ≤ i → i < next → (f i).Takes (g i) () (g (i + 1))) :
    ((Int.range first next).forM f).Takes (g first) () (g next) := by
  induction next, h using Nat.le_induction with
  | base =>
    have hr : Int.range first first = [] := by
      rw [Int.range, Int.sub_self]
      rfl
    rw [hr]
    exact takes_pure _ ()
  | succ next h ih =>
    have hr : Int.range first (next + 1 : Nat) = Int.range first next ++ [(next : Int)] := by
      have hn : ((next + 1 : Nat) - first : Int).toNat = (next - first : Int).toNat + 1 := by omega
      have hl : (first + (next - first : Int).toNat : Int) = next := by omega
      rw [Int.range, hn, List.range_succ, List.map_append, Int.range]
      exact congrArg (_ ++ [·]) hl
    rw [hr, List.forM_eq_forM, List.forM_append]
    -- The range grows at its end: the rounds before lead to the receiver of the last one.
    have hlast : ([(next : Int)].forM f).Takes (g next) () (g (next + 1)) :=
      (hf next h next.lt_succ_self).bind (takes_pure _ ())
    exact (ih fun i hi hn ↦ hf i hi (Nat.lt_succ_of_lt hn)).bind hlast

/-- The row from the cursor on can be emptied. -/
theorem takes_eraseToEnd (r : Receiver) :
    Bare.eraseToEnd.Takes r () (r.edit (·.eraseFrom r.row r.column)) := by
  refine (takes_get r).bind ?_
  cases ht : r.target with
  | none =>
    have hb : r.bare.target = none := ht
    have he : r.edit (·.eraseFrom r.row r.column) = r := by rw [Receiver.edit, ht]
    rw [hb, he]
    exact takes_pure r ()
  | some plane =>
    have hb : r.bare.target = some plane := ht
    rw [hb, Receiver.edit_of_target ht]
    let m := r.memory plane
    let g (i : Nat) : Receiver := r.withMemory plane (m.erasedBetween r.row r.column.val i)
    have hfirst : g r.column.val = r := by
      have hm : m.erasedBetween r.row r.column.val r.column.val = m := m.erasedBetween_self _ _
      simp only [g, hm, m, Receiver.withMemory_memory]
    have hround (i : Nat) (hi : r.column.val ≤ i) (hn : i < 32) :
        (Bare.setCell plane r.row.val i none).Takes (g i) () (g (i + 1)) := by
      have hs := takes_setCell (g i) plane r.row ⟨i, hn⟩ none
      have hm : (g i).memory plane = m.erasedBetween r.row r.column.val i :=
        Receiver.memory_withMemory _ _ _
      rw [hm, m.put_erasedBetween r.row ⟨i, hn⟩ hi, Receiver.withMemory_withMemory] at hs
      exact hs
    have hl := takes_forM_range (f := fun column ↦ Bare.setCell plane r.row.val column none)
      (g := g) r.column.isLt.le hround
    rw [hfirst] at hl
    rw [← Memory.erasedBetween_last]
    exact hl

private theorem takes_copyUp (r : Receiver) (row : Row) (h : row.val + 1 < 15) :
    (Bare.copyUp row.val).Takes r ()
      { r with shown := r.shown.setRow row (r.shown.row ⟨row.val + 1, h⟩) } := by
  have hrow : r.shown.grid[row.val + 1]? = some (r.shown.row ⟨row.val + 1, h⟩).toList :=
    r.shown.getElem?_grid ⟨row.val + 1, h⟩
  exact (takes_grid r .shown).bind ((takes_look r hrow).bind (takes_setRow r .shown row _))

/-- A row of the shown memory can be emptied. -/
theorem takes_clearRow (r : Receiver) (row : Row) :
    (Bare.clearRow row.val).Takes r () { r with shown := r.shown.setRow row Memory.emptyRow } := by
  have hcells : Memory.emptyRow.toList = Bare.emptyRow := Vector.toList_replicate
  rw [Bare.clearRow, ← hcells]
  exact takes_setRow r .shown row _

private theorem takes_forM_copyUp (r : Receiver) {first : Nat} {base : Row} (h : first ≤ base.val) :
    ((Int.range first base.val).forM Bare.copyUp).Takes r ()
      { r with shown := r.shown.copiedUp first base.val } := by
  let g (i : Nat) : Receiver := { r with shown := r.shown.copiedUp first i }
  have hfirst : g first = r := by simp only [g, Memory.copiedUp_self]
  have hround (i : Nat) (hi : first ≤ i) (hn : i < base.val) :
      (Bare.copyUp i).Takes (g i) () (g (i + 1)) := by
    have hnext : i + 1 < 15 := Nat.lt_of_le_of_lt hn base.isLt
    have hm := r.shown.setRow_copiedUp ⟨i, Nat.lt_of_succ_lt hnext⟩ hi hnext
    have ht := takes_copyUp (g i) ⟨i, Nat.lt_of_succ_lt hnext⟩ hnext
    simp only [g, ← hm]
    exact ht
  have hl := takes_forM_range (f := Bare.copyUp) (g := g) h hround
  rw [hfirst] at hl
  exact hl

private theorem takes_forM_clearRow (r : Receiver) {next : Nat} (h : next ≤ 15) :
    ((Int.range 0 next).forM Bare.clearRow).Takes r ()
      { r with shown := r.shown.clearedAbove next } := by
  let g (i : Nat) : Receiver := { r with shown := r.shown.clearedAbove i }
  have hfirst : g 0 = r := by simp only [g, Memory.clearedAbove_zero]
  have hround (i : Nat) (_ : 0 ≤ i) (hn : i < next) :
      (Bare.clearRow i).Takes (g i) () (g (i + 1)) := by
    have hi : i < 15 := Nat.lt_of_lt_of_le hn h
    have hm := r.shown.setRow_clearedAbove ⟨i, hi⟩
    have ht := takes_clearRow (g i) ⟨i, hi⟩
    simp only [g, ← hm]
    exact ht
  have hl := takes_forM_range (f := Bare.clearRow) (g := g) next.zero_le hround
  rw [hfirst] at hl
  exact hl

/-- The window can be rolled up. -/
theorem takes_carriageReturn (r : Receiver) :
    Bare.carriageReturn.Takes r () (r.obey .carriageReturn).1 := by
  refine (takes_get r).bind ?_
  cases hw : r.window with
  | none =>
    have hb : r.bare.depth = 0 := by
      simp only [Receiver.bare, hw, Option.elim_none]
      rfl
    have ho : (r.obey .carriageReturn).1 = r := by rw [Receiver.obey, hw]
    rw [if_pos hb, ho]
    exact takes_pure r ()
  | some depth =>
    have hb : r.bare.depth = depth.rows := by simp only [Receiver.bare, hw, Option.elim_some]
    have hpos := depth.rows_pos
    have hne : ¬ r.bare.depth = 0 := by omega
    let top := Memory.windowTop r.row depth
    have hle : top ≤ r.row.val := Nat.sub_le _ _
    have htop : max (r.bare.row - (r.bare.depth - 1)) 0 = (top : Int) := by
      have hrow : r.bare.row = r.row.val := rfl
      have hval : top = r.row.val - (depth.rows - 1) := rfl
      rw [hb, hrow, hval]
      omega
    have ho : (r.obey .carriageReturn).1 =
        { r with shown := r.shown.rollUp r.row depth, column := 0 } := by rw [Receiver.obey, hw]
    rw [if_neg hne, htop, ho, ← r.shown.clearedAbove_setRow_copiedUp r.row depth]
    have hedge (r : Receiver) : (modify fun b ↦ { b with column := 0 } : Deed Unit).Takes r ()
        { r with column := 0 } := takes_modify rfl
    -- The rows of the window move up, its base is emptied, and then what stands above it.
    exact (takes_forM_copyUp r hle).bind ((takes_clearRow _ r.row).bind
      ((takes_forM_clearRow _ (hle.trans r.row.isLt.le)).bind (hedge _)))

/-! ### Characters -/

/-- Characters can be written where characters go. -/
theorem takes_write (r : Receiver) (chars : List Char) :
    (Bare.write chars).Takes r (r.write chars).2 (r.write chars).1 := by
  refine (takes_get r).bind ?_
  have htype {plane : Plane} (h : r.target = some plane) :
      (chars.forM (Bare.type plane)).Takes r () (chars.foldl Receiver.type r) :=
    takes_forM (P := (·.target = some plane))
      (fun r x hr ↦ ⟨takes_type hr x, (r.target_type x).trans hr⟩) chars h
  cases ht : r.target with
  | none =>
    have hb : r.bare.target = none := ht
    rw [hb, Receiver.write_of_none ht]
    exact takes_pure r Moment.quiet
  | some plane =>
    have hb : r.bare.target = some plane := ht
    rw [hb, Receiver.write, ht]
    cases plane with
    | hidden => exact (htype ht).bind (takes_pure _ Moment.quiet)
    | shown => exact (htype ht).bind ((takes_modify rfl).bind (takes_pure _ Moment.shown))

/-- A character can be taken back. -/
theorem takes_backspace (r : Receiver) : Bare.backspace.Takes r () r.backspace := by
  refine (takes_get r).bind ?_
  cases ht : r.target with
  | none =>
    have hb : r.bare.target = none := ht
    rw [hb, Receiver.backspace_of_none ht]
    exact takes_pure r ()
  | some plane =>
    have hb : r.bare.target = some plane := ht
    rw [hb]
    by_cases hc : r.column.val = 0
    · have hz : r.bare.column = 0 := congrArg Nat.cast hc
      have hk : r.column.back? = none := Column.back?_eq_none_iff.mpr hc
      have hs : r.backspace = r := by rw [Receiver.backspace, ht, hk]
      dsimp only
      rw [if_pos hz, hs]
      exact takes_pure r ()
    · have hz : ¬ r.bare.column = 0 := mt Int.ofNat_eq_zero.mp hc
      let column : Column := ⟨r.column.val - 1, by omega⟩
      have hk : r.column.back? = some column := if_neg hc
      have hcolumn : r.bare.column - 1 = column.val := (Int.ofNat_sub (Nat.pos_of_ne_zero hc)).symm
      let moved : Receiver := { r with column }
      have hs : r.backspace =
          moved.withMemory plane ((moved.memory plane).put r.row column none) := by
        rw [Receiver.backspace, ht, hk]
        dsimp only
        rw [Receiver.edit_of_target ht]
        cases plane <;> rfl
      have hmove : (modify fun b ↦ { b with column := b.column - 1 } : Deed Unit).Takes r ()
          moved := takes_modify (congrArg (fun column ↦ { r.bare with column }) hcolumn)
      dsimp only
      rw [if_neg hz, hcolumn, hs]
      exact hmove.bind (takes_setCell moved plane r.row column none)

end Bare.Deed

end Line21
