import Line21.Proofs.Screen.Layout

/-!
# Roll-up windows

Lines that roll up stand in a window: the latest on the base row and each one before it a row
higher, as far as the window and the screen reach. Rolling up makes room for a line on the base row,
and typing fills that row. Main statement: such a memory reads as the last lines in their order.
-/

namespace Line21

namespace Memory

/-- The line that stands in a row of a window, when the lines are given from the latest back. -/
def windowLine (base : Row) (depth : Depth) (recent : List (List Char)) (r : Row) :
    Option (List Char) :=
  if r.val ≤ base.val then (recent.take depth.rows)[base.val - r.val]? else none

/-- The memory in which lines stand in a window, and nothing else. -/
def rolled (base : Row) (depth : Depth) (recent : List (List Char)) : Memory :=
  .ofCells fun r c ↦ (windowLine base depth recent r).bind (·[c.val]?)

section Window

variable {base : Row} {depth : Depth} {recent : List (List Char)}

/-- A cell of a window holds a character of the line in its row. -/
theorem cell_rolled (r : Row) (c : Column) (recent : List (List Char)) :
    (rolled base depth recent).cell r c = (windowLine base depth recent r).bind (·[c.val]?) :=
  cell_ofCells _ r c

/-- On the base row stands the latest line. -/
theorem windowLine_base (line : List Char) :
    windowLine base depth (line :: recent) base = some line := by
  rw [windowLine, if_pos (Nat.le_refl _), Nat.sub_self, List.getElem?_take_of_lt depth.rows_pos]
  rfl

/-- Below the base row there is no line. -/
theorem windowLine_of_gt {r : Row} (h : base.val < r.val) :
    windowLine base depth recent r = none :=
  if_neg (by omega)

/-- The lines above the base row are those that stood a row lower before the latest one. -/
theorem windowLine_of_lt (line : List Char) {r : Row} (h : r.val < base.val) :
    windowLine base depth (line :: recent) r =
      if windowTop base depth ≤ r.val then
        windowLine base depth recent ⟨r.val + 1, Nat.lt_of_le_of_lt h base.isLt⟩
      else none := by
  have hpos := depth.rows_pos
  obtain ⟨k, hk⟩ : ∃ k, base.val - r.val = k + 1 := ⟨base.val - r.val - 1, by omega⟩
  have hk' : base.val - (r.val + 1) = k := by omega
  have htop : windowTop base depth ≤ r.val ↔ k + 1 < depth.rows := by
    rw [windowTop]
    omega
  have hsucc : r.val + 1 ≤ base.val := h
  unfold windowLine
  dsimp only
  rw [if_pos (Nat.le_of_lt h), if_pos hsucc, hk, hk', List.getElem?_take, List.getElem?_take]
  by_cases hd : k + 1 < depth.rows
  · rw [if_pos hd, if_pos (htop.mpr hd), if_pos (Nat.lt_of_succ_lt hd), List.getElem?_cons_succ]
  · rw [if_neg hd, if_neg fun ht ↦ hd (htop.mp ht)]

/-- A window that has an empty line and no other is empty. -/
theorem rolled_singleton_nil : rolled base depth [[]] = .empty := by
  apply Memory.ext
  intro r c
  rw [cell_rolled, cell_empty]
  rcases Nat.lt_trichotomy r.val base.val with hlt | heq | hgt
  · rw [windowLine_of_lt [] hlt]
    simp [windowLine]
  · rw [Fin.ext heq, windowLine_base]
    rfl
  · rw [windowLine_of_gt hgt]
    rfl

/-- Rolling up makes room for a line on the base row. -/
theorem rollUp_rolled :
    (rolled base depth recent).rollUp base depth = rolled base depth ([] :: recent) := by
  apply Memory.ext
  intro r c
  rw [cell_rollUp, cell_rolled r c ([] :: recent)]
  rcases Nat.lt_trichotomy r.val base.val with hlt | heq | hgt
  · rw [dif_pos hlt, windowLine_of_lt [] hlt]
    split
    · rw [cell_rolled]
    · rfl
  · rw [dif_neg (by omega), if_pos (Fin.ext heq), Fin.ext heq, windowLine_base]
    rfl
  · rw [dif_neg (by omega), if_neg (Fin.ne_of_gt hgt), cell_rolled, windowLine_of_gt hgt,
      windowLine_of_gt hgt]

/-- A line that is typed on the base row fills the room that was made for it. -/
theorem typed_rolled {line : List Char} (h : line.length ≤ 32) :
    (rolled base depth ([] :: recent)).typed base 0 line = rolled base depth (line :: recent) := by
  have hz : (0 : Column).val = 0 := rfl
  apply Memory.ext
  intro r c
  rw [cell_typed _ _ _ _ (by omega), cell_rolled, cell_rolled, hz, Nat.sub_zero, Nat.zero_add]
  rcases Nat.lt_trichotomy r.val base.val with hlt | heq | hgt
  · rw [if_neg fun hc ↦ Nat.ne_of_lt hlt (congrArg Fin.val hc.1), windowLine_of_lt [] hlt,
      windowLine_of_lt line hlt]
  · obtain rfl := Fin.ext heq
    rw [windowLine_base, windowLine_base, Option.bind_some, Option.bind_some]
    by_cases hc : c.val < line.length
    · rw [if_pos ⟨rfl, Nat.zero_le _, hc⟩]
    · rw [if_neg fun hi ↦ hc hi.2.2, List.getElem?_nil, List.getElem?_eq_none (by omega)]
  · rw [if_neg fun hc ↦ Nat.ne_of_gt hgt (congrArg Fin.val hc.1), windowLine_of_gt hgt,
      windowLine_of_gt hgt]

private theorem filterMap_windowLine :
    (List.finRange 15).filterMap (windowLine base depth recent) =
      (recent.take (min depth.rows (base.val + 1))).reverse := by
  generalize hxs : recent.take (min depth.rows (base.val + 1)) = xs
  have hlength : xs.length ≤ base.val + 1 := by
    rw [← hxs, List.length_take]
    omega
  -- The oldest of these lines stands on the top row, and the others follow below it.
  have hw : windowLine base depth recent = fun r ↦
      if base.val + 1 - xs.length ≤ r.val then xs.reverse[r.val - (base.val + 1 - xs.length)]?
      else none := by
    funext r
    by_cases hr : r.val ≤ base.val
    · have htake : (recent.take depth.rows)[base.val - r.val]? = xs[base.val - r.val]? := by
        rw [← hxs, Nat.min_comm, ← List.take_take]
        exact (List.getElem?_take_of_lt (by omega)).symm
      rw [windowLine, if_pos hr, htake]
      split
      · rw [List.getElem?_reverse (by omega)]
        congr 1
        omega
      · rw [List.getElem?_eq_none (by omega)]
    · rw [windowLine_of_gt (by omega), if_pos (by omega), List.getElem?_eq_none]
      rw [List.length_reverse]
      omega
  rw [hw, filterMap_shifted]
  rw [List.length_reverse]
  omega

private theorem mem_of_windowLine {r : Row} {line : List Char}
    (h : windowLine base depth recent r = some line) : line ∈ recent := by
  unfold windowLine at h
  split at h
  · exact List.mem_of_mem_take (List.mem_of_getElem? h)
  · cases h

/-- A window reads as the last lines in their order, trimmed, without those that are blank. -/
theorem lines_rolled (h : ∀ line ∈ recent, line.length ≤ 32) :
    (rolled base depth recent).lines =
      ((recent.take (min depth.rows (base.val + 1))).reverse.map Text.trim).filter
        (!·.isEmpty) := by
  have hline (r : Row) : lineOf ((rolled base depth recent).row r) =
      ((windowLine base depth recent r).map Text.trim).getD [] := by
    have hc : (rolled base depth recent).cell r =
        fun c ↦ (windowLine base depth recent r).bind (·[c.val]?) :=
      funext fun c ↦ cell_rolled r c recent
    rw [lineOf_row, hc]
    cases hw : windowLine base depth recent r with
    | none => rfl
    | some line =>
      have hl : 0 + line.length ≤ 32 := by
        rw [Nat.zero_add]
        exact h line (mem_of_windowLine hw)
      exact congrArg Text.trim (filterMap_shifted line hl)
  rw [lines_eq, ← filterMap_windowLine, ← Layout.filter_map_getD]
  simp only [hline]

end Window

end Memory

end Line21
