import Line21.Code.Basic
import Line21.Screen.Memory

/-!
# Layouts

Characters are typed into a memory cell after cell, from a position to the right. What fits into
the row stands there afterwards, and no other cell changes.

A layout places texts of basic characters on the screen, one to a row. Typed into an empty
memory in any order they stand side by side, since no text reaches into the row of another.
The memory then reads as the texts from the top to the bottom, each without the spaces around
it.
-/

namespace Line21

namespace Memory

/-- A memory in which characters are typed from a position on. What reaches the last column
is typed over there. -/
def typed (m : Memory) (row : Row) (column : Column) : List Char → Memory
  | [] => m
  | x :: xs => (m.put row column (some x)).typed row (column.advance 1) xs

/-- What fits into the row stands where it was typed, and nothing else changes. -/
theorem cell_typed (m : Memory) (row : Row) (column : Column) (xs : List Char)
    (h : column.val + xs.length ≤ 32) (r : Row) (c : Column) :
    (m.typed row column xs).cell r c =
      if r = row ∧ column.val ≤ c.val ∧ c.val < column.val + xs.length then
        xs[c.val - column.val]?
      else m.cell r c := by
  induction xs generalizing m column with
  | nil =>
    rw [typed, if_neg]
    rintro ⟨-, hl, hu⟩
    rw [List.length_nil] at hu
    omega
  | cons x xs ih =>
    rw [List.length_cons] at h ⊢
    have hv : (column.advance 1).val = min (column.val + 1) 31 := rfl
    have hc := c.isLt
    rw [typed, ih _ _ (by omega), cell_put]
    by_cases hr : r = row
    · simp only [hr, true_and]
      rcases Nat.lt_trichotomy c.val column.val with hlt | heq | hgt
      · have hne : c ≠ column := Fin.ne_of_val_ne (by omega)
        rw [if_neg (by omega), if_neg hne, if_neg (by omega)]
      · rw [if_neg (by omega), if_pos (Fin.ext heq), if_pos (by omega), heq, Nat.sub_self]
        rfl
      · have hne : c ≠ column := Fin.ne_of_val_ne (by omega)
        by_cases hu : c.val < column.val + (xs.length + 1)
        · have hs : c.val - column.val = c.val - (column.advance 1).val + 1 := by omega
          rw [if_pos (by omega), if_pos (by omega), hs, List.getElem?_cons_succ]
        · rw [if_neg (by omega), if_neg hne, if_neg (by omega)]
    · simp only [hr, false_and, if_false]

/-- Typing a text in two parts is typing the second behind the first. -/
theorem typed_append (m : Memory) (row : Row) (column : Column) (xs ys : List Char) :
    m.typed row column (xs ++ ys) =
      (m.typed row column xs).typed row (column.advance xs.length) ys := by
  induction xs generalizing m column with
  | nil => rw [List.nil_append, typed, List.length_nil, column.advance_zero]
  | cons x xs ih =>
    rw [List.cons_append, typed, typed, ih, Column.advance_advance, List.length_cons, Nat.add_comm]

/-- A row reads as its characters from the left to the right, trimmed. -/
theorem lineOf_row (m : Memory) (r : Row) :
    lineOf (m.row r) = Text.trim ((List.finRange 32).filterMap (m.cell r)) := by
  have hc : (m.row r).toList = (List.finRange 32).map (m.cell r) := by
    apply List.ext_getElem
    · simp
    · intro i hi hj
      simp [cell]
  rw [lineOf, hc, List.filterMap_map]
  rfl

/-- The lines of a memory are those of its rows from the top that are not blank. -/
theorem lines_eq (m : Memory) :
    m.lines = ((List.finRange 15).map fun r ↦ lineOf (m.row r)).filter (!·.isEmpty) := by
  have hr : m.rows.toList = (List.finRange 15).map m.row := by
    apply List.ext_getElem
    · simp
    · intro i hi hj
      simp [row]
  rw [lines, hr, List.map_map]
  rfl

end Memory

/-- The basic characters. -/
def Charset.basics : List Char := (List.range' 0x20 0x60).map fun n ↦ basic (UInt8.ofNat n)

/-- Of the basic characters only the space is blank. -/
theorem Charset.trim_eq_of_subset_basics {text : List Char} (h : text ⊆ basics) :
    Text.trim text = Text.trimBy (· == ' ') text := by
  have hb : basics.all fun x ↦ Text.isBlank x == (x == ' ') := by decide +kernel
  exact Text.trimBy_congr fun x hx ↦ beq_iff_eq.mp (List.all_eq_true.mp hb x (h hx))

/-- A text that is placed on the screen and fits into its row. -/
structure Placed where
  row : Row
  column : Column
  text : List Char
  nonempty : text ≠ []
  fits : column.val + text.length ≤ 32
  isBasic : text ⊆ Charset.basics
  deriving DecidableEq

/-- Texts in rows of their own, in the order in which they are loaded. -/
structure Layout where
  placed : List Placed
  distinct : placed.Pairwise (·.row ≠ ·.row)
  deriving DecidableEq

/-- What is laid out from a place on, one behind the other, is found by going through all places. -/
theorem filterMap_shifted {α : Type} {n start : Nat} (xs : List α) (h : start + xs.length ≤ n) :
    ((List.finRange n).filterMap fun i ↦
      if start ≤ i.val then xs[i.val - start]? else none) = xs := by
  have hm : ((List.finRange n).map fun i ↦ if start ≤ i.val then xs[i.val - start]? else none) =
      List.replicate start none ++
        (xs.map some ++ List.replicate (n - start - xs.length) none) := by
    apply List.ext_getElem
    · simp only [List.length_map, List.length_finRange, List.length_append, List.length_replicate]
      omega
    · intro i hi hj
      simp only [List.length_map, List.length_finRange] at hi
      simp only [List.getElem_map, List.getElem_finRange, Fin.cast_mk]
      by_cases hl : start ≤ i
      · rw [if_pos hl, List.getElem_append_right (by simpa using hl)]
        by_cases hu : i < start + xs.length
        · rw [List.getElem_append_left (by simp; omega)]
          simp
        · rw [List.getElem_append_right (by simp; omega)]
          simp
          omega
      · rw [if_neg hl, List.getElem_append_left (by simp; omega)]
        simp
  calc ((List.finRange n).filterMap fun i ↦ if start ≤ i.val then xs[i.val - start]? else none)
      = ((List.finRange n).map fun i ↦
          if start ≤ i.val then xs[i.val - start]? else none).filterMap id := by
        rw [List.filterMap_map]
        rfl
    _ = xs := by
      rw [hm]
      simp

namespace Placed

/-- The character that a text has in a column of its row. -/
def char? (p : Placed) (c : Column) : Option Char :=
  if p.column.val ≤ c.val then p.text[c.val - p.column.val]? else none

/-- The text without the spaces around it. -/
def line (p : Placed) : List Char := Text.trimBy (· == ' ') p.text

/-- Placing a text on a memory. -/
def on (m : Memory) (p : Placed) : Memory := m.typed p.row p.column p.text

private theorem cell_on (m : Memory) (p : Placed) (r : Row) (c : Column) :
    (on m p).cell r c = if r = p.row then (p.char? c).or (m.cell r c) else m.cell r c := by
  rw [on, Memory.cell_typed m _ _ _ p.fits]
  by_cases hr : r = p.row
  · rw [if_pos hr, char?]
    by_cases hl : p.column.val ≤ c.val
    · rw [if_pos hl]
      by_cases hu : c.val < p.column.val + p.text.length
      · rw [if_pos ⟨hr, hl, hu⟩, List.getElem?_eq_getElem (by omega), Option.some_or]
      · rw [if_neg fun h ↦ hu h.2.2, List.getElem?_eq_none (by omega), Option.none_or]
    · rw [if_neg hl, if_neg fun h ↦ hl h.2.1, Option.none_or]
  · rw [if_neg hr, if_neg fun h ↦ hr h.1]

private theorem filterMap_char? (p : Placed) : (List.finRange 32).filterMap p.char? = p.text :=
  filterMap_shifted p.text p.fits

private theorem trim_text (p : Placed) : Text.trim p.text = p.line :=
  Charset.trim_eq_of_subset_basics p.isBasic

end Placed

namespace Layout

/-- The memory in which the texts of a layout stand alone. -/
def memory (l : Layout) : Memory := l.placed.foldl Placed.on .empty

/-- The texts from the top row to the bottom row. -/
def sorted (l : Layout) : List Placed := l.placed.mergeSort fun p q ↦ p.row ≤ q.row

/-- What there is to read: the texts from the top to the bottom without the spaces around
them, on lines of their own. Texts of spaces alone leave no line. -/
def text (l : Layout) : String :=
  "\r\n".intercalate (((l.sorted.map Placed.line).filter (!·.isEmpty)).map String.ofList)

private theorem cell_foldl_on (ps : List Placed) (hd : ps.Pairwise (·.row ≠ ·.row)) (m : Memory)
    (r : Row) (c : Column) :
    (ps.foldl Placed.on m).cell r c =
      ((ps.find? (·.row == r)).bind (·.char? c)).or (m.cell r c) := by
  induction ps generalizing m with
  | nil => rfl
  | cons p ps ih =>
    obtain ⟨hp, hd⟩ := List.pairwise_cons.mp hd
    rw [List.foldl_cons, ih hd, Placed.cell_on]
    by_cases hr : r = p.row
    · have hn : ps.find? (·.row == r) = none := by
        rw [List.find?_eq_none]
        intro q hq he
        exact hp q hq (hr.symm.trans (beq_iff_eq.mp he).symm)
      have he : (p.row == r) = true := beq_iff_eq.mpr hr.symm
      rw [hn, if_pos hr, List.find?_cons, he, Option.bind_none, Option.none_or, Option.bind_some]
    · have he : (p.row == r) = false := beq_eq_false_iff_ne.mpr (Ne.symm hr)
      rw [if_neg hr, List.find?_cons, he]

private theorem find?_row {ps : List Placed} (hd : ps.Pairwise (·.row ≠ ·.row)) {p : Placed}
    (hp : p ∈ ps) : ps.find? (·.row == p.row) = some p := by
  induction ps with
  | nil => cases hp
  | cons q ps ih =>
    obtain ⟨hq, hd⟩ := List.pairwise_cons.mp hd
    rcases List.mem_cons.mp hp with rfl | hp
    · rw [List.find?_cons, beq_self_eq_true]
    · have he : (q.row == p.row) = false := beq_eq_false_iff_ne.mpr (hq p hp)
      rw [List.find?_cons, he]
      exact ih hd hp

/-- The text that is placed in a row. -/
def placedIn (l : Layout) (r : Row) : Option Placed := l.placed.find? (·.row == r)

private theorem row_of_placedIn {l : Layout} {r : Row} {p : Placed} (h : l.placedIn r = some p) :
    p.row = r :=
  beq_iff_eq.mp (List.find?_some (p := fun q : Placed ↦ q.row == r) h)

private theorem placedIn_row (l : Layout) {p : Placed} (hp : p ∈ l.placed) :
    l.placedIn p.row = some p :=
  find?_row l.distinct hp

private theorem cell_memory (l : Layout) (r : Row) (c : Column) :
    l.memory.cell r c = (l.placedIn r).bind (·.char? c) := by
  rw [memory, cell_foldl_on _ l.distinct, Memory.cell_empty, Option.or_none, placedIn]

private theorem filterMap_placedIn (l : Layout) :
    (List.finRange 15).filterMap l.placedIn = l.sorted := by
  have hperm : l.sorted.Perm l.placed := List.mergeSort_perm _ _
  have hmem : ∀ p, p ∈ (List.finRange 15).filterMap l.placedIn ↔ p ∈ l.placed := by
    intro p
    rw [List.mem_filterMap]
    constructor
    · rintro ⟨r, -, hr⟩
      exact List.mem_of_find?_eq_some hr
    · intro hp
      exact ⟨p.row, List.mem_finRange _, l.placedIn_row hp⟩
  have hlt : ((List.finRange 15).filterMap l.placedIn).Pairwise (·.row < ·.row) := by
    refine (List.pairwise_lt_finRange 15).filterMap _ fun r r' hr p hp q hq ↦ ?_
    rw [row_of_placedIn hp, row_of_placedIn hq]
    exact hr
  have hlt' : l.sorted.Pairwise (·.row < ·.row) := by
    have hle : l.sorted.Pairwise fun p q ↦ decide (p.row ≤ q.row) := by
      refine List.pairwise_mergeSort ?_ ?_ _
      · intro p q s hpq hqs
        rw [decide_eq_true_eq] at hpq hqs ⊢
        exact Fin.le_trans hpq hqs
      · intro p q
        rw [Bool.or_eq_true, decide_eq_true_eq, decide_eq_true_eq]
        exact Fin.le_total p.row q.row
    have hd : l.sorted.Pairwise (·.row ≠ ·.row) := hperm.symm.pairwise l.distinct Ne.symm
    refine hle.imp₂ (fun p q hpq hne ↦ ?_) hd
    exact Fin.lt_iff_le_and_ne.mpr ⟨of_decide_eq_true hpq, hne⟩
  have hne {p q : Placed} (h : p.row < q.row) : p ≠ q := fun he ↦ by
    rw [he] at h
    exact absurd h (Fin.lt_irrefl _)
  refine List.Perm.eq_of_pairwise (fun p q _ _ h h' ↦ absurd h' (Fin.lt_asymm h)) hlt hlt' ?_
  refine (List.perm_ext_iff_of_nodup (hlt.imp hne) (hlt'.imp hne)).mpr fun p ↦ ?_
  rw [hmem, hperm.mem_iff]

/-- Looking up lines and dropping blank ones is dropping the blank ones of those that are found. -/
theorem filter_map_getD {α β : Type} (f : α → Option β) (g : β → List Char)
    (as : List α) :
    (as.map fun a ↦ ((f a).map g).getD []).filter (!·.isEmpty) =
      ((as.filterMap f).map g).filter (!·.isEmpty) := by
  induction as with
  | nil => rfl
  | cons a as ih =>
    rw [List.map_cons, List.filterMap_cons]
    cases f a with
    | none => exact ih
    | some b =>
      rw [List.map_cons, List.filter_cons, List.filter_cons, ih]
      rfl

/-- The memory of a layout reads as the layout. -/
theorem text_memory (l : Layout) : l.memory.text = l.text := by
  have hline (r : Row) :
      Memory.lineOf (l.memory.row r) = ((l.placedIn r).map Placed.line).getD [] := by
    have hc : l.memory.cell r = fun c ↦ (l.placedIn r).bind (·.char? c) := funext (l.cell_memory r)
    rw [Memory.lineOf_row, hc]
    cases l.placedIn r with
    | none => rfl
    | some p => exact (congrArg Text.trim p.filterMap_char?).trans p.trim_text
  rw [Memory.text, Memory.lines_eq, text, ← l.filterMap_placedIn, ← filter_map_getD]
  simp only [hline]

end Layout

end Line21
