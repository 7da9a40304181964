import Line21.Proofs.Receiver.Bounds
import Line21.Proofs.Text.Trimming

/-!
# The rows on the screen

A caption is handed on as a text of lines, and documents tell where it ends by its lines. Main
statement: the lines are what the rows of the screen hold from the top to the bottom, trimmed, and
rows that are blank are left out. No line is empty, is wider than the screen, has blanks at its ends
or is broken, whatever the receiver has heard.
-/

namespace Line21

namespace Memory

/-- The characters of a row from left to right; empty cells are passed by. -/
def charsOf (m : Memory) (r : Row) : List Char := (List.finRange 32).filterMap (m.cell r)

private theorem length_charsOf_le (m : Memory) (r : Row) : (m.charsOf r).length ≤ 32 :=
  (List.length_filterMap_le _ _).trans_eq List.length_finRange

private theorem Holds.of_mem_charsOf {P : Char → Prop} {m : Memory} (h : m.Holds P) {r : Row}
    {x : Char} (hx : x ∈ m.charsOf r) : P x := by
  obtain ⟨c, -, hc⟩ := List.mem_filterMap.mp hx
  exact h r c x hc

private theorem trimsTo_lineOf (m : Memory) (r : Row) :
    Text.TrimsTo (m.charsOf r) (lineOf (m.row r)) := by
  rw [lineOf_row]
  exact Text.trimsTo_trim _

private theorem lineOf_eq_rdropWhile_foldl (m : Memory) (r : Row) :
    lineOf (m.row r) =
      ((List.finRange 32).foldl (fun read c ↦ ((m.cell r c).map (Text.readOn read)).getD read)
        []).rdropWhile Text.isBlank := by
  rw [lineOf_row, ← Text.rdropWhile_foldl_readOn, List.foldl_filterMap]
  congr 1
  apply List.foldl_ext
  intro read c _
  cases m.cell r c <;> rfl

end Memory

namespace Receiver

/-- Once a caption has been shown, the text on the screen is that of its lines, joined by line
breaks. There is one line for each row that is not blank, from the top to the bottom: the row's
characters without the blanks at both ends, as a look at one cell after the other finds them. So
there are fifteen lines at most, none of which is empty, wider than the screen or broken. -/
theorem text_is_trimmed_rows {r : Receiver} (h : r.Reachable) (displayed : r.displayed = true) :
    ∃ line : Row → List Char,
      (∀ row, Text.TrimsTo (r.shown.charsOf row) (line row) ∧
        line row =
          ((List.finRange 32).foldl
            (fun read c ↦ ((r.shown.cell row c).map (Text.readOn read)).getD read)
            []).rdropWhile Text.isBlank) ∧
      let lines := ((List.finRange 15).map line).filter (· ≠ [])
      r.text = .ok ("\r\n".intercalate (lines.map String.ofList)) ∧ lines.length ≤ 15 ∧
        ∀ l ∈ lines, l ≠ [] ∧ l.length ≤ 32 ∧ Text.IsTrimmed l ∧
          ∀ x ∈ l, Text.isLineEnd x = false := by
  refine ⟨fun row ↦ Memory.lineOf (r.shown.row row),
    fun row ↦ ⟨r.shown.trimsTo_lineOf row, r.shown.lineOf_eq_rdropWhile_foldl row⟩, ?_⟩
  intro lines
  have hlines : r.shown.lines = lines := by
    rw [Memory.lines_eq]
    apply List.filter_congr
    intro l _
    cases l <;> rfl
  refine ⟨?_, ?_, ?_⟩
  · rw [Receiver.text, if_pos displayed, Memory.text, hlines]
  · refine (List.length_filter_le _ _).trans_eq ?_
    rw [List.length_map, List.length_finRange]
  · intro l hl
    obtain ⟨hm, hne⟩ := List.mem_filter.mp hl
    obtain ⟨row, -, rfl⟩ := List.mem_map.mp hm
    have ht := r.shown.trimsTo_lineOf row
    refine ⟨of_decide_eq_true hne, ht.length_le.trans (r.shown.length_charsOf_le row), ht.trimmed,
      fun x hx ↦ ?_⟩
    exact Charset.not_isLineEnd_of_mem_repertoire (h.holds.shown.of_mem_charsOf (ht.subset hx))

/-- A transparent space, the letter A, a space and, behind two empty cells, the letter b stand in
one row, and spaces alone in a row above. -/
theorem text_is_trimmed_rows_between_spaces :
    let ps : List BytePair :=
      [⟨0x94, 0x29⟩, ⟨0x91, 0xb9⟩, ⟨0xc1, 0x20⟩, ⟨0x97, 0xa2⟩, ⟨0x62, 0x20⟩, ⟨0x91, 0xd0⟩,
        ⟨0x20, 0x20⟩]
    ∃ r, fresh.receiveAll ps = .ok (r, [.quiet, .shown, .shown, .quiet, .shown, .quiet, .shown]) ∧
      r.Reachable ∧ r.displayed = true ∧ r.shown.charsOf 0 = [' ', ' '] ∧
      r.shown.charsOf 14 = [' ', 'A', ' ', 'b', ' '] ∧ r.text = .ok "A b" := by
  intro ps
  let r := (fresh.stepAll (ps.map BytePair.stripped)).1
  have hs : fresh.receiveAll ps =
      .ok (r, [.quiet, .shown, .shown, .quiet, .shown, .quiet, .shown]) :=
    (receiveAll_of_parityHolds (by decide +kernel) _).trans
      (congrArg Except.ok (by decide +kernel))
  have hr : r.Reachable := Reachable.fresh.receiveAll hs
  have hd : r.displayed = true := by decide +kernel
  obtain ⟨line, hline, htext, -, -⟩ := text_is_trimmed_rows hr hd
  refine ⟨r, hs, hr, hd, by decide +kernel, by decide +kernel, ?_⟩
  have hl : line = fun row ↦ Text.trim (r.shown.charsOf row) :=
    funext fun row ↦ (hline row).1.trim_eq.symm
  rw [htext, hl]
  exact congrArg Except.ok (by decide +kernel)

end Receiver

end Line21
