import Line21.Text.Blank
import Mathlib.Data.List.DropRight

/-!
# Trimmed texts, words and lines

Every text is a trimmed text with blanks around it, and of no other trimmed text. Main statement:
trimming leaves that text. A text may be trimmed while it is read: blanks are passed by as long as
nothing stands in front of them, and those at the end are dropped when all is read.

A text is cut at each of its line ends, and a line at each of its blanks. What stands on one side of
a cut does not matter for the other, so lines and words are found where they were put, with blanks
around and between them.
-/

namespace Line21.Text

/-- A text that neither begins nor ends with a blank. -/
structure IsTrimmed (cs : List Char) : Prop where
  first : ∀ c ∈ cs.head?, isBlank c = false
  last : ∀ c ∈ cs.getLast?, isBlank c = false

/-- A text is another text, which is trimmed, with blanks around it. -/
structure TrimsTo (cs l : List Char) : Prop where
  around : ∃ front back, cs = front ++ (l ++ back) ∧
    (∀ c ∈ front, isBlank c = true) ∧ ∀ c ∈ back, isBlank c = true
  trimmed : IsTrimmed l

variable {cs l : List Char}

/-- All characters of a text are of a kind, or none is, if each of them is told to be. -/
theorem forall_mem_of_all {kind : Char → Bool} {b : Bool} (h : cs.all (kind · == b) = true) :
    ∀ c ∈ cs, kind c = b :=
  fun c hc ↦ beq_iff_eq.mp (List.all_eq_true.mp h c hc)

private theorem isTrimmed_nil : IsTrimmed [] := ⟨nofun, nofun⟩

/-- A trimmed text with blanks around it trims to itself. -/
theorem IsTrimmed.trimsTo (h : IsTrimmed l) {front back : List Char}
    (hf : ∀ c ∈ front, isBlank c = true) (hb : ∀ c ∈ back, isBlank c = true) :
    TrimsTo (front ++ (l ++ back)) l :=
  ⟨⟨front, back, rfl, hf, hb⟩, h⟩

private theorem not_isBlank_of_mem_head?_dropWhile {c : Char}
    (h : c ∈ (cs.dropWhile isBlank).head?) :
    isBlank c = false := by
  have hd := List.head?_dropWhile_not isBlank cs
  rw [Option.mem_def.mp h] at hd
  exact hd

/-- Trimming takes blanks away at both ends, and all of them. -/
theorem trimsTo_trim (cs : List Char) : TrimsTo cs (trim cs) := by
  have hfront := List.takeWhile_append_dropWhile (p := isBlank) (l := cs)
  generalize hd : cs.dropWhile isBlank = d at hfront
  have hback := List.takeWhile_append_dropWhile (p := isBlank) (l := d.reverse)
  have ht : trim cs = (d.reverse.dropWhile isBlank).reverse := by rw [trim, trimBy, hd]
  have hsplit : d = trim cs ++ (d.reverse.takeWhile isBlank).reverse := by
    rw [ht, ← List.reverse_append, hback, List.reverse_reverse]
  refine ⟨⟨cs.takeWhile isBlank, (d.reverse.takeWhile isBlank).reverse, ?_, ?_, ?_⟩, ?_, ?_⟩
  · rw [← hsplit, hfront]
  · exact fun c hc ↦ List.mem_takeWhile_imp hc
  · exact fun c hc ↦ List.mem_takeWhile_imp (List.mem_reverse.mp hc)
  · intro c hc
    -- What is left begins as the text does without the blanks in front.
    have hhead : c ∈ d.head? := by
      rw [hsplit, List.head?_append, Option.mem_def.mp hc]
      rfl
    exact not_isBlank_of_mem_head?_dropWhile (hd ▸ hhead)
  · intro c hc
    rw [ht, List.getLast?_reverse] at hc
    exact not_isBlank_of_mem_head?_dropWhile hc

private theorem dropWhile_isBlank_append {front : List Char} (hf : ∀ c ∈ front, isBlank c = true)
    (h : ∀ c ∈ cs.head?, isBlank c = false) : (front ++ cs).dropWhile isBlank = cs := by
  rw [List.dropWhile_append_of_pos hf]
  cases cs with
  | nil => rfl
  | cons c cs => exact List.dropWhile_cons_of_neg (Bool.eq_false_iff.mp (h c rfl))

/-- A text is trimmed to one text alone. -/
theorem TrimsTo.trim_eq (h : TrimsTo cs l) : trim cs = l := by
  obtain ⟨⟨front, back, rfl, hf, hb⟩, ht⟩ := h
  cases l with
  | nil =>
    have hall : ∀ c ∈ front ++ back, isBlank c = true :=
      List.forall_mem_append.mpr ⟨hf, hb⟩
    rw [List.nil_append, trim, trimBy, List.dropWhile_eq_nil_iff.mpr hall]
    rfl
  | cons c l =>
    have hfirst : ∀ x ∈ ((c :: l) ++ back).head?, isBlank x = false := ht.first
    have hlast : ∀ x ∈ (c :: l).reverse.head?, isBlank x = false := by
      rw [List.head?_reverse]
      exact ht.last
    have hb : ∀ x ∈ back.reverse, isBlank x = true := fun x hx ↦ hb x (List.mem_reverse.mp hx)
    rw [trim, trimBy, dropWhile_isBlank_append hf hfirst, List.reverse_append,
      dropWhile_isBlank_append hb hlast, List.reverse_reverse]

/-- Trimming a text leaves nothing if and only if all of it is blank. -/
theorem trim_eq_nil_iff : trim cs = [] ↔ ∀ c ∈ cs, isBlank c = true := by
  constructor
  · intro h
    obtain ⟨⟨front, back, hcs, hf, hb⟩, -⟩ := trimsTo_trim cs
    rw [h, List.nil_append] at hcs
    rw [hcs]
    exact List.forall_mem_append.mpr ⟨hf, hb⟩
  · intro h
    have ht := isTrimmed_nil.trimsTo h (List.forall_mem_nil _)
    rw [List.nil_append, List.append_nil] at ht
    exact ht.trim_eq

/-- What a text trims to is no longer than the text. -/
theorem TrimsTo.length_le (h : TrimsTo cs l) : l.length ≤ cs.length := by
  obtain ⟨⟨front, back, rfl, -, -⟩, -⟩ := h
  rw [List.length_append, List.length_append]
  omega

/-- What a text trims to is part of the text. -/
theorem TrimsTo.subset (h : TrimsTo cs l) : l ⊆ cs := by
  obtain ⟨⟨front, back, rfl, -, -⟩, -⟩ := h
  exact fun c hc ↦ List.mem_append_right _ (List.mem_append_left _ hc)

/-! ### Trimming while reading -/

/-- What is read so far, with a further character behind it. A blank counts only if something stands
in front of it. -/
def readOn (read : List Char) (c : Char) : List Char :=
  if read = [] ∧ isBlank c then read else read ++ [c]

private theorem foldl_readOn_of_ne_nil {read : List Char} (h : read ≠ []) (cs : List Char) :
    cs.foldl readOn read = read ++ cs := by
  induction cs generalizing read with
  | nil => exact (List.append_nil read).symm
  | cons c cs ih =>
    have hr : readOn read c = read ++ [c] := if_neg fun hn ↦ h hn.1
    have hne : read ++ [c] ≠ [] := List.append_ne_nil_of_left_ne_nil h [c]
    rw [List.foldl_cons, hr, ih hne, List.append_assoc]
    rfl

private theorem foldl_readOn_nil (cs : List Char) : cs.foldl readOn [] = cs.dropWhile isBlank := by
  induction cs with
  | nil => rfl
  | cons c cs ih =>
    rw [List.foldl_cons, readOn, List.dropWhile_cons]
    cases hc : isBlank c with
    | true => rw [if_pos ⟨rfl, rfl⟩, ih, if_pos rfl]
    | false =>
      rw [if_neg (fun hn ↦ nomatch hn.2), if_neg nofun, List.nil_append,
        foldl_readOn_of_ne_nil (List.cons_ne_nil c [])]
      rfl

/-- A text is trimmed when the blanks at the end of what is read are dropped. -/
theorem rdropWhile_foldl_readOn (cs : List Char) :
    (cs.foldl readOn []).rdropWhile isBlank = trim cs := by
  rw [foldl_readOn_nil]
  rfl

/-! ### Words -/

variable {c : Char} {w : List Char}

private theorem words_nil : words [] = [] := rfl

/-- Words end at a blank. -/
theorem words_append_cons (xs ys : List Char) (hc : isBlank c = true) :
    words (xs ++ c :: ys) = words xs ++ words ys := by
  rw [words, List.splitOnP_append_cons xs ys hc, List.filter_append]
  rfl

/-- A text without blanks is a word. -/
theorem words_of_forall_not_isBlank (hne : w ≠ []) (h : ∀ c ∈ w, isBlank c = false) :
    words w = [w] := by
  rw [words, List.splitOnP_eq_singleton h]
  exact List.filter_cons_of_pos (by simp [hne])

/-- Blanks in front belong to no word. -/
theorem words_append_of_isBlank {front : List Char} (h : ∀ c ∈ front, isBlank c = true) :
    words (front ++ cs) = words cs := by
  induction front with
  | nil => rfl
  | cons c front ih =>
    rw [List.forall_mem_cons] at h
    exact (words_append_cons [] (front ++ cs) h.1).trans (ih h.2)

/-- Blanks at the end belong to no word. -/
theorem words_append_isBlank {back : List Char} (h : ∀ c ∈ back, isBlank c = true) :
    words (cs ++ back) = words cs := by
  cases back with
  | nil => rw [List.append_nil]
  | cons c back =>
    rw [List.forall_mem_cons] at h
    have hback : words (back ++ []) = words [] := words_append_of_isBlank h.2
    rw [List.append_nil] at hback
    rw [words_append_cons cs back h.1, hback, words_nil, List.append_nil]

/-- Trimming keeps the words. -/
theorem words_trim (cs : List Char) : words (trim cs) = words cs := by
  obtain ⟨⟨front, back, hcs, hf, hb⟩, -⟩ := trimsTo_trim cs
  generalize trim cs = l at *
  rw [hcs, words_append_of_isBlank hf, words_append_isBlank hb]

/-! ### Lines -/

/-- The sequences of characters that end a line: eleven single ones or pairs. -/
def lineEnds : List (List Char) :=
  [['\n'], ['\r'], ['\r', '\n'], ['\x0b'], ['\x0c'], ['\x1c'], ['\x1d'], ['\x1e'], ['\u0085'],
    ['\u2028'], ['\u2029']]

/-- Lines end at a character that ends them. -/
theorem lines_append_cons (xs ys : List Char) (hc : isLineEnd c = true) :
    lines (xs ++ c :: ys) = lines xs ++ lines ys := by
  rw [lines, List.splitOnP_append_cons xs ys hc, List.map_append, List.filter_append]
  rfl

private theorem lines_append_of_isLineEnd {front : List Char}
    (h : ∀ c ∈ front, isLineEnd c = true) :
    lines (front ++ cs) = lines cs := by
  induction front with
  | nil => rfl
  | cons c front ih =>
    rw [List.forall_mem_cons] at h
    exact (lines_append_cons [] (front ++ cs) h.1).trans (ih h.2)

/-- A line is ended by each of the sequences that end lines. Between the characters of a pair there
is no line to be found. -/
theorem lines_append_lineEnd (xs ys : List Char) {e : List Char} (he : e ∈ lineEnds) :
    lines (xs ++ (e ++ ys)) = lines xs ++ lines ys := by
  have hends : ∀ e ∈ lineEnds, e ≠ [] ∧ e.all isLineEnd = true := by decide
  obtain ⟨hne, hall⟩ := hends e he
  rw [List.all_eq_true] at hall
  obtain ⟨c, e, rfl⟩ := List.exists_cons_of_ne_nil hne
  rw [List.forall_mem_cons] at hall
  rw [List.cons_append, lines_append_cons xs _ hall.1, lines_append_of_isLineEnd hall.2]

/-- A text without line ends is one line, unless it is blank. -/
theorem lines_of_forall_not_isLineEnd (h : ∀ c ∈ cs, isLineEnd c = false) :
    lines cs = [trim cs].filter (!·.isEmpty) := by
  rw [lines, List.splitOnP_eq_singleton h]
  rfl

end Line21.Text
