/-!
# Blank characters and line ends

The white space that surrounds fields, and the characters that end a line. Every line end
is blank. Texts are cut into trimmed lines and into words; neither ever holds a blank at an
end, and blank pieces vanish, so a carriage return followed by a line feed counts once.
-/

namespace Line21.Text

/-- White space of Unicode. -/
def isWhite (c : Char) : Bool :=
  let n := c.toNat
  (0x09 ≤ n && n ≤ 0x0d) || n == 0x20 || n == 0x85 || n == 0xa0 || n == 0x1680 ||
    (0x2000 ≤ n && n ≤ 0x200a) || n == 0x2028 || n == 0x2029 || n == 0x202f || n == 0x205f ||
    n == 0x3000

/-- White space of Unicode together with the four information separators. -/
def isBlank (c : Char) : Bool := isWhite c || (0x1c ≤ c.toNat && c.toNat ≤ 0x1f)

/-- The characters that end a line: feeds, returns, three separators, next line, and the
line and paragraph separators. -/
def isLineEnd (c : Char) : Bool :=
  let n := c.toNat
  (0x0a ≤ n && n ≤ 0x0d) || (0x1c ≤ n && n ≤ 0x1e) || n == 0x85 || n == 0x2028 || n == 0x2029

/-- The space, and the five controls from the tab to the carriage return. -/
def isPlainBlank (c : Char) : Bool :=
  c == ' ' || (0x09 ≤ c.toNat && c.toNat ≤ 0x0d)

/-- A text without the characters of a kind at both of its ends. -/
def trimBy (kind : Char → Bool) (cs : List Char) : List Char :=
  ((cs.dropWhile kind).reverse.dropWhile kind).reverse

/-- A text without the blanks at both of its ends. -/
def trim (cs : List Char) : List Char := trimBy isBlank cs

/-- The lines of a text in order, trimmed; lines that are blank are left out. -/
def lines (cs : List Char) : List (List Char) :=
  ((cs.splitOnP isLineEnd).map trim).filter (!·.isEmpty)

/-- The maximal runs of characters that are not blank, in order. -/
def words (cs : List Char) : List (List Char) :=
  (cs.splitOnP isBlank).filter (!·.isEmpty)

/-- Characters on whose kind two kinds agree are trimmed alike. -/
theorem trimBy_congr {kind kind' : Char → Bool} {cs : List Char}
    (h : ∀ c ∈ cs, kind c = kind' c) : trimBy kind cs = trimBy kind' cs := by
  have hd (cs : List Char) (h : ∀ c ∈ cs, kind c = kind' c) :
      cs.dropWhile kind = cs.dropWhile kind' := by
    induction cs with
    | nil => rfl
    | cons c cs ih =>
      rw [List.dropWhile_cons, List.dropWhile_cons, h c List.mem_cons_self,
        ih fun x hx ↦ h x (List.mem_cons_of_mem c hx)]
  rw [trimBy, trimBy, hd cs h, hd _ fun c hc ↦ h c ?_]
  exact List.dropWhile_subset _ (List.mem_reverse.mp hc)

/-- A line end is blank. -/
theorem isBlank_of_isLineEnd {c : Char} (h : isLineEnd c = true) : isBlank c = true := by
  simp only [isLineEnd, isBlank, isWhite, Bool.or_eq_true, Bool.and_eq_true, decide_eq_true_eq,
    beq_iff_eq] at *
  omega

end Line21.Text
