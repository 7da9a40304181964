import Line21.Text.Blank

/-!
# Integers in decimal

Decimal digits of every script with their values, and integers filled up with zeros to a least
width.

Integers are also read as people spell them: a sign perhaps, ASCII digits in groups between
single underscores, and perhaps a point with zeros and nothing else behind it. Zeros may be
filled in in front, before a minus sign as well as behind it. White space may surround the
whole. Integers of more than a fixed number of digits are refused. These are the rules that the
library that validates request bodies documents for integers that come as strings.
-/

namespace Line21.Text

/-! ### Decimal digits -/

/-- The code points of the digits zero, one for each run of ten digits of a script. -/
def digitZeros : List Nat :=
  [0x0030, 0x0660, 0x06f0, 0x07c0, 0x0966, 0x09e6, 0x0a66, 0x0ae6, 0x0b66, 0x0be6, 0x0c66,
   0x0ce6, 0x0d66, 0x0de6, 0x0e50, 0x0ed0, 0x0f20, 0x1040, 0x1090, 0x17e0, 0x1810, 0x1946,
   0x19d0, 0x1a80, 0x1a90, 0x1b50, 0x1bb0, 0x1c40, 0x1c50, 0xa620, 0xa8d0, 0xa900, 0xa9d0,
   0xa9f0, 0xaa50, 0xabf0, 0xff10, 0x104a0, 0x10d30, 0x11066, 0x110f0, 0x11136, 0x111d0,
   0x112f0, 0x11450, 0x114d0, 0x11650, 0x116c0, 0x11730, 0x118e0, 0x11950, 0x11c50, 0x11d50,
   0x11da0, 0x16a60, 0x16ac0, 0x16b50, 0x1d7ce, 0x1d7d8, 0x1d7e2, 0x1d7ec, 0x1d7f6, 0x1e140,
   0x1e2f0, 0x1e950, 0x1fbf0]

/-- The value of a decimal digit of any script, below ten. -/
def digit? (c : Char) : Option Nat :=
  (digitZeros.find? (fun z ↦ z ≤ c.toNat && c.toNat ≤ z + 9)).map (c.toNat - ·)

/-- The number that two decimal digits spell. -/
def twoDigits? (tens ones : Char) : Option Nat := do
  let t ← digit? tens
  let o ← digit? ones
  return 10 * t + o

/-- A digit's value is below ten. -/
theorem digit?_lt {c : Char} {n : Nat} (h : digit? c = some n) : n < 10 := by
  obtain ⟨z, hz, rfl⟩ := Option.map_eq_some_iff.mp h
  have hp := List.find?_some hz
  simp only [Bool.and_eq_true, decide_eq_true_eq] at hp
  omega

/-- Two digits spell a number below one hundred. -/
theorem twoDigits?_lt {t o : Char} {n : Nat} (h : twoDigits? t o = some n) : n < 100 := by
  simp only [twoDigits?, Option.bind_eq_bind, Option.bind_eq_some_iff] at h
  obtain ⟨a, ha, b, hb, h⟩ := h
  have hn : 10 * a + b = n := by simpa using h
  have := digit?_lt ha
  have := digit?_lt hb
  omega

/-! ### Padded numbers -/

/-- The digits of a number, with zeros in front up to the width. -/
def paddedNat (width n : Nat) : String :=
  let digits := toString n
  String.ofList (List.replicate (width - digits.length) '0') ++ digits

/-- An integer in decimal, at least as wide as asked. -/
def padded (width : Nat) (n : Int) : String :=
  if n < 0 then "-" ++ paddedNat (width - 1) n.natAbs else paddedNat width n.natAbs

example : padded 2 (-1) = "-1" := by decide +kernel
example : padded 3 (-1) = "-01" := by decide +kernel

/-! ### Integers that are spelled -/

namespace Integer

/-- The number of a sequence of ASCII digits. -/
def valueOf (digits : List Char) : Nat :=
  digits.foldl (fun n c ↦ 10 * n + (c.toNat - 0x30)) 0

/-- Digits have no zero in front, unless they are a single zero. -/
def isPlain : List Char → Bool
  | '0' :: rest => rest.isEmpty
  | _ => true

/-- The number that groups of digits spell, between single underscores. -/
def ofGroups? (cs : List Char) : Option Nat :=
  let groups := cs.splitOnP (· == '_')
  if groups.all (fun g ↦ !g.isEmpty && g.all Char.isDigit) && isPlain groups.flatten then
    some (valueOf groups.flatten)
  else none

/-- A text without the zeros in front and the underscores among them. Where there is nothing
else, the last of them stays. -/
def dropZeros : List Char → List Char
  | '0' :: cs =>
    match cs.dropWhile fun c ↦ c == '0' || c == '_' with
    | [] => [cs.getLastD '0']
    | rest => rest
  | cs => cs

/-- A text without its point, when zeros and nothing else stand behind the point. -/
def dropPoint (cs : List Char) : List Char :=
  match cs.dropWhile (· != '.') with
  | _ :: '0' :: places => if places.all (· == '0') then cs.takeWhile (· != '.') else cs
  | _ => cs

/-- The integer that a text spells which does not begin with a sign. Behind zeros a minus sign
may stand, and an underscore behind the sign. -/
def ofUnsigned? (cs : List Char) : Option Int :=
  match cs, dropZeros cs with
  | '0' :: _, '-' :: '_' :: digits => (ofGroups? digits).map fun n ↦ -(n : Int)
  | '0' :: _, '-' :: digits => (ofGroups? digits).map fun n ↦ -(n : Int)
  | _, digits => (ofGroups? digits).map fun n ↦ (n : Int)

/-- The integer that a text without white space around it spells, of any length. -/
def ofTrimmed? (cs : List Char) : Option Int :=
  match dropPoint cs with
  | '-' :: rest => (ofGroups? (dropZeros rest)).map fun n ↦ -(n : Int)
  | '+' :: rest => ofUnsigned? rest
  | rest => ofUnsigned? rest

/-- The most characters that the digits of an integer and a minus sign may take. -/
def longest : Nat := 4300

/-- Whether an integer can be spelled in the characters that it may take. -/
def isShort (n : Int) : Bool := -(Nat.pow 10 (longest - 1) : Int) < n && n < Nat.pow 10 longest

/-- The integer that a text spells. -/
def ofChars? (cs : List Char) : Option Int :=
  (ofTrimmed? (trimBy isWhite cs)).filter isShort

example : ofChars? "+1_000.00".toList = some 1000 := by decide +kernel
example : ofChars? " -007\n".toList = some (-7) := by decide +kernel
example : ofChars? "00_0".toList = some 0 := by decide +kernel
example : ofChars? "00-7".toList = some (-7) := by decide +kernel
example : ofChars? "1__0".toList = none := by decide +kernel
example : ofChars? "-_1".toList = none := by decide +kernel
example : ofChars? "1.".toList = none := by decide +kernel
example : ofChars? "1.5".toList = none := by decide +kernel

end Integer

end Line21.Text
