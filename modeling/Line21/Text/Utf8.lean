/-!
# Reading bytes as text

Bytes are read as UTF-8, and every maximal run of bytes that begins a character without
finishing it, like every byte that cannot begin one, is read as one replacement character.
The reading is a fold over the bytes, so it is settled by one step per byte.
-/

namespace Line21.Text.Utf8

/-- What stands for bytes that spell no character. -/
def replacement : Char := '\uFFFD'

/-- A character of which the first bytes have been read. -/
structure Begun where
  /-- The bits read so far. -/
  bits : Nat
  /-- How many bytes follow the next one. -/
  owed : Nat
  /-- The least next byte. -/
  low : UInt8 := 0x80
  /-- The greatest next byte. -/
  high : UInt8 := 0xbf
  deriving DecidableEq, Repr

/-- The character that a first byte of two or more begins. The bounds on the second byte
leave out overlong forms, surrogates and numbers past the last code point. -/
def Begun.ofFirst? (b : UInt8) : Option Begun :=
  if 0xc2 ≤ b && b ≤ 0xdf then some { bits := b.toNat % 0x20, owed := 0 }
  else if b == 0xe0 then some { bits := 0, owed := 1, low := 0xa0 }
  else if b == 0xed then some { bits := 0xd, owed := 1, high := 0x9f }
  else if 0xe1 ≤ b && b ≤ 0xef then some { bits := b.toNat % 0x10, owed := 1 }
  else if b == 0xf0 then some { bits := 0, owed := 2, low := 0x90 }
  else if 0xf1 ≤ b && b ≤ 0xf3 then some { bits := b.toNat % 8, owed := 2 }
  else if b == 0xf4 then some { bits := 4, owed := 2, high := 0x8f }
  else none

/-- A text read so far, and the character begun behind it. -/
structure Reading where
  text : String := ""
  begun : Option Begun := none

namespace Reading

/-- Read a byte that stands between characters. -/
def first (text : String) (b : UInt8) : Reading :=
  if b < 0x80 then { text := text.push (Char.ofNat b.toNat) }
  else match Begun.ofFirst? b with
    | some begun => { text, begun }
    | none => { text := text.push replacement }

/-- Read one byte. A byte that cannot go on with the character begun leaves a replacement
behind and is read afresh. -/
def step (r : Reading) (b : UInt8) : Reading :=
  match r.begun with
  | none => first r.text b
  | some g =>
    if g.low ≤ b && b ≤ g.high then
      let bits := 0x40 * g.bits + b.toNat % 0x40
      match g.owed with
      | 0 => { text := r.text.push (Char.ofNat bits) }
      | owed + 1 => { r with begun := some { bits, owed } }
    else first (r.text.push replacement) b

/-- The text read when no byte is left. -/
def finish (r : Reading) : String :=
  match r.begun with
  | none => r.text
  | some _ => r.text.push replacement

end Reading

/-- The text that bytes spell, with replacements where they spell none. -/
def decode (bytes : List UInt8) : String := (bytes.foldl Reading.step {}).finish

/-- Bytes without the byte order mark in front of them. -/
def dropMark : List UInt8 → List UInt8
  | 0xef :: 0xbb :: 0xbf :: rest => rest
  | bytes => bytes

/-- A byte below 0x80 between characters spells the character of its number. -/
theorem step_ascii {text : String} {b : UInt8} (h : b < 0x80) :
    Reading.step { text } b = { text := text.push (Char.ofNat b.toNat) } := by
  simp [Reading.step, Reading.first, h]

end Line21.Text.Utf8
