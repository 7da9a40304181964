import Line21.Proofs.Receiver.Repertoire
import Mathlib.Data.Int.Range

/-!
# Receivers on bare numbers

The types of a receiver leave no room for a cell off the screen or a place beyond a table. A bare
receiver does without them. Pairs, positions and depths are numbers, memories and tables are
lists, and places are computed from the bits of a pair and from the cursor, without a look at how
long a list is. A place that is not there stops the receiver, and so does a pair without its
parity. What was changed before stays changed.
-/

namespace Line21

/-- A memory as a list of rows of cells. -/
abbrev Grid := List (List (Option Char))

/-- A receiver on bare numbers. -/
structure Bare where
  shown : Grid
  hidden : Grid
  row : Int
  column : Int
  target : Option Plane
  /-- The depth of the window in which captions roll up, or zero. -/
  depth : Int
  /-- The number of the channel that was selected last. -/
  channel : Nat
  last : Nat
  inPacket : Bool
  displayed : Bool

/-- What stops a bare receiver. -/
inductive Stop
  /-- A byte of a pair has even parity. -/
  | parity (pair : Nat)
  /-- A list of some length has no such place. -/
  | outside (length : Nat) (place : Int)

namespace Bare

/-- What a bare receiver does: it ends in a state, with a result or at a stop. -/
abbrev Deed := EStateM Stop Bare

/-! ### Places in lists -/

/-- The item at a place of a list. -/
def look {α : Type} (xs : List α) (place : Int) : Deed α :=
  if h : 0 ≤ place ∧ place.toNat < xs.length then pure xs[place.toNat]
  else throw (.outside xs.length place)

/-- A list with another item at a place. -/
def replace {α : Type} (xs : List α) (place : Int) (x : α) : Deed (List α) :=
  if 0 ≤ place ∧ place.toNat < xs.length then pure (xs.set place.toNat x)
  else throw (.outside xs.length place)

/-! ### Memories -/

/-- A row without characters. -/
def emptyRow : List (Option Char) := List.replicate 32 none

/-- A memory without characters. -/
def emptyGrid : Grid := List.replicate 15 emptyRow

/-- A receiver that has heard nothing. -/
def fresh : Bare where
  shown := emptyGrid
  hidden := emptyGrid
  row := 14
  column := 0
  target := none
  depth := 0
  channel := 1
  last := 0
  inPacket := false
  displayed := false

/-- The memory that is shown or hidden. -/
def grid (plane : Plane) : Deed Grid := do
  let b ← get
  match plane with
  | .shown => return b.shown
  | .hidden => return b.hidden

/-- Change the memory that is shown or hidden. -/
def setGrid (plane : Plane) (grid : Grid) : Deed Unit :=
  modify fun b ↦ match plane with
    | .shown => { b with shown := grid }
    | .hidden => { b with hidden := grid }

/-- Change a row of a memory. -/
def setRow (plane : Plane) (row : Int) (cells : List (Option Char)) : Deed Unit := do
  let rows ← grid plane
  let rows ← replace rows row cells
  setGrid plane rows

/-- Change a cell of a memory. -/
def setCell (plane : Plane) (row column : Int) (x : Option Char) : Deed Unit := do
  let rows ← grid plane
  let cells ← look rows row
  let cells ← replace cells column x
  setRow plane row cells

/-- Move the cursor to the right, no further than the last column. -/
def moveOn (columns : Int) : Deed Unit :=
  modify fun b ↦ { b with column := min (b.column + columns) 31 }

/-- Put a character at the cursor and move the cursor on. -/
def type (plane : Plane) (x : Char) : Deed Unit := do
  let b ← get
  setCell plane b.row b.column (some x)
  moveOn 1

/-- Write characters where characters go. -/
def write (chars : List Char) : Deed Moment := do
  let b ← get
  match b.target with
  | none => return .quiet
  | some .hidden =>
    chars.forM (type .hidden)
    return .quiet
  | some .shown =>
    chars.forM (type .shown)
    modify fun b ↦ { b with displayed := true }
    return .shown

/-- Move the cursor back and empty the cell there. -/
def backspace : Deed Unit := do
  let b ← get
  match b.target with
  | none => return
  | some plane =>
    if b.column = 0 then return
    else
      modify fun b ↦ { b with column := b.column - 1 }
      setCell plane b.row (b.column - 1) none

/-- Empty the row from the cursor on. -/
def eraseToEnd : Deed Unit := do
  let b ← get
  match b.target with
  | none => return
  | some plane => (Int.range b.column 32).forM fun column ↦ setCell plane b.row column none

/-- Copy the row below into a row of the shown memory. -/
def copyUp (row : Int) : Deed Unit := do
  let rows ← grid .shown
  let cells ← look rows (row + 1)
  setRow .shown row cells

/-- Empty a row of the shown memory. -/
def clearRow (row : Int) : Deed Unit := setRow .shown row emptyRow

/-- Roll the window up by a row and go to its left edge. -/
def carriageReturn : Deed Unit := do
  let b ← get
  if b.depth = 0 then return
  else
    let top := max (b.row - (b.depth - 1)) 0
    (Int.range top b.row).forM copyUp
    clearRow b.row
    (Int.range 0 top).forM clearRow
    modify fun b ↦ { b with column := 0 }

/-! ### Pairs as numbers -/

/-- The number of set bits among the low eight is odd. -/
def hasOddBits (n : Nat) : Bool := (List.range 8).countP (n &&& 0xff).testBit % 2 == 1

/-- The number of the channel for which a pair without parity bits is. -/
def channelOf (cc : Nat) : Nat := if cc &&& 0x0800 = 0 then 1 else 2

/-- A pair belongs to an extended data packet. -/
def isPacket (cc : Nat) : Bool := 0x01 ≤ cc >>> 8 && cc >>> 8 ≤ 0x0f

/-- A pair ends an extended data packet. -/
def endsPacket (cc : Nat) : Bool := cc >>> 8 == 0x0f

/-- A pair is a command, of either channel. -/
def isControl (cc : Nat) : Bool := cc &&& 0x7670 == 0x1420

/-- A pair moves the cursor by one to three columns. -/
def isTab (cc : Nat) : Bool := cc &&& 0x777c == 0x1720 && cc &&& 0x0003 != 0

/-- A pair moves the cursor to a row. -/
def isPreamble (cc : Nat) : Bool := cc &&& 0x7040 == 0x1040

/-- A pair changes the style. -/
def isMidRow (cc : Nat) : Bool := cc &&& 0x7770 == 0x1120

/-- A pair is one of the special characters. -/
def isSpecial (cc : Nat) : Bool := cc &&& 0x7770 == 0x1130

/-- A pair is one of the extended characters. -/
def isExtended (cc : Nat) : Bool := cc &&& 0x7660 == 0x1220

/-- A pair is made of basic characters. -/
def isBasic (cc : Nat) : Bool := 0x20 ≤ cc >>> 8

/-- The rows of preambles, with a negative one for codes that name no row. -/
def rowTable : List Int := [10, -1, 0, 1, 2, 3, 11, 12, 13, 14, 4, 5, 6, 7, 8, 9]

/-- The place of a preamble in the table of rows. -/
def rowPlace (cc : Nat) : Nat := (cc &&& 0x0700) >>> 7 ||| (cc &&& 0x0020) >>> 5

/-- The column of a preamble. -/
def columnOf (cc : Nat) : Nat := if cc &&& 0x0010 = 0 then 0 else 4 * ((cc &&& 0x000e) >>> 1)

/-- Move the cursor to where a preamble says. -/
def moveTo (cc : Nat) : Deed Unit := do
  let row ← look rowTable (rowPlace cc)
  if row < 0 then return
  else modify fun b ↦ { b with row := row, column := columnOf cc }

/-- The one or two basic characters of a pair. -/
def basicChars (cc : Nat) : Deed (List Char) := do
  let first ← look Charset.basics ((cc >>> 8 : Nat) - 0x20)
  if 0x20 ≤ cc &&& 0x7f then
    let second ← look Charset.basics ((cc &&& 0x7f : Nat) - 0x20)
    return [first, second]
  else return [first]

/-- The special character of a pair. -/
def specialChar (cc : Nat) : Deed Char := look Charset.specials.toList (cc &&& 0x0f : Nat)

/-- The extended character of a pair. -/
def extendedChar (cc : Nat) : Deed Char :=
  look (if cc &&& 0x0100 = 0 then Charset.spanishFrench else Charset.portugueseGerman).toList
    (cc &&& 0x1f : Nat)

/-! ### Hearing pairs -/

/-- Carry out the command of a number. -/
def obey (command : Nat) : Deed Moment :=
  match command with
  | 0x20 => do
    modify fun b ↦ { b with target := some .hidden, depth := 0 }
    return .quiet
  | 0x21 => do
    backspace
    return .quiet
  | 0x24 => do
    eraseToEnd
    return .quiet
  | 0x25 | 0x26 | 0x27 => do
    modify fun b ↦ { b with target := some .shown, depth := command - 0x25 + 2, column := 0 }
    return .quiet
  | 0x29 => do
    modify fun b ↦ { b with target := some .shown, depth := 0 }
    return .quiet
  | 0x2a | 0x2b => do
    modify fun b ↦ { b with target := none }
    return .quiet
  | 0x2c => do
    modify fun b ↦ { b with shown := b.shown.map (·.map fun _ ↦ none) }
    return .cleared
  | 0x2d => do
    carriageReturn
    return .quiet
  | 0x2e => do
    modify fun b ↦ { b with hidden := b.hidden.map (·.map fun _ ↦ none) }
    return .quiet
  | 0x2f => do
    modify fun b ↦ { b with shown := b.hidden, hidden := emptyGrid, displayed := true }
    return .shown
  | _ => return .quiet

/-- Select the channel of a pair and carry out its command, if that is for channel one. -/
def control (cc : Nat) : Deed Moment := do
  modify fun b ↦ { b with channel := channelOf cc }
  if channelOf cc = 1 then obey (cc &&& 0xff) else return .quiet

/-- Move the cursor to the right, if the pair is for the channel that is selected. -/
def tab (cc : Nat) : Deed Moment := do
  let b ← get
  if channelOf cc = b.channel ∧ b.channel = 1 then moveOn (cc &&& 0x0003 : Nat)
  return .quiet

/-- Select the channel of a pair and move the cursor, if that is for channel one. -/
def preamble (cc : Nat) : Deed Moment := do
  modify fun b ↦ { b with channel := channelOf cc }
  if channelOf cc = 1 then moveTo cc
  return .quiet

/-- Select the channel of a pair and write a space, if that is for channel one. -/
def midRow (cc : Nat) : Deed Moment := do
  modify fun b ↦ { b with channel := channelOf cc }
  if channelOf cc = 1 then write [' '] else return .quiet

/-- Write the characters of a pair. -/
def characters (cc : Nat) : Deed Moment := do
  if isSpecial cc then
    let x ← specialChar cc
    write [x]
  else if isExtended cc then
    backspace
    let x ← extendedChar cc
    write [x]
  else if isBasic cc then
    let chars ← basicChars cc
    write chars
  else return .quiet

/-- Act on a pair without parity bits. Characters are for the channel that is selected. -/
def act (cc : Nat) : Deed Moment := do
  if isControl cc then control cc
  else if isTab cc then tab cc
  else if isPreamble cc then preamble cc
  else if isMidRow cc then midRow cc
  else
    let b ← get
    if b.channel = 1 then characters cc else return .quiet

/-- A pair is a code that is sent twice for safety and counts once. -/
def isDoubled (cc : Nat) : Bool :=
  isControl cc || isTab cc || isMidRow cc || isSpecial cc || isPreamble cc

/-- Hear a pair outside of packets. -/
def hear (cc : Nat) : Deed Moment := do
  let b ← get
  if isDoubled cc && cc == b.last then
    modify fun b ↦ { b with last := 0 }
    return .quiet
  else
    modify fun b ↦ { b with last := cc }
    act cc

/-- Hear a pair without parity bits that is no padding. -/
def step (cc : Nat) : Deed Moment := do
  let b ← get
  if b.inPacket then
    if isControl cc || isPreamble cc then
      modify fun b ↦ { b with inPacket := false }
      hear cc
    else if endsPacket cc then
      modify fun b ↦ { b with inPacket := false }
      return .quiet
    else return .quiet
  else if isPacket cc then
    modify fun b ↦ { b with inPacket := !endsPacket cc }
    return .quiet
  else hear cc

/-- Receive a pair as it was sent. -/
def receive (pair : Nat) : Deed Moment :=
  if hasOddBits (pair >>> 8) && hasOddBits pair then
    if pair &&& 0x7f7f = 0 then return .quiet else step (pair &&& 0x7f7f)
  else throw (.parity pair)

end Bare

/-- What a receiver is fed. -/
inductive Feed
  | pair (p : BytePair)
  /-- An order to forget everything. -/
  | reset

/-- The state of a bare receiver that was fed, also if it stopped. -/
def Bare.feed (b : Bare) : Feed → Bare
  | .pair p =>
    match receive p.toNat b with
    | .ok _ b' | .error _ b' => b'
  | .reset => fresh

end Line21
