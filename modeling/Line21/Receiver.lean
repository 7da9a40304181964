import Line21.Code.Basic
import Line21.Screen.Memory
import Line21.Text.Hex

/-!
# The caption receiver

A receiver hears byte pairs and keeps two memories: the one that is shown and a hidden one
in which captions are loaded. It tells when a caption comes to be shown and when the shown
one is cleared; everything else is quiet. Only channel one is ever written.

Hearing a pair goes through three gates. Padding passes by. Extended data packets are
skipped up to their end or to a code that interrupts them. A doubled code that repeats the
last pair is dropped, once.
-/

namespace Line21

/-- What a pair did to the display. -/
inductive Moment
  /-- Nothing to report. -/
  | quiet
  /-- A caption is shown and can be read. -/
  | shown
  /-- The shown caption was erased. -/
  | cleared
  deriving DecidableEq, Repr

/-- One of the two memories. -/
inductive Plane
  | shown
  | hidden
  deriving DecidableEq, Repr

/-- A pair arrived with a byte of even parity. -/
structure ParityError where
  pair : BytePair
  deriving DecidableEq, Repr

/-- The text of a parity error, naming the pair as it arrived. -/
def ParityError.message (e : ParityError) : String :=
  "Parity error in pair 0x" ++ String.ofList (Text.Hex.ofNat 4 e.pair.toNat)

/-- There is no caption to read, because none was ever shown. -/
inductive NothingShown
  | nothingShown
  deriving DecidableEq, Repr

/-- The text of the error that nothing was shown. -/
def NothingShown.message : NothingShown → String
  | .nothingShown => "No caption frame has been displayed"

/-- The state of a receiver. -/
structure Receiver where
  /-- The memory on the screen. -/
  shown : Memory := .empty
  /-- The memory in which captions are loaded. -/
  hidden : Memory := .empty
  /-- The row of the cursor, which both memories share. -/
  row : Row := 14
  /-- The column of the cursor. -/
  column : Column := 0
  /-- The memory that characters go to, if any. -/
  target : Option Plane := none
  /-- The depth of the roll-up window, while captions roll up. -/
  window : Option Depth := none
  /-- The channel that was selected last. -/
  channel : Channel := .one
  /-- The last pair that could be repeated, or the zero pair. -/
  last : BytePair := .zero
  /-- An extended data packet has started and not ended. -/
  inPacket : Bool := false
  /-- A caption has been shown. -/
  displayed : Bool := false
  deriving DecidableEq, Repr

namespace Receiver

/-- A receiver that has heard nothing. -/
def fresh : Receiver := {}

/-- Change the memory that characters go to. -/
def edit (r : Receiver) (f : Memory → Memory) : Receiver :=
  match r.target with
  | none => r
  | some .shown => { r with shown := f r.shown }
  | some .hidden => { r with hidden := f r.hidden }

/-- Put a character at the cursor and move the cursor on. -/
def type (r : Receiver) (x : Char) : Receiver :=
  { r.edit (·.put r.row r.column (some x)) with column := r.column.advance 1 }

/-- Write characters where characters go. Writing into the shown memory shows a caption. -/
def write (r : Receiver) (chars : List Char) : Receiver × Moment :=
  match r.target with
  | none => (r, .quiet)
  | some .hidden => (chars.foldl type r, .quiet)
  | some .shown => ({ chars.foldl type r with displayed := true }, .shown)

/-- Move the cursor back and empty the cell there. At the left edge nothing happens, nor
while characters go nowhere. -/
def backspace (r : Receiver) : Receiver :=
  match r.target, r.column.back? with
  | some _, some c => { r.edit (·.put r.row c none) with column := c }
  | _, _ => r

/-- Carry out a command. -/
def obey (r : Receiver) : Command → Receiver × Moment
  | .resumeLoading => ({ r with target := some .hidden, window := none }, .quiet)
  | .resumeDirect => ({ r with target := some .shown, window := none }, .quiet)
  | .rollUp depth =>
    ({ r with target := some .shown, window := some depth, column := 0 }, .quiet)
  | .resumeText => ({ r with target := none }, .quiet)
  | .eraseShown => ({ r with shown := .empty }, .cleared)
  | .eraseHidden => ({ r with hidden := .empty }, .quiet)
  | .endCaption => ({ r with shown := r.hidden, hidden := .empty, displayed := true }, .shown)
  | .carriageReturn =>
    match r.window with
    | none => (r, .quiet)
    | some depth => ({ r with shown := r.shown.rollUp r.row depth, column := 0 }, .quiet)
  | .backspace => (r.backspace, .quiet)
  | .eraseToEnd => (r.edit (·.eraseFrom r.row r.column), .quiet)
  | .none => (r, .quiet)

/-- Act on a code. Codes that select a channel do so first; whatever is not for channel one
has no other effect. -/
def act (r : Receiver) : Code → Receiver × Moment
  | .control .one command => { r with channel := .one }.obey command
  | .control .two _ => ({ r with channel := .two }, .quiet)
  | .tab channel columns =>
    if channel = .one ∧ r.channel = .one then
      ({ r with column := r.column.advance columns }, .quiet)
    else (r, .quiet)
  | .preamble .one (some row) column => ({ r with channel := .one, row, column }, .quiet)
  | .preamble channel _ _ => ({ r with channel }, .quiet)
  | .midRow .one => { r with channel := .one }.write [' ']
  | .midRow .two => ({ r with channel := .two }, .quiet)
  | .special x => if r.channel = .one then r.write [x] else (r, .quiet)
  | .extended x => if r.channel = .one then r.backspace.write [x] else (r, .quiet)
  | .basic chars => if r.channel = .one then r.write chars else (r, .quiet)
  | .padding | .packet _ | .unknown => (r, .quiet)

/-- Hear a code outside of packets. A doubled code that repeats the last pair is dropped and
forgotten, so that a third copy counts again. -/
def hear (r : Receiver) (p : BytePair) : Receiver × Moment :=
  if p.code.isDoubled ∧ p = r.last then ({ r with last := .zero }, .quiet)
  else { r with last := p }.act p.code

/-- Hear a pair without parity bits. -/
def step (r : Receiver) (p : BytePair) : Receiver × Moment :=
  match p.code with
  | .padding => (r, .quiet)
  | .packet ends => ({ r with inPacket := !ends }, .quiet)
  | code =>
    if r.inPacket then
      if code.interrupts then { r with inPacket := false }.hear p else (r, .quiet)
    else r.hear p

/-- Receive a pair as it was sent. -/
def receive (r : Receiver) (p : BytePair) : Except ParityError (Receiver × Moment) :=
  if p.parityHolds then .ok (r.step p.stripped) else .error ⟨p⟩

/-- The text on the screen, once a caption has been shown. -/
def text (r : Receiver) : Except NothingShown String :=
  if r.displayed then .ok r.shown.text else .error .nothingShown

end Receiver

end Line21
