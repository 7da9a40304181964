import Line21.Cue.Basic
import Line21.Number.Binary64
import Line21.Text.Integer

/-!
# Caption units and their times

A source delivers units: bytes with the time at which they are to be decoded. The time is that
of a frame, which is stamped with the nanosecond nearest to its number divided by the frame
rate. The division is one of binary64 numbers when the rate is such a number, and else rounds
the exact quotient of two integers once; a half nanosecond goes to the even neighbour.

A timecode names a frame by hours, minutes, seconds and frames, thirty frames to a second.
Counting with dropped frames leaves out the numbers of two frames in every minute that ten does
not divide, so that the count keeps up with the clock.
-/

namespace Line21

open Number

/-- Bytes of which the first two are a pair, with the time of the pair in nanoseconds. -/
structure CaptionUnit where
  data : List UInt8
  /-- The time, unless the source gave none. -/
  time : Option Int
  deriving DecidableEq, Repr

/-- The line that opens every SCC file. -/
def sccHeader : String := "Scenarist_SCC V1.0"

/-- Why a caption file cannot be read. -/
inductive ReadError
  /-- The first line of an SCC file is not the header. -/
  | missingHeader
  /-- A frame has no stamp. -/
  | number (error : NumberError)
  deriving DecidableEq, Repr

/-- The text of the error that a caption file cannot be read. -/
def ReadError.message : ReadError → String
  | .missingHeader => "Not an SCC file: missing '" ++ sccHeader ++ "' header"
  | .number error => error.message

/-! ### Frame rates and stamps -/

/-- Frames in a second. -/
inductive FrameRate
  /-- A binary64 number of frames. -/
  | binary (perSecond : Rat)
  /-- An integer number of frames. -/
  | whole (perSecond : Int)
  deriving DecidableEq, Repr

namespace FrameRate

/-- The binary64 number nearest to thirty frames in 1.001 seconds, the rate of line 21. -/
def standard : FrameRate := .binary (1054476685978981 / 35184372088832)

/-- The binary64 rate nearest to a quotient of integers. -/
def ofQuotient (numerator denominator : Int) : Except NumberError FrameRate :=
  if denominator = 0 then .error .zeroDivisor
  else match Binary64.nearest? (numerator / denominator) with
    | some r => .ok (.binary r)
    | none => .error .quotientRange

/-- The time of a frame in nanoseconds, where the first frame has number zero. -/
def stamp (rate : FrameRate) (frame : Int) : Except NumberError Int :=
  let nanoseconds : Rat := frame * nanosecondsPerSecond
  match rate with
  | .binary perSecond =>
    match Binary64.nearest? nanoseconds with
    | none => .error .integerRange
    | some n =>
      if perSecond = 0 then .error .binaryZeroDivisor
      else match Binary64.nearest? (n / perSecond) with
        | none => .error .infinite
        | some q => .ok (halfEven q)
  | .whole perSecond =>
    if perSecond = 0 then .error .zeroDivisor
    else match Binary64.nearest? (nanoseconds / perSecond) with
      | none => .error .quotientRange
      | some q => .ok (halfEven q)

/-- The standard rate is the binary64 number nearest to thirty frames in 1.001 seconds. -/
theorem ofQuotient_standard : ofQuotient 30000 1001 = .ok standard := by
  have hrate : Binary64.nearest? ((30000 : Int) / (1001 : Int)) =
      some (1054476685978981 / 35184372088832) := by decide +kernel
  rw [ofQuotient, if_neg (by decide), hrate]
  rfl

example : (standard.stamp 1).toOption = some 33366667 := by decide +kernel

end FrameRate

/-! ### Timecodes -/

/-- A time in hours, minutes, seconds and frames. -/
structure Timecode where
  hours : Nat
  minutes : Nat
  seconds : Nat
  frames : Nat
  /-- Whether the count leaves frame numbers out. -/
  drops : Bool
  deriving DecidableEq, Repr

/-- A text is no timecode. -/
structure InvalidTimecode where
  text : String
  deriving DecidableEq, Repr

/-- The text of the error that a text is no timecode. -/
def InvalidTimecode.message (e : InvalidTimecode) : String :=
  "Invalid SCC timecode '" ++ e.text ++ "'"

namespace Timecode

/-- Whether frame numbers are left out, told from the mark before the frames. -/
def dropsOfMark? : Char → Option Bool
  | ':' => some false
  | ';' | '.' | ',' => some true
  | _ => none

/-- The timecode that characters spell: four numbers of two digits. -/
def ofChars? : List Char → Option Timecode
  | [h, h', ':', m, m', ':', s, s', mark, f, f'] => do
    let hours ← Text.twoDigits? h h'
    let minutes ← Text.twoDigits? m m'
    let seconds ← Text.twoDigits? s s'
    let drops ← dropsOfMark? mark
    let frames ← Text.twoDigits? f f'
    return { hours, minutes, seconds, frames, drops }
  | _ => none

/-- The timecode of a text, which may end in a line feed. -/
def ofText (text : String) : Except InvalidTimecode Timecode :=
  let cs := text.toList
  let line := if cs.getLast? = some '\n' then cs.dropLast else cs
  match ofChars? line with
  | some t => .ok t
  | none => .error ⟨text⟩

/-- The minutes of a timecode, hours included. -/
def totalMinutes (t : Timecode) : Nat := 60 * t.hours + t.minutes

/-- The number of the frame that a timecode names. -/
def frame (t : Timecode) : Nat :=
  let count := (60 * t.totalMinutes + t.seconds) * 30 + t.frames
  if t.drops then count - 2 * (t.totalMinutes - t.totalMinutes / 10) else count

/-- A timecode that is read has fields below one hundred. -/
theorem lt_of_ofChars? {cs : List Char} {t : Timecode} (h : ofChars? cs = some t) :
    t.hours < 100 ∧ t.minutes < 100 ∧ t.seconds < 100 ∧ t.frames < 100 := by
  unfold ofChars? at h
  split at h
  · simp only [Option.bind_eq_bind, Option.bind_eq_some_iff] at h
    obtain ⟨a, ha, b, hb, c, hc, d, _, e, he, h⟩ := h
    cases h
    exact ⟨Text.twoDigits?_lt ha, Text.twoDigits?_lt hb, Text.twoDigits?_lt hc,
      Text.twoDigits?_lt he⟩
  · cases h

end Timecode

end Line21
