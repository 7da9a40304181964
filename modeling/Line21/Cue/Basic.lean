/-!
# Times and cues

Times are integers of nanoseconds, of any sign and size. On the clock a time is split into
hours, minutes, seconds and milliseconds, rounding down, so hours carry the sign and are
never wrapped at a day.

A caption that came to be shown waits until the next moment ends it; only then it is a cue,
with a duration and a number. At most one caption waits at a time.
-/

namespace Line21

/-! ### Times on the clock -/

/-- The nanoseconds of a second. -/
def nanosecondsPerSecond : Nat := 1000000000

/-- A time on the clock. -/
structure ClockTime where
  hours : Int
  minutes : Nat
  seconds : Nat
  milliseconds : Nat
  deriving DecidableEq, Repr

namespace ClockTime

/-- The milliseconds of a time, rounded down. -/
def millisecondsOf (time : Int) : Int := time / 1000000

/-- A time on the clock, rounded down to the millisecond. -/
def ofNanoseconds (time : Int) : ClockTime :=
  let milliseconds := millisecondsOf time
  { hours := milliseconds / 3600000
    minutes := (milliseconds / 60000 % 60).toNat
    seconds := (milliseconds / 1000 % 60).toNat
    milliseconds := (milliseconds % 1000).toNat }

/-- The milliseconds that a clock shows. -/
def toMilliseconds (t : ClockTime) : Int :=
  ((t.hours * 60 + t.minutes) * 60 + t.seconds) * 1000 + t.milliseconds

/-- The clock shows the milliseconds of the time. -/
theorem toMilliseconds_ofNanoseconds (time : Int) :
    (ofNanoseconds time).toMilliseconds = millisecondsOf time := by
  simp only [toMilliseconds, ofNanoseconds]
  omega

/-- Minutes stay below sixty. -/
theorem minutes_ofNanoseconds_lt (time : Int) : (ofNanoseconds time).minutes < 60 := by
  simp only [ofNanoseconds]
  omega

/-- Seconds stay below sixty. -/
theorem seconds_ofNanoseconds_lt (time : Int) : (ofNanoseconds time).seconds < 60 := by
  simp only [ofNanoseconds]
  omega

/-- Milliseconds stay below one thousand. -/
theorem milliseconds_ofNanoseconds_lt (time : Int) :
    (ofNanoseconds time).milliseconds < 1000 := by
  simp only [ofNanoseconds]
  omega

example : ofNanoseconds (-1) = ⟨-1, 59, 59, 999⟩ := by decide +kernel

end ClockTime

/-! ### Cues -/

/-- A shown caption that waits for its end. -/
structure Pending where
  /-- When the caption came to be shown. -/
  start : Int
  text : String
  deriving DecidableEq, Repr

/-- A caption with its time on the screen. -/
structure Cue where
  start : Int
  duration : Int
  text : String
  /-- The number of the cue in its stream, from one. -/
  number : Int
  deriving DecidableEq, Repr

/-- When a cue leaves the screen. -/
def Cue.finish (c : Cue) : Int := c.start + c.duration

/-- The time between a start and a finish, or none at all when time runs backwards. -/
def durationBetween (start finish : Int) : Int := max 0 (finish - start)

/-- The cue of a waiting caption that ends at a finish. -/
def Pending.close (p : Pending) (finish : Int) (number : Int) : Cue :=
  { start := p.start, duration := durationBetween p.start finish, text := p.text, number }

/-- Room for one waiting caption. -/
structure Slot where
  held : Option Pending := none
  deriving DecidableEq, Repr

namespace Slot

/-- The slot without a caption. -/
def empty : Slot := {}

/-- Put a caption in, and hand out the one that was held. -/
def replace (s : Slot) (p : Pending) : Option Pending × Slot := (s.held, ⟨some p⟩)

/-- Hand out the caption that was held. -/
def take (s : Slot) : Option Pending × Slot := (s.held, empty)

/-- Forget the caption that was held. -/
def discard (_ : Slot) : Slot := empty

end Slot

/-- A duration is never negative. -/
theorem durationBetween_nonneg (start finish : Int) : 0 ≤ durationBetween start finish := by
  simp only [durationBetween]
  omega

/-- A start that is its own finish takes no time. -/
theorem durationBetween_self (start : Int) : durationBetween start start = 0 := by
  simp only [durationBetween]
  omega

/-- A duration leads from the start to the finish when time runs forwards. -/
theorem add_durationBetween {start finish : Int} (h : start ≤ finish) :
    start + durationBetween start finish = finish := by
  simp only [durationBetween]
  omega

end Line21
