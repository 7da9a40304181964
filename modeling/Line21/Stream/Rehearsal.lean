import Line21.Stream.Downstream

/-!
# Rehearsals

A decoder that plays back outcomes from a script, and a consumer with set habits: it fails
at given pushes, refuses, and raises signals while it holds a unit. With the two of them a
stream can be led through every situation that its surroundings can bring about.
-/

namespace Line21

/-- An outcome that a script asks for. -/
inductive Playback.Outcome
  | quiet
  | cleared
  | refused
  /-- A caption is shown, with its text unless it cannot be rendered. -/
  | shown (text : Option String)
  deriving DecidableEq, Repr

/-- A decoder that plays back a script. -/
structure Playback where
  /-- The outcomes to come; when none is left, every pair is quiet. -/
  script : List Playback.Outcome := []
  /-- The text of the caption that was shown last, unless it cannot be rendered. -/
  current : Option String := none
  /-- The pairs taken in, with their times in seconds, in order. -/
  calls : Array (BytePair × Rat) := #[]
  /-- How often the decoder was reset. -/
  resets : Nat := 0
  deriving DecidableEq

namespace Playback

/-- Take in a pair and play back the next outcome. -/
def decode (d : Playback) (p : BytePair) (seconds : Rat) : Playback × Except ParityError Moment :=
  let d := { d with calls := d.calls.push (p, seconds) }
  match d.script with
  | [] => (d, .ok .quiet)
  | .quiet :: script => ({ d with script }, .ok .quiet)
  | .cleared :: script => ({ d with script }, .ok .cleared)
  | .refused :: script => ({ d with script }, .error ⟨p⟩)
  | .shown text :: script => ({ d with script, current := text }, .ok .shown)

instance : CaptionDecoder Playback where
  fresh := {}
  decode := decode
  render d :=
    match d.current with
    | some text => .ok text
    | none => .error .nothingShown
  reset d := { d with current := none, resets := d.resets + 1 }

end Playback

/-- Something that a consumer was told besides units. -/
inductive Notice
  | caps (c : Caps)
  | signal (e : Signal)
  deriving DecidableEq, Repr

/-- A consumer with set habits. -/
structure Stage where
  /-- Whether the consumer takes units and cares for nothing else. -/
  plain : Bool := false
  /-- What it accepts; everything, unless there is a list. -/
  allowed : Option (List Caps) := none
  /-- The pushes that fail, counted from one. -/
  failures : List Nat := []
  /-- Whether announcements are refused. -/
  refusesCaps : Bool := false
  /-- Whether signals are refused. -/
  refusesSignals : Bool := false
  /-- The signal that is raised in answer to each of the first four pushes. -/
  raises : Option Signal := none
  /-- The pushes so far, failed ones included. -/
  pushes : Nat := 0
  /-- The units taken, in order. -/
  units : Array TextUnit := #[]
  /-- What the consumer was told, in order. -/
  notices : Array Notice := #[]
  deriving DecidableEq, Repr

namespace Stage

/-- Take a unit, unless this push is to fail. -/
def push (d : Stage) (u : TextUnit) : Stage × Except String (Option Signal) :=
  let d := { d with pushes := d.pushes + 1 }
  if d.failures.contains d.pushes then (d, .error "downstream full")
  else ({ d with units := d.units.push u }, .ok (if d.pushes ≤ 4 then d.raises else none))

instance : Downstream Stage where
  offer d := (d, if d.plain then none else d.allowed)
  push := push
  announce d c :=
    if d.plain then (d, true)
    else ({ d with notices := d.notices.push (.caps c) }, !d.refusesCaps)
  notify d e :=
    if d.plain then (d, true)
    else ({ d with notices := d.notices.push (.signal e) }, !d.refusesSignals)

end Stage

end Line21
