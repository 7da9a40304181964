import Line21.Cue.Basic
import Line21.Text.Integer
import Line21.Text.Quoted

/-!
# Output formats

The three formats of timed text, with the names under which each is known, and the choice of
a format from what a consumer accepts. A capability names a media type and fixes some of its
fields. Consumers list the ones that they accept, and a stream announces the one that it is
going to deliver.

A cue is written as one unit of text, and the units of a stream are joined into a document.
Every line ends in a carriage return and a line feed. A unit carries the start and the
duration of its cue besides the text.
-/

namespace Line21

/-! ### Capabilities -/

/-- A media type with fixed fields, in the order in which they were given. -/
structure Caps where
  name : String
  fields : List (String × String) := []
  deriving DecidableEq, Repr

namespace Caps

/-- A capability on one line: its name, and its fields after commas. -/
def text (c : Caps) : String :=
  ", ".intercalate (c.name :: c.fields.map fun (key, value) ↦ key ++ "=" ++ value)

/-- The capability that streams take in: raw pairs of closed captions. -/
def captionPairs : Caps := ⟨"closedcaption/x-cea-608", [("format", "raw")]⟩

/-- A capability that does not contradict the one that streams take in. Fields that it leaves
open agree with everything. -/
def carriesPairs (c : Caps) : Bool :=
  c.name == captionPairs.name &&
    c.fields.all fun (key, value) ↦
      match captionPairs.fields.lookup key with
      | some expected => value == expected
      | none => true

end Caps

/-! ### Formats -/

/-- A format of timed text. -/
inductive Format
  /-- WebVTT: a header once, then cues without numbers. -/
  | webVtt
  /-- SubRip: numbered cues. -/
  | subRip
  /-- Nothing but the text of the captions. -/
  | plain
  deriving DecidableEq, Repr

/-- No format has the key. -/
structure UnknownFormat where
  key : String
  deriving DecidableEq, Repr

/-- The text of the error that no format has a key. -/
def UnknownFormat.message (e : UnknownFormat) : String :=
  Text.quoted e.key ++ " is not a valid Format"

/-- Why no format could be chosen from what a consumer accepts. -/
inductive OfferError
  /-- The consumer accepts nothing. -/
  | empty
  /-- What the consumer likes best is no format of timed text. -/
  | unsupported (caps : Caps)
  deriving DecidableEq, Repr

/-- The text of the error that no format could be chosen. -/
def OfferError.message : OfferError → String
  | .empty => "Empty downstream caps"
  | .unsupported caps => "Unsupported downstream caps: " ++ caps.text

namespace Format

/-- The formats, the one that is preferred first. -/
def all : List Format := [.webVtt, .subRip, .plain]

/-- The short name of a format, in lower case. -/
def key : Format → String
  | .webVtt => "vtt"
  | .subRip => "srt"
  | .plain => "raw"

/-- The name of a format for readers. -/
def name : Format → String
  | .webVtt => "WebVTT"
  | .subRip => "SubRip"
  | .plain => "Raw text"

/-- The suffix of the files of a format. -/
def suffix : Format → String
  | .webVtt => ".vtt"
  | .subRip => ".srt"
  | .plain => ".txt"

/-- The media type of a document of a format. -/
def mediaType : Format → String
  | .webVtt => "text/vtt"
  | .subRip => "application/x-subrip"
  | .plain => "text/plain"

/-- The capability that a stream of a format announces. -/
def caps : Format → Caps
  | .webVtt => ⟨"application/x-subtitle-vtt", []⟩
  | .subRip => ⟨"application/x-subtitle", []⟩
  | .plain => ⟨"text/x-raw", [("format", "utf8")]⟩

/-- The keys of all formats, as listed to readers. -/
def keyList : String := ", ".intercalate (all.map key)

/-- The format of a key. -/
def ofKey? (key : String) : Option Format := all.find? (·.key == key)

/-- The format of a key, or the error that there is none. -/
def ofKey (key : String) : Except UnknownFormat Format :=
  match ofKey? key with
  | some f => .ok f
  | none => .error ⟨key⟩

/-- The format whose media type a capability names; fields do not matter. -/
def ofCaps (c : Caps) : Except OfferError Format :=
  match all.find? (·.caps.name == c.name) with
  | some f => .ok f
  | none => .error (.unsupported c)

/-- The format for what a consumer accepts, liked best first. A consumer without a list
accepts all formats. -/
def choose (offer : Option (List Caps)) : Except OfferError Format :=
  match offer.getD (all.map caps) with
  | [] => .error .empty
  | c :: _ => ofCaps c

/-- Every format is listed. -/
theorem mem_all (f : Format) : f ∈ all := by cases f <;> decide

/-- A format is the format of its key. -/
theorem ofKey?_key (f : Format) : ofKey? f.key = some f := by cases f <;> decide

/-- A key belongs to one format at most. -/
theorem ofKey?_eq_some_iff {key : String} {f : Format} : ofKey? key = some f ↔ f.key = key := by
  constructor
  · intro h
    have := List.find?_some h
    simpa using this
  · rintro rfl
    exact ofKey?_key f

/-- A format is the format of its capability. -/
theorem ofCaps_caps (f : Format) : ofCaps f.caps = .ok f := by cases f <;> rfl

end Format

/-! ### Documents of timed text -/

/-- A piece of a document, with the time that it covers. -/
structure TextUnit where
  text : String
  start : Int
  /-- How long the piece is shown; a header is not shown. -/
  duration : Option Int
  deriving DecidableEq, Repr

namespace Format

private def lineBreak : String := "\r\n"

/-- The clock of WebVTT: two places at least for hours, a point before the milliseconds. -/
def webVttClock (time : Int) : String :=
  let t := ClockTime.ofNanoseconds time
  Text.padded 2 t.hours ++ ":" ++ Text.padded 2 t.minutes ++ ":" ++ Text.padded 2 t.seconds ++
    "." ++ Text.padded 3 t.milliseconds

/-- The clock of SubRip: hours of a given least width, a comma before the milliseconds. -/
def subRipClock (hourWidth : Nat) (time : Int) : String :=
  let t := ClockTime.ofNanoseconds time
  Text.padded hourWidth t.hours ++ ":" ++ Text.padded 2 t.minutes ++ ":" ++
    Text.padded 2 t.seconds ++ "," ++ Text.padded 3 t.milliseconds

/-- A cue in the words of a format. SubRip pads the hours of the finish, but not those of the
start. -/
def cueText (f : Format) (c : Cue) : String :=
  match f with
  | .webVtt =>
    webVttClock c.start ++ " --> " ++ webVttClock c.finish ++ lineBreak ++
      c.text ++ lineBreak ++ lineBreak
  | .subRip =>
    Text.padded 2 c.number ++ lineBreak ++
      subRipClock 0 c.start ++ " --> " ++ subRipClock 2 c.finish ++ lineBreak ++
      c.text ++ lineBreak ++ lineBreak
  | .plain => c.text

/-- The unit of a cue. -/
def render (f : Format) (c : Cue) : TextUnit := ⟨f.cueText c, c.start, some c.duration⟩

/-- The text that opens a document, in formats that have one. -/
def opening : Format → Option String
  | .webVtt => some ("WEBVTT" ++ lineBreak ++ lineBreak)
  | .subRip | .plain => none

/-- The header of a stream, stamped with a time, in formats that have one. -/
def header (f : Format) (start : Int) : Option TextUnit :=
  f.opening.map (⟨·, start, none⟩)

/-- What stands between the units of a document. -/
def separator : Format → String
  | .plain => lineBreak
  | .webVtt | .subRip => ""

/-- The document of the units of a stream. -/
def join (f : Format) (units : List TextUnit) : String :=
  f.separator.intercalate (units.map (·.text))

end Format

end Line21
