import Line21.Text.Integer

/-!
# Command-line arguments

The options of the command line and the ways in which they may be written: by their full
names, by an unambiguous beginning of a long name, with a value behind an equals sign, and as
clusters of short names behind one dash. Each argument is read by itself first; only then
are the arguments taken together.

Two dashes are never the value of an option. One to which they are assigned is left without a
value.
-/

namespace Line21.CommandLine

/-- An option of the command line. -/
inductive Flag
  | help
  | format
  | inputFormat
  | outputDirectory
  | stdout
  | verbose
  deriving DecidableEq, Repr

namespace Flag

/-- All options. -/
def all : List Flag := [.help, .format, .inputFormat, .outputDirectory, .stdout, .verbose]

/-- The long name of an option. -/
def long : Flag → String
  | .help => "--help"
  | .format => "--format"
  | .inputFormat => "--input-format"
  | .outputDirectory => "--output-dir"
  | .stdout => "--stdout"
  | .verbose => "--verbose"

/-- The letter of an option, if it has one. -/
def letter? : Flag → Option Char
  | .help => some 'h'
  | .format => some 'f'
  | .verbose => some 'v'
  | .inputFormat | .outputDirectory | .stdout => none

/-- Whether an option takes a value. -/
def takesValue : Flag → Bool
  | .format | .inputFormat | .outputDirectory => true
  | .help | .stdout | .verbose => false

/-- The option of a letter. -/
def ofLetter? (c : Char) : Option Flag := all.find? (·.letter? == some c)

/-- The option of a long name. -/
def ofLong? (name : List Char) : Option Flag := all.find? (·.long.toList == name)

/-- The options whose long names begin in a given way. -/
def ofBeginning (start : List Char) : List Flag := all.filter (start.isPrefixOf ·.long.toList)

end Flag

/-- A part of an argument that starts with a dash. -/
inductive Part
  /-- An option that takes no value. -/
  | switch (flag : Flag)
  /-- An option that takes a value, and the value, unless it is left without one. -/
  | assigned (flag : Flag) (value : Option String)
  /-- An option whose value is the next argument. -/
  | awaiting (flag : Flag)
  /-- A text behind an option that takes no value, where it is no option either. -/
  | misplaced
  deriving DecidableEq, Repr

/-- An argument, read by itself. -/
inductive Argument
  /-- A value. -/
  | value (s : String)
  /-- The two dashes after which everything is a value. -/
  | separator
  /-- Options. -/
  | options (parts : List Part)
  /-- No option, though it starts with a dash. -/
  | unknown
  /-- The beginning of more than one long name. -/
  | ambiguous
  deriving DecidableEq, Repr

namespace Part

/-- An option by itself. -/
def bare (flag : Flag) : Part := if flag.takesValue then .awaiting flag else .switch flag

/-- The value of a text that is assigned to an option. -/
def valueOf (text : List Char) : Option String :=
  if text = ['-', '-'] then none else some (String.ofList text)

/-- An option with a text behind an equals sign. -/
def assign (flag : Flag) (text : List Char) : Part :=
  if flag.takesValue then .assigned flag (valueOf text) else .misplaced

/-- The parts of a cluster, where an option has been read and characters are left. An option
that takes a value takes all of them. Behind any other comes the letter of the next option. -/
def cluster (flag : Flag) : List Char → List Part
  | [] => [bare flag]
  | c :: rest =>
    if flag.takesValue then [.assigned flag (valueOf (c :: rest))]
    else match Flag.ofLetter? c with
      | none => [.misplaced]
      | some next => .switch flag :: cluster next rest

end Part

namespace Argument

/-- The text looks like a negative number: digits, or a fraction in digits, behind a dash. A
line feed may end it. -/
def looksNegative (cs : List Char) : Bool :=
  let line := if cs.getLast? = some '\n' then cs.dropLast else cs
  let isDigit (c : Char) : Bool := (Text.digit? c).isSome
  match line with
  | '-' :: number =>
    match number.dropWhile isDigit with
    | [] => !number.isEmpty
    | '.' :: places => !places.isEmpty && places.all isDigit
    | _ => false
  | _ => false

/-- An argument that starts with a dash and begins no option: negative numbers and texts with
spaces are values nevertheless. -/
def unrecognized (cs : List Char) : Argument :=
  if looksNegative cs || cs.contains ' ' then .value (String.ofList cs) else .unknown

/-- The name before the first equals sign, and the value behind it, if there is one. -/
def splitAssignment (cs : List Char) : List Char × Option (List Char) :=
  match cs.dropWhile (· != '=') with
  | _ :: assigned => (cs.takeWhile (· != '='), some assigned)
  | [] => (cs, none)

/-- An option by its long name, and what is assigned to it. -/
def ofLong (flag : Flag) : Option (List Char) → Argument
  | some text => .options [Part.assign flag text]
  | none => .options [Part.bare flag]

/-- An option by its letter, and what is assigned to it. A text assigned to an option that
takes no value goes on with a cluster, unless it is empty. -/
def ofShort (flag : Flag) : Option (List Char) → Argument
  | some [] => .options [Part.assign flag []]
  | some text => .options (Part.cluster flag text)
  | none => .options [Part.bare flag]

/-- Read an argument that starts with two dashes and goes on. A full name counts before the
beginnings of names. -/
def ofLongText (cs : List Char) : Argument :=
  let (name, assigned) := splitAssignment cs
  match Flag.ofLong? name with
  | some flag => ofLong flag assigned
  | none =>
    match Flag.ofBeginning name with
    | [] => unrecognized cs
    | [flag] => ofLong flag assigned
    | _ => .ambiguous

/-- Read an argument that starts with one dash and a letter. -/
def ofShortText (letter : Char) (rest : List Char) : Argument :=
  match Flag.ofLetter? letter with
  | none => unrecognized ('-' :: letter :: rest)
  | some flag =>
    match rest with
    | [] => ofShort flag none
    | '=' :: text => ofShort flag (some text)
    | rest => .options (Part.cluster flag rest)

/-- Read an argument by itself. -/
def ofText (s : String) : Argument :=
  match s.toList with
  | ['-', '-'] => .separator
  | '-' :: '-' :: rest => ofLongText ('-' :: '-' :: rest)
  | '-' :: letter :: rest => ofShortText letter rest
  | _ => .value s

/-- Read arguments. Behind the separator everything is a value. -/
def ofTexts : List String → List Argument
  | [] => []
  | s :: rest =>
    match ofText s with
    | .separator => .separator :: rest.map .value
    | argument => argument :: ofTexts rest

end Argument

end Line21.CommandLine
