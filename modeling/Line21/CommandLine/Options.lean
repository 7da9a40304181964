import Line21.CommandLine.Argument
import Line21.Source.Kind

/-!
# Options of a run

The arguments of a command line, taken together: exactly one input file, and options in any
order around it. A later option overrides an earlier one.
-/

namespace Line21.CommandLine

/-- What a run is asked to do. -/
structure Options where
  /-- The caption file. -/
  input : String
  /-- The key of the output format, in any case, unless the option is left without a value. -/
  format : Option String := some "vtt"
  /-- The kind of the caption file; by default its suffix tells. -/
  kind : Option SourceKind := none
  /-- Where to put the document; by default beside the caption file. -/
  outputDirectory : String := ""
  /-- Write the document to the standard output, and no file. -/
  stdout : Bool := false
  /-- Asked for more detail; a run tells no more than it tells anyway. -/
  verbose : Bool := false
  deriving DecidableEq, Repr

/-- Why a command line asks for no run. -/
inductive Stop
  /-- It asks for help. -/
  | help
  /-- It cannot be understood. -/
  | misuse
  deriving DecidableEq, Repr

/-- Options of which the input file may be missing. -/
structure Draft where
  input : Option String := none
  /-- There is an argument that nothing takes. -/
  surplus : Bool := false
  /-- The options, for any input. -/
  options : Options := { input := "" }
  deriving DecidableEq, Repr

namespace Draft

/-- Set an option that takes a value. Left without one, it is as if it had never been set,
except that no output format is taken for granted any more. -/
def assign (d : Draft) (flag : Flag) (value : Option String) : Except Stop Draft :=
  match flag with
  | .format => .ok { d with options := { d.options with format := value } }
  | .outputDirectory =>
    .ok { d with options := { d.options with outputDirectory := value.getD "" } }
  | .inputFormat =>
    match value with
    | none => .ok { d with options := { d.options with kind := none } }
    | some key =>
      match SourceKind.ofKey? key with
      | some kind => .ok { d with options := { d.options with kind := some kind } }
      | none => .error .misuse
  | .help | .stdout | .verbose => .error .misuse

/-- Set an option that takes no value. -/
def switch (d : Draft) (flag : Flag) : Except Stop Draft :=
  match flag with
  | .help => .error .help
  | .stdout => .ok { d with options := { d.options with stdout := true } }
  | .verbose => .ok { d with options := { d.options with verbose := true } }
  | .format | .inputFormat | .outputDirectory => .error .misuse

/-- Apply the parts of an argument, in order; an option that awaits a value gets the given
one. -/
def apply (d : Draft) (value : String) : List Part → Except Stop Draft
  | [] => .ok d
  | part :: rest => do
    let d ← match part with
      | .switch flag => d.switch flag
      | .assigned flag value => d.assign flag value
      | .awaiting flag => d.assign flag (some value)
      | .misplaced => .error .misuse
    d.apply value rest

/-- Take a value that belongs to no option: the first is the input file. -/
def takeValue (d : Draft) (value : String) : Draft :=
  match d.input with
  | none => { d with input := some value }
  | some _ => { d with surplus := true }

/-- An option in an argument awaits a value. -/
def awaits (parts : List Part) : Bool :=
  parts.any fun
    | .awaiting _ => true
    | _ => false

/-- Take arguments together. A separator goes with the input file before or after it, and is
a surplus argument otherwise. An argument of options with a misplaced value, or with an
option that awaits a value that does not come, is refused before any of it is applied. -/
def takeAll (d : Draft) : List Argument → Except Stop Draft
  | [] => .ok d
  | .ambiguous :: _ => .error .misuse
  | .unknown :: rest => { d with surplus := true }.takeAll rest
  | .value v :: .separator :: rest =>
    if d.input.isNone then (d.takeValue v).takeAll rest
    else { d with surplus := true }.takeAll rest
  | .value v :: rest => (d.takeValue v).takeAll rest
  | .separator :: .value v :: rest =>
    if d.input.isNone then (d.takeValue v).takeAll rest
    else { d with surplus := true }.takeAll rest
  | .separator :: rest => { d with surplus := true }.takeAll rest
  | .options parts :: rest =>
    if parts.contains .misplaced then .error .misuse
    else if awaits parts then
      match rest with
      | .value v :: rest => do (← d.apply v parts).takeAll rest
      | _ => .error .misuse
    else do (← d.apply "" parts).takeAll rest

end Draft

/-- The options that arguments ask for. -/
def Options.ofArguments (arguments : List String) : Except Stop Options := do
  let read := Argument.ofTexts arguments
  if read.contains .ambiguous then .error .misuse
  let draft ← Draft.takeAll {} read
  match draft.input, draft.surplus with
  | some input, false => .ok { draft.options with input }
  | _, _ => .error .misuse

end Line21.CommandLine
