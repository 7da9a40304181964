import Line21.CommandLine.Options
import Line21.Conversion
import Line21.Files.Tree

/-!
# Runs

A run converts one caption file of a tree of files. It reports what it does line by line. The
document goes to the standard output or into a new file; no file that stands in the tree is
ever changed. The new file is named after the caption file, with a number when that name is
taken.
-/

namespace Line21.CommandLine

open Files (Absolute Tree PathError)

/-- Why a run breaks off without a report. -/
inductive Breakdown
  /-- A path cannot be looked at. -/
  | path (error : PathError)
  /-- A number could not be computed. -/
  | number (error : Number.NumberError)
  /-- The option for the output format was left without a value. -/
  | noFormat
  deriving DecidableEq, Repr

/-- The text of a breakdown. -/
def Breakdown.message : Breakdown → String
  | .path error => error.message
  | .number error => error.message
  | .noFormat => "No output format"

/-- Why a run fails, as far as it reports a failure. -/
inductive RunError
  | missingFile (path : Absolute)
  | unknownFormat (key : String)
  | missingDirectory (path : Absolute)
  | unreadable (error : ReadError)
  | stream (error : StreamError)
  deriving DecidableEq, Repr

/-- The text of the failure of a run. -/
def RunError.message : RunError → String
  | .missingFile path => "File not found: " ++ path.text
  | .unknownFormat key =>
    "Unknown format '" ++ key ++ "'. Available formats: " ++ Format.keyList
  | .missingDirectory path => "Output directory does not exist: " ++ path.text
  | .unreadable error => error.message
  | .stream error => error.message

/-- What a run leaves behind. -/
structure Report where
  /-- The failure, if the run failed. -/
  error : Option RunError := none
  /-- What the run wrote to the standard output. -/
  output : String := ""
  /-- What the run told about its progress, line by line. -/
  progress : List String := []
  /-- The files after the run. -/
  tree : Tree
  deriving DecidableEq, Repr

namespace Report

/-- The exit code of a run. -/
def exitCode (r : Report) : Nat := if r.error.isSome then 1 else 0

/-- What a run wrote to the standard error. -/
def messages (r : Report) : String :=
  let error := r.error.toList.map ("Error: " ++ ·.message)
  String.join ((r.progress ++ error).map (· ++ "\n"))

end Report

/-- The names that a document may get, in order: the plain one first, then numbered from two. -/
def candidate (stem suffix : String) (n : Nat) : String :=
  if n = 0 then stem ++ suffix else stem ++ "-" ++ toString (n + 1) ++ suffix

/-- The first path of a directory, from a candidate on, at which nothing stands. The search
gives up after a number of tries. -/
def freePathFrom (tree : Tree) (directory : Absolute) (stem suffix : String) :
    Nat → Nat → Except PathError Absolute
  | n, 0 => .ok (directory ++ [candidate stem suffix n])
  | n, tries + 1 => do
    let path := directory ++ [candidate stem suffix n]
    if ← tree.exists? path then freePathFrom tree directory stem suffix (n + 1) tries
    else return path

/-- The first path of a directory at which nothing stands. Of one more candidate than there
are entries in the tree, one is free. -/
def freePath (tree : Tree) (directory : Absolute) (stem suffix : String) :
    Except PathError Absolute :=
  freePathFrom tree directory stem suffix 0 (tree.entries.length + 1)

/-- Look at a path, or break off. -/
def lookAt (tree : Tree) (path : Absolute) : Except Breakdown (Option Files.Node) :=
  (tree.lookAt path).mapError .path

/-- Resolve a path, or break off. -/
def resolve (working : Absolute) (path : String) : Except Breakdown Absolute :=
  (Files.resolve working path).mapError .path

/-- What is known once the options of a run are understood. -/
structure Job where
  /-- The caption file. -/
  input : Absolute
  content : List UInt8
  kind : SourceKind
  format : Format
  /-- Where the document goes; to the standard output, if there is no directory. -/
  directory : Option Absolute
  deriving DecidableEq, Repr

namespace Job

/-- The name of the caption file. -/
def name (j : Job) : String := j.input.getLast?.getD ""

end Job

/-- Understand the options of a run: the caption file is looked up first, then the format,
then the directory of the document, unless there is to be no file. -/
def prepare (tree : Tree) (working : Absolute) (o : Options) :
    Except Breakdown (Except RunError Job) := do
  let input ← resolve working o.input
  match ← lookAt tree input with
  | some (.file content) =>
    let some key := o.format | .error .noFormat
    match Format.ofKey? key.toLower with
    | none => return .error (.unknownFormat key)
    | some format =>
      let directory ←
        if o.outputDirectory = "" then pure input.dropLast
        else resolve working o.outputDirectory
      let kind := o.kind.getD (.ofSuffix (Files.suffix (input.getLast?.getD "")))
      if o.stdout then return .ok { input, content, kind, format, directory := none }
      else match ← lookAt tree directory with
        | some .directory =>
          return .ok { input, content, kind, format, directory := some directory }
        | _ => return .error (.missingDirectory directory)
  | _ => return .error (.missingFile input)

/-- Put the document of a job where it goes. -/
def deliver (tree : Tree) (job : Job) (progress : List String) (document : String) :
    Except Breakdown Report :=
  match job.directory with
  | none => .ok { output := document, progress, tree }
  | some directory => do
    let path ← (freePath tree directory (Files.stem job.name) job.format.suffix).mapError .path
    return { progress := progress ++ ["Done! Saved " ++ path.text]
             tree := tree.put path (.file document.toUTF8.toList) }

/-- Carry out a job. -/
def Job.run (tree : Tree) (job : Job) : Except Breakdown Report :=
  let reading := "Reading " ++ job.name ++ " (" ++ job.kind.key ++ " input)..."
  match job.kind.read job.content with
  | .error (.number error) => .error (.number error)
  | .error .missingHeader =>
    .ok { error := some (.unreadable .missingHeader), progress := [reading], tree }
  | .ok units =>
    let progress := [reading, "  " ++ toString units.length ++ " caption units",
      "Converting to " ++ job.format.name ++ "..."]
    match Conversion.document job.format units with
    | .error (.number error) => .error (.number error)
    | .error error => .ok { error := some (.stream error), progress, tree }
    | .ok document => deliver tree job progress document

/-- Carry out a run in a tree of files, seen from a working directory. -/
def run (tree : Tree) (working : Absolute) (o : Options) : Except Breakdown Report := do
  match ← prepare tree working o with
  | .error error => return { error := some error, tree }
  | .ok job => job.run tree

/-- The exit code of the program after a run. A run that breaks off has failed too. -/
def exitCode : Except Breakdown Report → Nat
  | .ok report => report.exitCode
  | .error _ => 1

/-- The files after a run. A run that breaks off has written none. -/
def filesAfter (tree : Tree) : Except Breakdown Report → Tree
  | .ok report => report.tree
  | .error _ => tree

end Line21.CommandLine
