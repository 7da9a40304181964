import Line21.CommandLine.Run

/-!
# The program

The command line of the converter. The part of the machine's files that a run can see is
read into a tree first; the run itself is a function of that tree, and afterwards the files
that are new in it are written.
-/

namespace Line21

open Files (Absolute Node Tree)
open CommandLine

/-- How the program is called. -/
def usage : String :=
  "usage: line21 [-h] [--format FORMAT] [--input-format (raw|scc)] [--output-dir DIRECTORY]\n" ++
    "              [--stdout] [--verbose] FILE\n"

/-- What stands at a path of the machine, if anything does. -/
def readNode (path : Absolute) : IO (Option Node) := do
  try
    let real ← IO.FS.realPath path.text
    if ← real.isDir then return some .directory
    else return some (.file (← IO.FS.readBinFile real).toList)
  catch _ => return none

/-- The tree with what stands at a path of the machine. -/
def see (tree : Tree) (path : Absolute) : IO Tree := do
  match ← readNode path with
  | none => return tree
  | some node =>
    let tree := tree.putDirectories path.dropLast
    if path = [] || (tree.node? path).isSome then return tree else return tree.put path node

/-- The tree with the names that stand in a directory of the machine. -/
def seeNames (tree : Tree) (path : Absolute) : IO Tree := do
  try
    let real ← IO.FS.realPath path.text
    let mut tree ← see tree path
    for entry in ← real.readDir do
      let child := path ++ [entry.fileName]
      if (tree.node? child).isNone then tree := tree.put child (.file [])
    return tree
  catch _ => return tree

/-- What a run with the given options can see of the machine. -/
def seeAll (working : Absolute) (o : Options) : IO Tree := do
  let tree := Tree.putDirectories {} working
  match Files.resolve working o.input, Files.resolve working o.outputDirectory with
  | .ok input, .ok directory =>
    let tree ← see tree input
    seeNames tree (if o.outputDirectory = "" then input.dropLast else directory)
  | _, _ => return tree

/-- Write the files that are new in a tree. -/
def writeNew (old new : Tree) : IO Unit :=
  for (path, node) in new.entries do
    match node, old.node? path with
    | .file content, none => IO.FS.writeBinFile path.text ⟨content.toArray⟩
    | _, _ => pure ()

end Line21

open Line21 in
/-- Convert the caption file that the arguments name. -/
def main (arguments : List String) : IO UInt32 := do
  match CommandLine.Options.ofArguments arguments with
  | .error .help =>
    IO.print usage
    return 0
  | .error .misuse =>
    IO.eprint usage
    return 2
  | .ok options =>
    let working := Files.components (← IO.currentDir).toString
    let tree ← seeAll working options
    let result := CommandLine.run tree working options
    writeNew tree (CommandLine.filesAfter tree result)
    match result with
    | .error breakdown => IO.eprintln breakdown.message
    | .ok report =>
      IO.print report.output
      IO.eprint report.messages
    return (CommandLine.exitCode result).toUInt32
