/-!
# Trees of files

The name of a file is the last component of its path. A name has a suffix when a dot stands
in it, neither first nor last; the suffix starts at the last dot, and the rest is the stem.

A tree holds files and directories by their absolute paths, given as lists of components. It has
no symbolic links, so that a path names what it says. Paths are resolved by their text alone; two
dots lead to the parent, and the root is its own. Looking at a path walks down from the root, so
a file in the middle hides what would be below, and a name that no directory can hold is an error
once its directory is reached.
-/

namespace Line21.Files

/-! ### Names -/

/-- The components of a path. Empty ones and single dots say nothing and vanish. -/
def components (path : String) : List String :=
  ((path.toList.splitOnP (· == '/')).map String.ofList).filter fun c ↦ c != "" && c != "."

/-- The last component of a path, or the empty name. -/
def name (path : String) : String := (components path).getLast?.getD ""

/-- A name as stem and suffix. -/
def splitName (name : String) : String × String :=
  let back := name.toList.reverse
  match back.takeWhile (· != '.'), back.dropWhile (· != '.') with
  | ending@(_ :: _), '.' :: stem@(_ :: _) =>
    (String.ofList stem.reverse, String.ofList ('.' :: ending.reverse))
  | _, _ => (name, "")

/-- A name without its suffix. -/
def stem (name : String) : String := (splitName name).1

/-- The suffix of a name, with its dot, or nothing. -/
def suffix (name : String) : String := (splitName name).2

/-- Stem and suffix make up the name. -/
theorem stem_append_suffix (name : String) : stem name ++ suffix name = name := by
  simp only [stem, suffix, splitName]
  split
  · next h1 h2 =>
    apply String.toList_inj.mp
    have h := List.takeWhile_append_dropWhile (p := (· != '.')) (l := name.toList.reverse)
    rw [h1, h2] at h
    have hr := congrArg List.reverse h
    simpa using hr
  · simp

example : splitName "a.tar.scc" = ("a.tar", ".scc") := by decide +kernel
example : splitName ".scc" = (".scc", "") := by decide +kernel
example : splitName "clip." = ("clip.", "") := by decide +kernel

/-! ### Trees -/

/-- What stands at a path. -/
inductive Node
  | file (content : List UInt8)
  | directory
  deriving DecidableEq, Repr

/-- Why a path cannot be looked at. -/
inductive PathError
  /-- A component holds the character zero. -/
  | zeroCharacter
  /-- A component, or the whole path, is too long. -/
  | nameTooLong
  deriving DecidableEq, Repr

/-- The text of the error that a path cannot be looked at. -/
def PathError.message : PathError → String
  | .zeroCharacter => "embedded null byte"
  | .nameTooLong => "File name too long"

/-- An absolute path, as its components from the root. -/
abbrev Absolute := List String

/-- An absolute path on one line. -/
def Absolute.text (p : Absolute) : String :=
  match p with
  | [] => "/"
  | p => String.join (p.map ("/" ++ ·))

/-- Follow a component of a path. -/
def follow (p : Absolute) (component : String) : Absolute :=
  if component = ".." then p.dropLast else p ++ [component]

/-- The absolute path of a path, seen from a working directory. -/
def resolve (working : Absolute) (path : String) : Except PathError Absolute :=
  if path.toList.contains '\x00' then .error .zeroCharacter
  else
    let start := if path.toList.head? = some '/' then [] else working
    .ok ((components path).foldl follow start)

/-- Files and directories by their paths. The root is a directory even if it is not listed. -/
structure Tree where
  entries : List (Absolute × Node) := []
  deriving DecidableEq, Repr

namespace Tree

/-- What is listed under a path. -/
def node? (t : Tree) (p : Absolute) : Option Node :=
  if p = [] then some .directory else t.entries.lookup p

/-- The bytes that a name may take. -/
def longestName : Nat := 255

/-- The bytes that a path may take. -/
def longestPath : Nat := 4095

/-- Walk from a directory along components. -/
def walk (t : Tree) (here : Absolute) : List String → Except PathError (Option Node)
  | [] => .ok (t.node? here)
  | component :: rest =>
    match t.node? here with
    | some .directory =>
      if longestName < component.utf8ByteSize then .error .nameTooLong
      else t.walk (here ++ [component]) rest
    | _ => .ok none

/-- What stands at a path. -/
def lookAt (t : Tree) (p : Absolute) : Except PathError (Option Node) :=
  if longestPath < p.text.utf8ByteSize then .error .nameTooLong else t.walk [] p

/-- Something stands at a path. -/
def exists? (t : Tree) (p : Absolute) : Except PathError Bool :=
  (t.lookAt p).map Option.isSome

/-- The tree with something put at a path, in place of what stood there. -/
def put (t : Tree) (p : Absolute) (n : Node) : Tree :=
  { entries := t.entries.filter (·.1 != p) ++ [(p, n)] }

/-- The tree with a directory, and all directories above it, where nothing stood. -/
def putDirectories (t : Tree) (p : Absolute) : Tree :=
  (List.range p.length).foldl
    (fun t n ↦
      let q := p.take (n + 1)
      if (t.node? q).isSome then t else t.put q .directory)
    t

/-- What is put at a path is listed there. -/
theorem node?_put_self {t : Tree} {p : Absolute} {n : Node} (h : p ≠ []) :
    (t.put p n).node? p = some n := by
  have hf : (t.entries.filter (·.1 != p)).lookup p = none := by
    rw [List.lookup_eq_none_iff]
    intro e he
    have hne : e.1 ≠ p := bne_iff_ne.mp (List.mem_filter.mp he).2
    exact bne_iff_ne.mpr hne.symm
  simp only [node?, if_neg h, put, List.lookup_append, hf, List.lookup_cons_self, Option.or]

end Tree

end Line21.Files
