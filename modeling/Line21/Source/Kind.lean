import Line21.BytePair
import Line21.Source.Basic
import Line21.Text.Hex
import Line21.Text.Utf8

/-!
# Caption files

Caption files come as SCC or as raw byte pairs. The suffix of a file tells which, and files
of other suffixes are taken for raw pairs.

A file of raw pairs holds two bytes for each frame and nothing else. A single byte left at the
end is a unit of its own. An SCC file is a text: a header line, and lines of a timecode and of
words, one word for each frame from the timecode on. A word of four hexadecimal digits is a
pair; any other word keeps its frame and gives none. Lines without a timecode in front are
skipped.
-/

namespace Line21

/-! ### Raw byte pairs -/

namespace RawPairs

private def cutOnto (done : List (List UInt8)) : List UInt8 → List (List UInt8)
  | a :: b :: rest => cutOnto ([a, b] :: done) rest
  | [b] => ([b] :: done).reverse
  | [] => done.reverse

/-- Bytes, cut into twos from the front. -/
def cut (bytes : List UInt8) : List (List UInt8) := cutOnto [] bytes

private theorem cutOnto_eq (bytes : List UInt8) (done : List (List UInt8)) :
    cutOnto done bytes = done.reverse ++ cut bytes := by
  match bytes with
  | [] => simp [cut, cutOnto]
  | [b] => simp [cut, cutOnto]
  | a :: b :: rest =>
    simp only [cut, cutOnto]
    rw [cutOnto_eq rest, cutOnto_eq rest]
    simp
termination_by bytes.length

/-- A single byte stays by itself. -/
@[simp] theorem cut_singleton (b : UInt8) : cut [b] = [[b]] := rfl

/-- The first two bytes are cut off. -/
@[simp] theorem cut_cons_cons (a b : UInt8) (rest : List UInt8) :
    cut (a :: b :: rest) = [a, b] :: cut rest := by
  simp only [cut, cutOnto]
  rw [cutOnto_eq]
  simp [cut]

/-- The units of a file of byte pairs, stamped with its frames. -/
def read (rate : FrameRate) (bytes : List UInt8) : Except Number.NumberError (List CaptionUnit) :=
  (cut bytes).zipIdx.mapM fun (data, frame) ↦ do
    let time ← rate.stamp frame
    return { data, time := some time }

end RawPairs

/-! ### Scenarist closed captions -/

namespace Scc

/-- The two bytes of a word of four digits. -/
def word? : List Char → Option (List UInt8)
  | [a, b, c, d] => do
    let first ← Text.Hex.byte? a b
    let second ← Text.Hex.byte? c d
    return [first, second]
  | _ => none

/-- The pairs of a line, each with the number of its frame. -/
def pairsOfLine (line : List Char) : List (List UInt8 × Nat) :=
  match Text.words line with
  | [] => []
  | code :: words =>
    match Timecode.ofChars? code with
    | none => []
    | some timecode =>
      words.zipIdx.filterMap fun (word, i) ↦ (word? word).map (·, timecode.frame + i)

/-- The pairs of a text of lines, each with the number of its frame. -/
def pairsOfLines : List (List Char) → Except ReadError (List (List UInt8 × Nat))
  | [] => .error .missingHeader
  | first :: rest =>
    if String.ofList first = sccHeader then .ok (rest.flatMap pairsOfLine)
    else .error .missingHeader

/-- The unit of a pair, stamped with its frame. -/
def stamped (data : List UInt8) (frame : Nat) : Except ReadError CaptionUnit :=
  ((FrameRate.standard.stamp frame).map fun time ↦ { data, time := some time }).mapError .number

/-- The units of an SCC file. -/
def read (bytes : List UInt8) : Except ReadError (List CaptionUnit) := do
  let text := Text.Utf8.decode (Text.Utf8.dropMark bytes)
  let pairs ← pairsOfLines (Text.lines text.toList)
  pairs.mapM fun (data, frame) ↦ stamped data frame

end Scc

/-! ### Kinds of files -/

/-- A kind of caption file. -/
inductive SourceKind
  | scc
  | rawPairs
  deriving DecidableEq, Repr

namespace SourceKind

/-- The kinds, in the order of their keys. -/
def all : List SourceKind := [.rawPairs, .scc]

/-- The short name of a kind. -/
def key : SourceKind → String
  | .scc => "scc"
  | .rawPairs => "raw"

/-- The keys of all kinds, as listed to readers. -/
def keyList : String := ", ".intercalate (all.map key)

/-- The kind of a key. -/
def ofKey? (key : String) : Option SourceKind := all.find? (·.key == key)

/-- The kind of a file with a suffix, whose case does not matter. Only ASCII letters occur in
the suffixes of kinds, and no other letter is a variant of one in lower case. -/
def ofSuffix (suffix : String) : SourceKind :=
  if suffix.toLower = ".scc" then .scc else .rawPairs

/-- Read a file of a kind at the standard frame rate. -/
def read (kind : SourceKind) (bytes : List UInt8) : Except ReadError (List CaptionUnit) :=
  match kind with
  | .scc => Scc.read bytes
  | .rawPairs => (RawPairs.read .standard bytes).mapError .number

end SourceKind

end Line21
