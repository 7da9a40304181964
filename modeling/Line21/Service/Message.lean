import Line21.Format.Basic
import Line21.Source.Basic
import Line21.Text.Hex

/-!
# Requests and responses

What clients ask of the service, and what it answers. Bodies of requests are values of which
fields are read; they are checked against what they are to hold before anything else happens. An
integer may come as a number without a fraction, as a truth value, or spelled in a string.
-/

namespace Line21

open Number (Binary64.nearest?)

/-- A value of a request body. -/
inductive Json
  | null
  | bool (b : Bool)
  /-- An integer. -/
  | int (n : Int)
  /-- A number with a decimal point or an exponent: an integer over a power of ten. -/
  | decimal (n : Int) (places : Nat)
  | string (s : String)
  | array (items : List Json)
  | object (fields : List (String × Json))
  deriving Inhabited

namespace Json

/-- The field of an object, or null. Of fields with one key the last counts. -/
def field? : Json → String → Option Json
  | .object fields, key => some ((fields.reverse.lookup key).getD .null)
  | _, _ => none

/-- The binary64 number nearest to a decimal, if it is an integer below `2 ^ 63` in magnitude. -/
def intOfDecimal? (n : Int) (places : Nat) : Option Int := do
  let x ← Binary64.nearest? (mkRat n (Nat.pow 10 places))
  if x.den = 1 ∧ x.abs < 0x8000000000000000 then some x.num else none

/-- A value as an integer, by the lax rules that the library that validates request bodies documents:
truth values count as zero and one, and a number with a point has to be integral and small. -/
def int? : Json → Option Int
  | .int n => some n
  | .bool b => some (if b then 1 else 0)
  | .decimal n places => intOfDecimal? n places
  | .string s => Text.Integer.ofChars? s.toList
  | _ => none

/-- A value as an integer that may be left out. -/
def optionalInt? : Json → Option (Option Int)
  | .null => some none
  | j => j.int?.map some

/-- A value as a string. -/
def string? : Json → Option String
  | .string s => some s
  | _ => none

end Json

/-! ### Requests -/

/-- A caption file that is to be converted. -/
structure Upload where
  /-- The name of the file, if the client gave one. -/
  filename : Option String
  content : List UInt8
  /-- The key of the output format. -/
  format : String := "vtt"
  /-- The key of the kind of source; by default the name of the file tells. -/
  kind : Option String := none

/-- What a client asks for. -/
inductive Request
  /-- A sign of life. -/
  | health
  /-- The output formats. -/
  | formats
  /-- The live streams. -/
  | list
  /-- A new stream under a fresh id. -/
  | create (id : String) (body : Json)
  /-- The state of a stream. -/
  | get (id : String)
  /-- Feed a unit to a stream. -/
  | push (id : String) (body : Json)
  /-- Make a stream forget what waits. -/
  | flush (id : String)
  /-- End a stream. -/
  | finish (id : String)
  /-- Close a stream. -/
  | delete (id : String)
  /-- Let streams leave that have expired. -/
  | cleanup
  /-- Convert a file. -/
  | convert (upload : Upload)

/-- The body of a request for a stream: its format. -/
def Json.format? (body : Json) : Option Format := do
  let key ← (← body.field? "format").string?
  Format.ofKey? key

/-- The body of a push: a unit in hexadecimal digits, between which spaces do not count, and
its time. -/
def Json.captionUnit? (body : Json) : Option CaptionUnit := do
  let digits ← (← body.field? "data").string?
  let data ← Text.Hex.bytes? (digits.toList.filter (· != ' '))
  let time ← (← body.field? "pts").optionalInt?
  return { data, time }

/-- What a client is told about a stream. -/
structure StreamInfo where
  id : String
  format : Format
  caps : Caps
  created : Int
  unitsIn : Nat
  unitsOut : Nat
  deriving DecidableEq, Repr

/-- A converted file. -/
structure Document where
  mediaType : String
  text : String
  /-- How the client is to store the file. -/
  disposition : String
  deriving DecidableEq, Repr

/-- The content of an answer. -/
inductive Content
  | nothing
  | health (status version : String)
  | formats (formats : List Format)
  | stream (info : StreamInfo)
  | streams (infos : List StreamInfo)
  | units (id : String) (units : List TextUnit)
  | count (n : Nat)
  | document (d : Document)
  deriving DecidableEq, Repr

/-- What the service answers. -/
inductive Response
  /-- Content, under a status of success. -/
  | success (status : Nat) (content : Content)
  /-- A refusal, with the reason. -/
  | refusal (status : Nat) (detail : String)
  /-- The request could not be worked out, because a number could not be computed. -/
  | fault (error : Number.NumberError)
  /-- The answer cannot be sent, because a header holds a character past U+00FF. -/
  | unsendable
  deriving DecidableEq, Repr

end Line21
