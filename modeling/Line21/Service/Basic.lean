import Line21.Conversion
import Line21.Files.Tree
import Line21.Service.Message
import Line21.Service.Store
import Line21.Source.Kind

/-!
# The service

The service answers requests about live streams and converts files. Each answer about a
stream carries the units that the stream completed while the request was handled. A push
that stops its stream closes the session.
-/

namespace Line21.Service

/-- The version of the service. -/
def version : String := "0.1.0"

/-- The refusal of a body that does not hold what it is to hold. -/
def invalid : Response := .refusal 422 "validation"

/-- The refusal of an id that no live stream has. -/
def notFound (id : String) : Response := .refusal 404 ("Stream not found: " ++ id)

/-- What a client is told about a session. -/
def info (s : Session) : StreamInfo :=
  { id := s.id, format := s.format, caps := s.caps, created := s.created
    unitsIn := s.unitsIn, unitsOut := s.unitsOut }

/-- Whether an error stops a stream for good. Errors of arithmetic leave it as it was. -/
def isFatal : StreamError → Bool
  | .notNegotiated | .missingTime | .offer .empty => true
  | .offer (.unsupported _) | .number _ | .refused _ => false

/-- The units that a session has completed and not yet answered with, and the session after
answering with them. -/
def takeUnits (s : Session) : List TextUnit × Session :=
  let (units, downstream) := s.link.downstream.takeUnits
  (units, { s with link := { s.link with downstream }, unitsOut := s.unitsOut + units.length })

/-- Answer for a session after a call to its stream. -/
def answer (store : Store) (s : Session) (link : Link Receiver Collector)
    (result : Except StreamError Unit) : Store × Response :=
  let s := { s with link }
  match result with
  | .ok () =>
    let (units, s) := takeUnits s
    (store.modify s.id fun _ ↦ s, .success 200 (.units s.id units))
  | .error e =>
    let store := store.modify s.id fun _ ↦ s
    match e with
    | .number error => (store, .fault error)
    | e => if isFatal e then ((store.delete s.id).2, .refusal 422 e.message)
      else (store, .refusal 500 e.message)

/-- Carry out a request about the session of an id, which counts as activity. -/
def withSession (store : Store) (id : String) (now : Int)
    (f : Store → Session → Store × Response) : Store × Response :=
  match store.get id now with
  | (none, store) => (store, notFound id)
  | (some s, store) => f store s

/-- Feed a unit to a session. -/
def push (store : Store) (s : Session) (u : CaptionUnit) : Store × Response :=
  let (link, result) := s.link.accept u
  answer store { s with unitsIn := s.unitsIn + 1 } link result

/-- Pass a signal to a session. -/
def signal (store : Store) (s : Session) (e : Signal) : Store × Response :=
  let (link, result) := s.link.signal e
  answer store s link (result.map fun _ ↦ ())

/-- The name under which a converted file is to be stored. -/
def disposition (stem suffix : String) : String :=
  "attachment; filename=\"" ++ stem ++ suffix ++ "\""

/-- Convert a file whose formats are known. Headers are sent in Latin-1, as the framework that sends
them documents, so a name with a character past U+00FF cannot be sent. -/
def convertKnown (format : Format) (kind : SourceKind) (stem : String) (content : List UInt8) :
    Response :=
  match kind.read content with
  | .error .missingHeader => .refusal 400 ReadError.missingHeader.message
  | .error (.number error) => .fault error
  | .ok units =>
    match Conversion.document format units with
    | .error (.number error) => .fault error
    | .error e => .refusal 422 e.message
    | .ok text =>
      let disposition := disposition stem format.suffix
      if disposition.toList.all (·.toNat ≤ 0xff) then
        .success 200 (.document { mediaType := format.mediaType, text, disposition })
      else .unsendable

/-- The key of a format, without blanks around it and in lower case. Only ASCII letters occur
in the keys, and no other letter is a variant of one in lower case. -/
def plainKey (key : String) : String := (String.ofList (Text.trim key.toList)).toLower

/-- Convert a file. The output format is looked up first, then the kind of the source. -/
def convert (u : Upload) : Response :=
  match Format.ofKey? (plainKey u.format) with
  | none =>
    .refusal 400 ("Unknown output format '" ++ u.format ++ "'. Available: " ++ Format.keyList)
  | some format =>
    let given := u.filename.getD ""
    let filename := Files.name (if given = "" then "captions" else given)
    let stem := Files.stem filename
    let stem := if stem = "" then "captions" else stem
    match u.kind with
    | none => convertKnown format (.ofSuffix (Files.suffix filename)) stem u.content
    | some key =>
      match SourceKind.ofKey? key with
      | some kind => convertKnown format kind stem u.content
      | none =>
        .refusal 400 ("Unknown input format '" ++ key ++ "'. Available: " ++ SourceKind.keyList)

/-- Answer a request that comes at a time. -/
def handle (store : Store) (now : Int) : Request → Store × Response
  | .health => (store, .success 200 (.health "ok" version))
  | .formats => (store, .success 200 (.formats Format.all))
  | .list => (store, .success 200 (.streams (store.list.map info)))
  | .create id body =>
    match body.format? with
    | none => (store, invalid)
    | some format =>
      match store.create id now format with
      | .error e => (store, .refusal 429 e.message)
      | .ok store => (store, .success 201 (.stream (info (.opened id format now))))
  | .get id => withSession store id now fun store s ↦ (store, .success 200 (.stream (info s)))
  | .push id body =>
    match body.captionUnit? with
    | none => (store, invalid)
    | some u => withSession store id now fun store s ↦ push store s u
  | .flush id => withSession store id now fun store s ↦ signal store s .flush
  | .finish id => withSession store id now fun store s ↦ signal store s .finish
  | .delete id =>
    match store.delete id with
    | (true, store) => (store, .success 204 .nothing)
    | (false, store) => (store, notFound id)
  | .cleanup =>
    let (n, store) := store.expire now
    (store, .success 200 (.count n))
  | .convert upload => (store, convert upload)

end Line21.Service
