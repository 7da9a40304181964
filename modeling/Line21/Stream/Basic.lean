import Line21.Format.Basic
import Line21.Receiver
import Line21.Source.Basic

/-!
# Streams

A stream turns caption units into units of timed text. It holds the format agreed upon, the
caption that waits for its end, the number of the next cue and the decoder. The operations
here compute the next state and the units to deliver, and deliver nothing themselves.

A caption that comes to be shown ends the one before it, and so does clearing the screen; at
the end of the stream the last caption ends when it started. Units that are too short, pairs
that the decoder refuses and screens that it cannot render leave no cue behind.

What a stream asks of a decoder of byte pairs is a class. The caption receiver is one; a stream
does not depend on it and may be driven by any other.
-/

namespace Line21

/-! ### Decoders -/

/-- A decoder of byte pairs with states in `δ`. -/
class CaptionDecoder (δ : Type) where
  /-- The state before any pair. -/
  fresh : δ
  /-- Take in a pair that arrives at a time in seconds, a binary64 number. -/
  decode : δ → BytePair → Rat → δ × Except ParityError Moment
  /-- The text on the screen. -/
  render : δ → Except NothingShown String
  /-- Forget all pairs. -/
  reset : δ → δ

/-- The receiver as a decoder; it does not look at the clock. -/
instance : CaptionDecoder Receiver where
  fresh := .fresh
  decode r p _ :=
    match r.receive p with
    | .ok (r', moment) => (r', .ok moment)
    | .error e => (r, .error e)
  render := Receiver.text
  reset _ := .fresh

/-- A pair that a receiver takes in is decoded to the moment that it makes. -/
theorem CaptionDecoder.decode_of_receive_ok {r r' : Receiver} {p : BytePair} {moment : Moment}
    (h : r.receive p = .ok (r', moment)) (seconds : Rat) :
    decode r p seconds = (r', .ok moment) := by
  simp only [decode, h]

/-- A pair that a receiver refuses is decoded to the error, and the receiver stays. -/
theorem CaptionDecoder.decode_of_receive_error {r : Receiver} {p : BytePair} {e : ParityError}
    (h : r.receive p = .error e) (seconds : Rat) : decode r p seconds = (r, .error e) := by
  simp only [decode, h]

/-- Decoders of two kinds side by side; the fresh one is of the first kind. -/
instance {α β : Type} [CaptionDecoder α] [CaptionDecoder β] : CaptionDecoder (α ⊕ β) where
  fresh := .inl CaptionDecoder.fresh
  decode d p seconds :=
    match d with
    | .inl a =>
      let (a, outcome) := CaptionDecoder.decode a p seconds
      (.inl a, outcome)
    | .inr b =>
      let (b, outcome) := CaptionDecoder.decode b p seconds
      (.inr b, outcome)
  render d :=
    match d with
    | .inl a => CaptionDecoder.render a
    | .inr b => CaptionDecoder.render b
  reset d :=
    match d with
    | .inl a => .inl (CaptionDecoder.reset a)
    | .inr b => .inr (CaptionDecoder.reset b)

/-! ### States of a stream -/

open Number (NumberError Binary64.nearest?)

/-- Why a stream cannot go on with a call. -/
inductive StreamError
  /-- A unit came before a format was agreed upon. -/
  | notNegotiated
  /-- A unit came without a time. -/
  | missingTime
  /-- The time of a unit in seconds is no binary64 number. -/
  | number (error : NumberError)
  /-- No format could be chosen from what the consumer accepts. -/
  | offer (error : OfferError)
  /-- The consumer failed to take a unit, and said why. -/
  | refused (reason : String)
  deriving DecidableEq, Repr

/-- The text of the error that stops a call. -/
def StreamError.message : StreamError → String
  | .notNegotiated => "No output format negotiated before the first data unit"
  | .missingTime => "Data unit has no presentation timestamp"
  | .number error => error.message
  | .offer error => error.message
  | .refused reason => reason

/-- The state of a stream with a decoder of states `δ`. -/
structure Stream (δ : Type) where
  /-- The format agreed upon, if any yet. -/
  format : Option Format := none
  /-- A cue has been written, and the header before it in formats that have one. -/
  headerWritten : Bool := false
  /-- The caption that waits for its end. -/
  slot : Slot := .empty
  /-- The number of the next cue. -/
  nextNumber : Nat := 1
  /-- The decoder of pairs. -/
  decoder : δ
  deriving DecidableEq, Repr

namespace Stream

variable {δ : Type}

/-- A stream that has seen nothing. -/
def fresh [CaptionDecoder δ] : Stream δ := { decoder := CaptionDecoder.fresh }

/-- Write a cue, after the header if this is the first cue. The header has the time of the
cue. -/
def emit (s : Stream δ) (format : Format) (p : Pending) (finish : Int) :
    Stream δ × List TextUnit :=
  let header := if s.headerWritten then none else format.header p.start
  let cue := format.render (p.close finish s.nextNumber)
  ({ s with headerWritten := true, nextNumber := s.nextNumber + 1 }, header.toList ++ [cue])

/-- Write the cue of a caption that waited, if one did. -/
def emitHeld (s : Stream δ) (format : Format) (held : Option Pending) (finish : Int) :
    Stream δ × List TextUnit :=
  match held with
  | none => (s, [])
  | some p => s.emit format p finish

/-- Act on what a pair did to the display. -/
def react [CaptionDecoder δ] (s : Stream δ) (format : Format) (time : Int) :
    Except ParityError Moment → Stream δ × List TextUnit
  | .error _ | .ok .quiet => (s, [])
  | .ok .cleared =>
    let (held, slot) := s.slot.take
    { s with slot }.emitHeld format held time
  | .ok .shown =>
    match CaptionDecoder.render s.decoder with
    | .error _ => (s, [])
    | .ok text =>
      let (held, slot) := s.slot.replace { start := time, text }
      { s with slot }.emitHeld format held time

/-- Take in a unit of a stream whose format is agreed upon. -/
def acceptTimed [CaptionDecoder δ] (s : Stream δ) (format : Format) (time : Int) :
    List UInt8 → Except StreamError (Stream δ × List TextUnit)
  | first :: second :: _ =>
    match Binary64.nearest? (time / nanosecondsPerSecond) with
    | none => .error (.number .quotientRange)
    | some seconds =>
      let (decoder, outcome) := CaptionDecoder.decode s.decoder ⟨first, second⟩ seconds
      .ok ({ s with decoder }.react format time outcome)
  | _ => .ok (s, [])

/-- Take in a unit. -/
def accept [CaptionDecoder δ] (s : Stream δ) (u : CaptionUnit) :
    Except StreamError (Stream δ × List TextUnit) :=
  match s.format with
  | none => .error .notNegotiated
  | some format =>
    match u.time with
    | none => .error .missingTime
    | some time => s.acceptTimed format time u.data

/-- End the caption that waits, at the time at which it started. Without a format there is
nothing to write. -/
def drain (s : Stream δ) : Stream δ × List TextUnit :=
  let (held, slot) := s.slot.take
  match held, s.format with
  | some p, some format => { s with slot }.emit format p p.start
  | _, _ => ({ s with slot }, [])

/-- Forget the pairs and the caption that waits, as after a seek. -/
def flush [CaptionDecoder δ] (s : Stream δ) : Stream δ :=
  { s with decoder := CaptionDecoder.reset s.decoder, slot := s.slot.discard }

/-- A cue comes with a header at most. -/
theorem length_emit_le (s : Stream δ) (format : Format) (p : Pending) (finish : Int) :
    (s.emit format p finish).2.length ≤ 2 := by
  simp only [emit, List.length_append, List.length_singleton]
  cases (if s.headerWritten = true then none else format.header p.start) <;> simp

/-- After draining no caption waits. -/
@[simp] theorem slot_drain (s : Stream δ) : s.drain.1.slot = .empty := by
  simp only [drain, Slot.take]
  split <;> rfl

/-- Draining writes nothing when no caption waits, and else a header and a cue at most. -/
theorem length_drain_le (s : Stream δ) :
    s.drain.2.length ≤ if s.slot.held.isSome then 2 else 0 := by
  simp only [drain, Slot.take]
  split
  · next h _ =>
    simp only [h, Option.isSome_some, if_true]
    exact length_emit_le _ _ _ _
  · simp

end Stream

end Line21
