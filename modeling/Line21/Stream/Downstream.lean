import Line21.Stream.Basic

/-!
# Streams and their consumers

A stream is linked to the consumer downstream of it. Units and signals are delivered one
after the other, and a consumer that takes a unit may raise a signal of its own before it
lets go. The answer to such a signal is delivered at once, ahead of whatever the interrupted
call still had to deliver. The rest of a delivery is therefore an agenda, which shrinks
because only the one caption that waits can ever add units to it.

A consumer that fails to take a unit stops the call. The state of the stream is by then what
it would be without the failure.
-/

namespace Line21

/-- A signal that travels with the units. -/
inductive Signal
  /-- A break in time: what waits is to be forgotten. -/
  | flush
  /-- The end of the stream: what waits is to be written. -/
  | finish
  deriving DecidableEq, Repr

/-- A consumer of timed text with states in `σ`. -/
class Downstream (σ : Type) where
  /-- What the consumer accepts, liked best first; everything, unless it makes a list. -/
  offer : σ → σ × Option (List Caps)
  /-- Hand over a unit. The consumer takes it, and may raise a signal, or fails. -/
  push : σ → TextUnit → σ × Except String (Option Signal)
  /-- Announce what is to come; the consumer may refuse. -/
  announce : σ → Caps → σ × Bool
  /-- Pass a signal on; the consumer may refuse. -/
  notify : σ → Signal → σ × Bool

/-- Something that is to be delivered. -/
inductive Delivery
  | unit (u : TextUnit)
  | signal (e : Signal)
  deriving DecidableEq, Repr

/-- A stream and its consumer. -/
structure Link (δ σ : Type) where
  stream : Stream δ
  downstream : σ

/-- Steps in the life of the host of a stream. -/
inductive Transition
  | nullToReady
  | readyToPaused
  | pausedToPlaying
  | playingToPaused
  | pausedToReady
  | readyToNull
  deriving DecidableEq, Repr

/-- The name of a transition. -/
def Transition.key : Transition → String
  | .nullToReady => "null-to-ready"
  | .readyToPaused => "ready-to-paused"
  | .pausedToPlaying => "paused-to-playing"
  | .playingToPaused => "playing-to-paused"
  | .pausedToReady => "paused-to-ready"
  | .readyToNull => "ready-to-null"

/-- The transition of a name. -/
def Transition.ofKey? (key : String) : Option Transition :=
  [nullToReady, readyToPaused, pausedToPlaying, playingToPaused, pausedToReady, readyToNull].find?
    (·.key == key)

/-- Whether a transition makes a stream start over: entering and leaving the pause do. -/
def Transition.restarts : Transition → Bool
  | .readyToPaused | .pausedToReady => true
  | _ => false

namespace Stream

variable {δ : Type} [CaptionDecoder δ]

/-- The answer of a stream to a signal: the next state, and what is to be delivered. -/
def raise (s : Stream δ) : Signal → Stream δ × List Delivery
  | .flush => (s.flush, [.signal .flush])
  | .finish =>
    let (s, units) := s.drain
    (s, units.map .unit ++ [.signal .finish])

end Stream

namespace Delivery

/-- What a delivery counts for: a unit may add a signal to the agenda. -/
def weight : Delivery → Nat
  | .unit _ => 2
  | .signal _ => 1

end Delivery

/-- What the deliveries of an agenda count for. -/
def agendaWeight (agenda : List Delivery) : Nat := agenda.foldr (fun d n ↦ d.weight + n) 0

/-- How much a stream with an agenda can still deliver. A caption that waits adds a header, a
cue and a signal at most. -/
def agendaMeasure {δ : Type} (s : Stream δ) (agenda : List Delivery) : Nat :=
  (if s.slot.held.isSome then 4 else 0) + agendaWeight agenda

/-- A delivery counts for itself, and the rest of the agenda for the rest. -/
@[simp] theorem agendaWeight_cons (d : Delivery) (agenda : List Delivery) :
    agendaWeight (d :: agenda) = d.weight + agendaWeight agenda := rfl

/-- Units count for two each. -/
theorem agendaWeight_units_append (us : List TextUnit) (rest : List Delivery) :
    agendaWeight (us.map .unit ++ rest) = 2 * us.length + agendaWeight rest := by
  induction us with
  | nil => simp
  | cons u us ih =>
    rw [List.map_cons, List.cons_append, agendaWeight_cons, ih, Delivery.weight, List.length_cons]
    omega

/-- What a signal adds to an agenda counts for less than the unit at which it was raised. -/
theorem agendaMeasure_raise {δ : Type} [CaptionDecoder δ] (s : Stream δ) (e : Signal)
    (u : TextUnit) (rest : List Delivery) :
    agendaMeasure (s.raise e).1 ((s.raise e).2 ++ rest) < agendaMeasure s (.unit u :: rest) := by
  cases e with
  | flush =>
    simp [agendaMeasure, Stream.raise, Stream.flush, Slot.discard, Slot.empty, Delivery.weight]
    omega
  | finish =>
    have h := s.length_drain_le
    simp only [agendaMeasure, Stream.raise, Stream.slot_drain, Slot.empty, List.append_assoc,
      agendaWeight_units_append, List.cons_append, List.nil_append, agendaWeight_cons,
      Delivery.weight, Option.isSome_none, Bool.false_eq_true, if_false]
    split at h
    · simp_all
      omega
    · simp_all

namespace Link

variable {δ σ : Type} [CaptionDecoder δ] [Downstream σ]

/-- Deliver an agenda. The answer is that of the last signal that was passed on, or the given
one if none is. -/
def deliver (s : Stream δ) (d : σ) (answer : Bool) :
    List Delivery → Link δ σ × Except StreamError Bool
  | [] => (⟨s, d⟩, .ok answer)
  | .signal e :: rest =>
    match Downstream.notify d e with
    | (d, answer) => deliver s d answer rest
  | .unit u :: rest =>
    match Downstream.push d u with
    | (d, .error reason) => (⟨s, d⟩, .error (.refused reason))
    | (d, .ok none) => deliver s d answer rest
    | (d, .ok (some e)) => deliver (s.raise e).1 d answer ((s.raise e).2 ++ rest)
termination_by agenda => agendaMeasure s agenda
decreasing_by
  · simp [agendaMeasure, Delivery.weight]
  · simp [agendaMeasure, Delivery.weight]
  · exact agendaMeasure_raise s e u rest

/-- Take in a unit and deliver what it completes. -/
def accept (l : Link δ σ) (u : CaptionUnit) : Link δ σ × Except StreamError Unit :=
  match l.stream.accept u with
  | .error e => (l, .error e)
  | .ok (s, units) =>
    let (l, answer) := deliver s l.downstream true (units.map .unit)
    (l, answer.map fun _ ↦ ())

/-- Take in units up to the first that stops the stream. -/
def acceptAll (l : Link δ σ) : List CaptionUnit → Link δ σ × Except StreamError Unit
  | [] => (l, .ok ())
  | u :: rest =>
    match l.accept u with
    | (l, .ok ()) => acceptAll l rest
    | (l, .error e) => (l, .error e)

/-- Answer a signal and pass it on; the consumer may refuse it. -/
def signal (l : Link δ σ) (e : Signal) : Link δ σ × Except StreamError Bool :=
  let (s, agenda) := l.stream.raise e
  deliver s l.downstream true agenda

/-- Agree on a format for input of a capability, and announce it. Once a format is agreed
upon nothing more is negotiated. Input that does not carry pairs is refused. -/
def negotiate (l : Link δ σ) (input : Caps) : Link δ σ × Except StreamError Bool :=
  if l.stream.format.isSome then (l, .ok true)
  else if !input.carriesPairs then (l, .ok false)
  else
    let (d, offer) := Downstream.offer l.downstream
    match Format.choose offer with
    | .error e => ({ l with downstream := d }, .error (.offer e))
    | .ok format =>
      let (d, answer) := Downstream.announce d format.caps
      (⟨{ l.stream with format := some format }, d⟩, .ok answer)

/-- Start over with a fresh stream for the same consumer. -/
def restart (l : Link δ σ) : Link δ σ := { l with stream := .fresh }

/-- Follow a transition of the host. -/
def transit (l : Link δ σ) (t : Transition) : Link δ σ := if t.restarts then l.restart else l

end Link

/-- A call to a stream. -/
inductive Call
  | unit (u : CaptionUnit)
  | caps (c : Caps)
  | signal (e : Signal)
  | transition (t : Transition)
  deriving DecidableEq, Repr

namespace Link

variable {δ σ : Type} [CaptionDecoder δ] [Downstream σ]

/-- Carry out a call. Only calls about capabilities and signals have an answer. -/
def call (l : Link δ σ) : Call → Link δ σ × Except StreamError (Option Bool)
  | .unit u =>
    let (l, result) := l.accept u
    (l, result.map fun _ ↦ none)
  | .caps c =>
    let (l, result) := l.negotiate c
    (l, result.map some)
  | .signal e =>
    let (l, result) := l.signal e
    (l, result.map some)
  | .transition t => (l.transit t, .ok none)

/-- The link after a sequence of calls, whether or not they succeed. -/
def run (l : Link δ σ) (calls : List Call) : Link δ σ := calls.foldl (fun l c ↦ (l.call c).1) l

end Link

end Line21
