import Line21.Proofs.Stream.Course

/-!
# Journals of consumers

A consumer that raises signals while it holds a unit may be handed units in another order than
that in which a stream wrote them. Its journal lists what it takes as it takes it: each unit
with the cue that it shows, under the number that the stream gave it, and with the signal that
was raised in answer. Main statement: what a consumer has taken are the units of its journal.
-/

namespace Line21

variable {δ σ : Type}

/-- Whether a call makes a stream start over. -/
def Call.restarts : Call → Bool
  | .transition t => t.restarts
  | _ => false

/-- The turn that a signal makes. -/
def Signal.turn : Signal → Turn
  | .flush => .flushed
  | .finish => .finished

/-- A unit as it is written, with the cue that it shows. A header shows none. -/
structure Piece where
  unit : TextUnit
  cue : Option Cue
  deriving DecidableEq, Repr

/-- Something that is to be delivered, units as pieces. -/
inductive Parcel
  | piece (p : Piece)
  | signal (e : Signal)
  deriving DecidableEq, Repr

namespace Parcel

/-- What a parcel delivers. -/
def delivery : Parcel → Delivery
  | .piece p => .unit p.unit
  | .signal e => .signal e

/-- The piece of a parcel. -/
def piece? : Parcel → Option Piece
  | .piece p => some p
  | .signal _ => none

/-- Parcels of pieces hold these pieces. -/
theorem filterMap_piece? (ps : List Piece) : (ps.map Parcel.piece).filterMap piece? = ps := by
  rw [List.filterMap_map]
  exact List.filterMap_some

/-- Parcels of pieces deliver their units. -/
theorem map_delivery_piece (ps : List Piece) :
    (ps.map Parcel.piece).map delivery = (ps.map Piece.unit).map .unit := by
  rw [List.map_map, List.map_map]
  rfl

end Parcel

/-! ### What a stream writes at a turn -/

/-- The piece of a cue. -/
def Format.piece (f : Format) (c : Cue) : Piece := ⟨f.render c, some c⟩

/-- What opens cues, if nothing does yet: a header with the time of the first. -/
def Format.preface (f : Format) (headed : Bool) (cues : List Cue) : List Piece :=
  (if headed then none else cues.head?.bind fun c ↦ f.header c.start).toList.map (⟨·, none⟩)

/-- The pieces of cues that are written one after the other. -/
def Format.pieces (f : Format) (headed : Bool) (cues : List Cue) : List Piece :=
  f.preface headed cues ++ cues.map f.piece

/-- What opens cues is a header at most. -/
theorem Format.map_unit_preface (f : Format) (headed : Bool) (cues : List Cue) :
    (f.preface headed cues).map Piece.unit =
      (if headed then none else cues.head?.bind fun c ↦ f.header c.start).toList := by
  rw [preface, List.map_map]
  exact List.map_id _

/-- A header opens the cues whose first has it. -/
theorem Format.preface_cons {f : Format} {c : Cue} {header : TextUnit}
    (h : f.header c.start = some header) (cues : List Cue) :
    f.preface false (c :: cues) = [⟨header, none⟩] := by
  rw [preface, List.head?_cons, Option.bind_some, h]
  rfl

/-- Nothing opens no cues. -/
@[simp] theorem Format.preface_nil (f : Format) (headed : Bool) : f.preface headed [] = [] := by
  cases headed <;> rfl

/-- No cues are written in no pieces. -/
@[simp] theorem Format.pieces_nil (f : Format) (headed : Bool) : f.pieces headed [] = [] := by
  rw [pieces, preface_nil, List.map_nil, List.append_nil]

namespace Stream

/-- The cue that a turn makes of the caption that waits, under the next number. -/
def cue? (s : Stream δ) (t : Turn) : Option Cue :=
  s.slot.held.bind fun p ↦ (t.stay p.start).map fun duration ↦
    { start := p.start, duration, text := p.text, number := s.nextNumber }

/-- The pieces that a stream writes at a turn. -/
def writes (s : Stream δ) (t : Turn) : List Piece :=
  match s.format, s.cue? t with
  | some f, some c => f.pieces s.headerWritten [c]
  | _, _ => []

/-- The parcels of a stream that answers a signal. -/
def raised (s : Stream δ) (e : Signal) : List Parcel :=
  (s.writes e.turn).map .piece ++ [.signal e]

/-- An answer holds the pieces that are written. -/
theorem filterMap_raised (s : Stream δ) (e : Signal) :
    (s.raised e).filterMap Parcel.piece? = s.writes e.turn := by
  rw [raised, List.filterMap_append, Parcel.filterMap_piece?]
  exact List.append_nil _

private theorem writes_of_stay {t : Turn} (h : ∀ start, t.stay start = none) (s : Stream δ) :
    s.writes t = [] := by
  have hc : s.cue? t = none := by
    rw [cue?]
    cases s.slot.held with
    | none => rfl
    | some p => rw [Option.bind_some, h, Option.map_none]
  rw [writes, hc]
  split
  · next h => cases h
  · rfl

/-- Nothing is written when no caption waits. -/
theorem writes_of_held {s : Stream δ} (h : s.slot.held = none) (t : Turn) : s.writes t = [] := by
  rw [writes, cue?, h, Option.bind_none]
  split
  · next h => cases h
  · rfl

/-- Without a format, an answer is the signal alone. -/
theorem raised_of_format {s : Stream δ} (hf : s.format = none) (e : Signal) :
    s.raised e = [.signal e] := by
  rw [raised, writes, hf]
  rfl

/-- Writing a cue gives out its pieces. -/
theorem emit_eq (s : Stream δ) (f : Format) (p : Pending) (finish : Int) :
    (s.emit f p finish).2 =
      (f.pieces s.headerWritten [p.close finish s.nextNumber]).map Piece.unit := by
  rw [emit, Format.pieces, List.map_append, Format.map_unit_preface]
  rfl

private theorem drain_eq (s : Stream δ) : s.drain.2 = (s.writes .finished).map Piece.unit := by
  cases hp : s.slot.held with
  | none =>
    rw [writes_of_held hp]
    simp only [drain, Slot.take, hp, List.map_nil]
  | some p =>
    cases hf : s.format with
    | none => simp only [drain, Slot.take, writes, hp, hf, List.map_nil]
    | some f =>
      simp only [drain, Slot.take, writes, cue?, hp, hf, Option.bind_some, Turn.stay,
        Option.map_some, emit_eq, Pending.close, durationBetween_self]

private theorem emitHeld_eq {s : Stream δ} {f : Format} (hf : s.format = some f) (slot : Slot)
    {t : Turn} {time : Int} (ht : ∀ start, t.stay start = some (durationBetween start time)) :
    (({ s with slot } : Stream δ).emitHeld f s.slot.held time).2 =
      (s.writes t).map Piece.unit := by
  cases hp : s.slot.held with
  | none =>
    rw [writes_of_held hp]
    rfl
  | some p =>
    simp only [emitHeld, emit_eq, writes, cue?, hp, hf, Option.bind_some, ht, Option.map_some,
      Pending.close]

variable [CaptionDecoder δ]

/-- The parcels of an answer are what is to be delivered. -/
theorem raise_eq (s : Stream δ) (e : Signal) :
    (s.raise e).2 = (s.raised e).map Parcel.delivery := by
  rw [raised, List.map_append, Parcel.map_delivery_piece]
  cases e with
  | flush =>
    rw [Signal.turn, writes_of_stay fun _ ↦ rfl]
    rfl
  | finish =>
    rw [Signal.turn, ← drain_eq]
    rfl

/-- The pieces that a unit lets a stream write. -/
def due (s : Stream δ) (u : CaptionUnit) : List Piece := (s.turn? u).elim [] s.writes

private theorem react_eq {s : Stream δ} {f : Format} (hf : s.format = some f) (time : Int)
    (outcome : Except ParityError Moment) :
    (s.react f time outcome).2 =
      ((turnOf f time s.decoder outcome).elim [] s.writes).map Piece.unit := by
  cases outcome with
  | error e => rfl
  | ok moment =>
    cases moment with
    | quiet => rfl
    | cleared => exact emitHeld_eq hf _ fun _ ↦ rfl
    | shown =>
      rw [react, turnOf]
      cases CaptionDecoder.render s.decoder with
      | error e => rfl
      | ok text => exact emitHeld_eq hf _ fun _ ↦ rfl

/-- A unit that is taken in gives out what is due. -/
theorem accept_eq {s s' : Stream δ} {u : CaptionUnit} {us : List TextUnit}
    (h : s.accept u = .ok (s', us)) : us = (s.due u).map Piece.unit := by
  rw [due, turn?]
  rcases accept_cases h with ⟨hh, -, rfl⟩ | ⟨f, time, pair, seconds, hh, hf, hs⟩
  · rw [hh]
    rfl
  · have hr := react_eq (s := { s with
      decoder := (CaptionDecoder.decode s.decoder pair seconds).1 }) hf time
      (CaptionDecoder.decode s.decoder pair seconds).2
    rw [hs] at hr
    rw [hh, Option.bind_some]
    exact hr

end Stream

/-! ### Journals -/

/-- A piece that a consumer has taken. -/
structure Entry extends Piece where
  /-- Whether a caption waited in the stream. -/
  waiting : Bool
  /-- The signal that the consumer raised in answer. -/
  answer : Option Signal
  deriving DecidableEq, Repr

namespace Link

variable [CaptionDecoder δ] [Downstream σ]

/-- What a consumer enters of a delivery of parcels, up to the first that it refuses. -/
def enter (s : Stream δ) (d : σ) : List Parcel → List Entry
  | [] => []
  | .signal e :: rest => enter s (Downstream.notify d e).1 rest
  | .piece p :: rest =>
    match Downstream.push d p.unit with
    | (_, .error _) => []
    | (d, .ok none) => ⟨p, s.slot.held.isSome, none⟩ :: enter s d rest
    | (d, .ok (some e)) =>
      ⟨p, s.slot.held.isSome, some e⟩ :: enter (s.raise e).1 d (s.raised e ++ rest)
termination_by parcels => agendaMeasure s (parcels.map Parcel.delivery)
decreasing_by
  · simp [agendaMeasure, Parcel.delivery, Delivery.weight]
  · simp [agendaMeasure, Parcel.delivery, Delivery.weight]
  · rw [List.map_append, ← Stream.raise_eq]
    exact agendaMeasure_raise s e p.unit _

/-- What a consumer enters of a call. -/
def entries (l : Link δ σ) : Call → List Entry
  | .unit u =>
    match l.stream.accept u with
    | .error _ => []
    | .ok (s, _) => enter s l.downstream ((l.stream.due u).map .piece)
  | .signal e => enter (l.stream.raise e).1 l.downstream (l.stream.raised e)
  | .caps _ | .transition _ => []

/-- The journal of a consumer over a run of calls. -/
def journal (l : Link δ σ) : List Call → List Entry
  | [] => []
  | c :: calls => l.entries c ++ (l.call c).1.journal calls

open Downstream (Records Calm)

/-- What a consumer takes of a delivery is what it enters. -/
theorem taken_deliver {taken : σ → List TextUnit} (hr : Records taken) (s : Stream δ) (d : σ)
    (answer : Bool) (parcels : List Parcel) :
    taken (deliver s d answer (parcels.map Parcel.delivery)).1.downstream =
      taken d ++ (enter s d parcels).map (·.unit) := by
  fun_induction enter s d parcels generalizing answer with
  | case1 s d =>
    rw [List.map_nil, deliver]
    exact (List.append_nil _).symm
  | case2 s d e rest ih =>
    rw [List.map_cons, Parcel.delivery, deliver]
    exact (ih _).trans (congrArg (· ++ _) (hr.taken_notify d e))
  | case3 s d p rest d' reason h =>
    rw [List.map_cons, Parcel.delivery, deliver, h]
    have ht := hr.taken_push_error d p.unit reason (congrArg Prod.snd h)
    rw [h] at ht
    rw [List.map_nil, List.append_nil]
    exact ht
  | case4 s d p rest d' h ih =>
    rw [List.map_cons, Parcel.delivery, deliver, h]
    have ht := hr.taken_push d p.unit _ (congrArg Prod.snd h)
    rw [h] at ht
    dsimp only
    rw [ih, ht, List.map_cons, List.append_assoc, List.singleton_append]
  | case5 s d p rest d' e h ih =>
    rw [List.map_cons, Parcel.delivery, deliver, h]
    have ht := hr.taken_push d p.unit _ (congrArg Prod.snd h)
    rw [h] at ht
    dsimp only
    rw [Stream.raise_eq, ← List.map_append, ih, ht, List.map_cons, List.append_assoc,
      List.singleton_append]

/-- What a consumer takes of a call is what it enters. -/
theorem taken_call {taken : σ → List TextUnit} (hr : Records taken) (l : Link δ σ) (c : Call) :
    taken (l.call c).1.downstream = taken l.downstream ++ (l.entries c).map (·.unit) := by
  cases c with
  | unit u =>
    cases ha : l.stream.accept u with
    | error e =>
      simp only [call, accept, entries, ha, List.map_nil, List.append_nil]
    | ok r =>
      obtain ⟨s, us⟩ := r
      have hd := taken_deliver hr s l.downstream true ((l.stream.due u).map .piece)
      rw [Parcel.map_delivery_piece, ← Stream.accept_eq ha] at hd
      simp only [call, accept, entries, ha]
      exact hd
  | signal e =>
    have hd := taken_deliver hr (l.stream.raise e).1 l.downstream true (l.stream.raised e)
    rw [← Stream.raise_eq] at hd
    exact hd
  | caps c => exact (taken_negotiate hr l c).trans (List.append_nil _).symm
  | transition t =>
    rw [call, transit, entries, List.map_nil, List.append_nil]
    split <;> rfl

/-- What a consumer takes over a run of calls are the units of its journal. -/
theorem taken_run_journal {taken : σ → List TextUnit} (hr : Records taken) (l : Link δ σ)
    (calls : List Call) :
    taken (l.run calls).downstream = taken l.downstream ++ (l.journal calls).map (·.unit) := by
  induction calls generalizing l with
  | nil => exact (List.append_nil _).symm
  | cons c calls ih =>
    rw [journal, List.map_append, ← List.append_assoc, ← taken_call hr l c]
    exact ih _

end Link

end Line21
